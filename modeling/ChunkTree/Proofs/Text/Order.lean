import ChunkTree.Text.Search
import ChunkTree.Proofs.Text.Trim

/-!
Words that stand in a text one after the other. A search for the first occurrence may find a word
before the place it was meant at, but never so late that a word after it is missed.
-/

namespace ChunkTree
namespace Text

/-- The words stand in the text in this order and apart from each other, and `rest` is an end of the
text that they leave free. -/
def InOrder : List Text → Text → Text → Prop
  | [], t, rest => rest <:+ t
  | w :: ws, t, rest => ∃ u, w ++ u <:+ t ∧ InOrder ws u rest

theorem InOrder.mono {ws : List Text} {s t rest : Text} (h : InOrder ws s rest) (hst : s <:+ t) :
    InOrder ws t rest := by
  cases ws with
  | nil => exact List.IsSuffix.trans h hst
  | cons w ws =>
    obtain ⟨u, hu, hws⟩ := h
    exact ⟨u, hu.trans hst, hws⟩

theorem InOrder.rest_nil {ws : List Text} {t rest : Text} (h : InOrder ws t rest) :
    InOrder ws t [] := by
  induction ws generalizing t with
  | nil => exact List.nil_suffix
  | cons w ws ih =>
    obtain ⟨u, hu, hws⟩ := h
    exact ⟨u, hu, ih hws⟩

theorem InOrder.append_right {ws : List Text} {t rest : Text} (h : InOrder ws t rest) (v : Text) :
    InOrder ws (t ++ v) (rest ++ v) := by
  induction ws generalizing t with
  | nil =>
    obtain ⟨s, rfl⟩ := h
    exact ⟨s, by simp⟩
  | cons w ws ih =>
    obtain ⟨u, ⟨s, rfl⟩, hws⟩ := h
    exact ⟨u ++ v, ⟨s, by simp⟩, ih hws⟩

theorem InOrder.append {ws vs : List Text} {t u rest : Text} (hws : InOrder ws t u)
    (hvs : InOrder vs u rest) : InOrder (ws ++ vs) t rest := by
  induction ws generalizing t with
  | nil => exact hvs.mono hws
  | cons w ws ih =>
    obtain ⟨r, hr, hws⟩ := hws
    exact ⟨r, hr, ih hws⟩

theorem InOrder.tail {w : Text} {ws : List Text} {t rest : Text} (h : InOrder (w :: ws) t rest) :
    InOrder ws t rest := by
  obtain ⟨u, hu, hws⟩ := h
  exact hws.mono ((List.suffix_append w u).trans hu)

theorem InOrder.exists_append {ws : List Text} {t rest : Text} (h : InOrder ws t rest) :
    ∃ s, t = s ++ rest ∧ InOrder ws s [] := by
  induction ws generalizing t with
  | nil =>
    obtain ⟨s, rfl⟩ := h
    exact ⟨s, rfl, List.nil_suffix⟩
  | cons w ws ih =>
    obtain ⟨u, ⟨gap, rfl⟩, hws⟩ := h
    obtain ⟨s, rfl, hs⟩ := ih hws
    exact ⟨gap ++ (w ++ s), by simp, s, List.suffix_append _ _, hs⟩

theorem InOrder.suffix {ws : List Text} {t rest : Text} (h : InOrder ws t rest) : rest <:+ t := by
  obtain ⟨s, rfl, -⟩ := h.exists_append
  exact List.suffix_append s rest

theorem inOrder_intercalate (sep : Text) (parts : List Text) :
    InOrder parts (sep.intercalate parts) [] := by
  induction parts with
  | nil => exact List.nil_suffix
  | cons t parts ih =>
    cases parts with
    | nil => exact ⟨[], ⟨[], by simp⟩, List.nil_suffix⟩
    | cons t' parts =>
      rw [List.intercalate_cons_cons]
      exact ⟨sep ++ sep.intercalate (t' :: parts), ⟨[], by simp⟩, ih.mono (List.suffix_append _ _)⟩

theorem InOrder.within {ws : List Text} {w t rest : Text} (hws : InOrder ws w [])
    (hw : InOrder [w] t rest) : InOrder ws t rest := by
  obtain ⟨u, hu, hrest⟩ := hw
  have hin : InOrder ws (w ++ u) u := hws.append_right u
  have hall := InOrder.append (hin.mono hu) (show InOrder [] u rest from hrest)
  rwa [List.append_nil] at hall

theorem inOrder_singleton {w t : Text} : InOrder [w] t [] ↔ w <:+: t := by
  constructor
  · rintro ⟨u, hu, -⟩
    exact (List.prefix_append w u).isInfix.trans hu.isInfix
  · rintro ⟨s, u, rfl⟩
    exact ⟨u, ⟨s, by simp⟩, List.nil_suffix⟩

theorem InOrder.of_isInfix {ws : List Text} {s t : Text} (h : InOrder ws s [])
    (hst : s <:+: t) : InOrder ws t [] :=
  h.within (inOrder_singleton.mpr hst)

theorem firstCut_of_suffix {w u t : Text} (hw : w ≠ []) (h : w ++ u <:+ t) :
    ∃ gap rest, firstCut w t = some (gap, rest) ∧ u <:+ rest := by
  induction t with
  | nil => simp_all
  | cons c t ih =>
    rw [firstCut]
    split
    · rename_i hpre
      refine ⟨[], _, rfl, ?_⟩
      have hsplit := List.prefix_iff_eq_append.mp (List.isPrefixOf_iff_prefix.mp hpre)
      have hlength : (w ++ u).length ≤ (w ++ (c :: t).drop w.length).length := by
        rw [hsplit]
        exact h.length_le
      refine List.suffix_of_suffix_length_le ((List.suffix_append w u).trans h)
        (List.drop_suffix _ _) ?_
      simpa using hlength
    · rename_i hpre
      rcases List.suffix_cons_iff.mp h with hsame | htail
      · exact absurd (List.isPrefixOf_iff_prefix.mpr (hsame ▸ List.prefix_append w u)) hpre
      · obtain ⟨gap, rest, hcut, hrest⟩ := ih htail
        exact ⟨c :: gap, rest, by simp [hcut], hrest⟩

theorem cutAt?_of_suffix {w u t : Text} (hw : w ≠ []) (h : w ++ u <:+ t) :
    ∃ gap rest, cutAt? w t = some (gap, rest) ∧ u <:+ rest := by
  rw [cutAt?, if_neg (by simpa using hw)]
  exact firstCut_of_suffix hw h

theorem InOrder.tail_blank {ws : List Text} {c : Char} {t : Text} (hc : isBlank c = true)
    (htight : ∀ w ∈ ws, Tight w) (h : InOrder ws (c :: t) []) : InOrder ws t [] := by
  induction ws with
  | nil => exact List.nil_suffix
  | cons w ws ih =>
    obtain ⟨hw, hws⟩ := List.forall_mem_cons.mp htight
    obtain ⟨u, hu, hrest⟩ := h
    rcases List.suffix_cons_iff.mp hu with hsame | htail
    · cases w with
      | nil =>
        obtain rfl : u = c :: t := hsame
        exact ⟨t, List.suffix_refl t, ih hws hrest⟩
      | cons d w =>
        obtain ⟨rfl, -⟩ := List.cons.inj hsame
        simp [hw.head d rfl] at hc
    · exact ⟨u, htail, hrest⟩

theorem InOrder.trimStart {ws : List Text} {t : Text} (htight : ∀ w ∈ ws, Tight w)
    (h : InOrder ws t []) : InOrder ws (trimStart t) [] := by
  induction t with
  | nil => exact h
  | cons c t ih =>
    rw [Text.trimStart, List.dropWhile_cons]
    split
    · rename_i hc
      exact ih (h.tail_blank hc htight)
    · exact h

theorem InOrder.init_blank {ws : List Text} {c : Char} {t : Text} (hc : isBlank c = true)
    (htight : ∀ w ∈ ws, Tight w) (h : InOrder ws (t ++ [c]) []) : InOrder ws t [] := by
  induction ws generalizing t with
  | nil => exact List.nil_suffix
  | cons w ws ih =>
    obtain ⟨hw, hws⟩ := List.forall_mem_cons.mp htight
    obtain ⟨u, hu, hrest⟩ := h
    rcases List.suffix_concat_iff.mp hu with hnil | ⟨v, hv, hvt⟩
    · obtain ⟨rfl, rfl⟩ := List.append_eq_nil_iff.mp hnil
      exact ⟨[], List.nil_suffix, hrest⟩
    · rcases List.eq_nil_or_concat u with rfl | ⟨u, d, rfl⟩
      · -- the word cannot end with the white space taken off
        rw [List.append_nil] at hv
        have hlast := hw.last c (by simp [hv])
        simp [hlast] at hc
      · rw [List.concat_eq_append] at hv hrest
        rw [← List.append_assoc] at hv
        obtain ⟨rfl, hd⟩ := List.append_inj' hv rfl
        obtain rfl : d = c := by simpa using hd
        exact ⟨u, hvt, ih hws hrest⟩

theorem InOrder.trimEnd {ws : List Text} {t : Text} (htight : ∀ w ∈ ws, Tight w)
    (h : InOrder ws t []) : InOrder ws (trimEnd t) [] := by
  induction t using List.reverseRecOn with
  | nil => exact h
  | append_singleton t c ih =>
    rw [trimEnd_concat]
    split
    · rename_i hc
      exact ih (h.init_blank hc htight)
    · exact h

theorem InOrder.trimStart_append {ws : List Text} {s : Text} (htight : ∀ w ∈ ws, Tight w)
    (h : InOrder ws s []) (rest : Text) :
    InOrder ws (Text.trimStart (s ++ rest)) (Text.trimStart rest) := by
  have hstart := h.trimStart htight
  rw [Text.trimStart, List.dropWhile_append]
  split
  · rename_i hblank
    rw [Text.trimStart, List.isEmpty_iff.mp hblank] at hstart
    exact hstart.append_right (Text.trimStart rest)
  · -- the text after the words loses white space that the words keep from being trimmed
    have hafter : InOrder [] rest (Text.trimStart rest) := List.dropWhile_suffix isBlank
    have hall := (hstart.append_right rest).append hafter
    rwa [List.append_nil] at hall

theorem InOrder.trimEnd_append {ws : List Text} {s : Text} (htight : ∀ w ∈ ws, Tight w)
    (h : InOrder ws s []) (rest : Text) :
    InOrder ws (Text.trimEnd (s ++ rest)) (Text.trimEnd rest) := by
  rw [Text.trimEnd_append]
  split
  · rename_i hnil
    rw [hnil]
    exact h.trimEnd htight
  · exact h.append_right (Text.trimEnd rest)

theorem InOrder.trim {ws : List Text} {t rest : Text} (htight : ∀ w ∈ ws, Tight w)
    (h : InOrder ws t rest) : InOrder ws (trim t) (trim rest) := by
  obtain ⟨s, rfl, hs⟩ := h.exists_append
  have hstart := hs.trimStart_append htight rest
  obtain ⟨u, hu, hwords⟩ := hstart.exists_append
  rw [Text.trim, hu]
  exact hwords.trimEnd_append htight (Text.trimStart rest)

end Text
end ChunkTree

import ChunkTree.Proofs.Text.Greedy
import ChunkTree.Text.Blank

/-!
What may stand before a marker. A marker that begins in the gap before it is found too early; a gap
leads to the marker if this does not happen, whatever the marker is.
-/

namespace ChunkTree
namespace Text

variable {p g s t : Text}

def LeadsTo (p g : Text) : Prop := ∀ s, s <:+ g → s ≠ [] → ¬ p <+: s ++ p

instance (p g : Text) : Decidable (LeadsTo p g) :=
  decidable_of_iff (∀ s ∈ g.tails, s ≠ [] → ¬ p <+: s ++ p) (by simp [LeadsTo])

theorem prefix_gap_iff : p <+: s ++ (p ++ t) ↔ p <+: s ++ p := by
  have hgap : s ++ p <+: s ++ (p ++ t) := by
    rw [← List.append_assoc]
    exact List.prefix_append _ t
  constructor
  · intro h
    exact List.prefix_of_prefix_length_le h hgap (by simp)
  · intro h
    exact h.trans hgap

theorem LeadsTo.tail {c : Char} (h : LeadsTo p (c :: g)) : LeadsTo p g :=
  fun s hs => h s (hs.trans (List.suffix_cons c g))

theorem firstCut_of_leadsTo (hp : p ≠ []) (h : LeadsTo p g) (t : Text) :
    firstCut p (g ++ (p ++ t)) = some (g, t) := by
  induction g with
  | nil =>
    obtain ⟨c, p, rfl⟩ := List.exists_cons_of_ne_nil hp
    have hpre : (c :: p).isPrefixOf (c :: (p ++ t)) = true := by
      rw [List.isPrefixOf_iff_prefix]
      exact List.prefix_append (c :: p) t
    rw [List.nil_append, List.cons_append, firstCut, if_pos hpre, ← List.cons_append,
      List.drop_left]
  | cons c g ih =>
    have hpre : ¬ p.isPrefixOf (c :: (g ++ (p ++ t))) = true := by
      rw [List.isPrefixOf_iff_prefix, ← List.cons_append, prefix_gap_iff]
      exact h (c :: g) (List.suffix_refl _) (List.cons_ne_nil c g)
    rw [List.cons_append, firstCut, if_neg hpre, ih h.tail]
    rfl

theorem leadsTo_of_firstCut {rest : Text} (h : firstCut p (g ++ (p ++ t)) = some (g, rest)) :
    LeadsTo p g := by
  induction g with
  | nil =>
    intro s hs hne
    exact absurd (List.suffix_nil.mp hs) hne
  | cons c g ih =>
    rw [List.cons_append, firstCut] at h
    split at h
    · simp at h
    · rename_i hpre
      rw [List.isPrefixOf_iff_prefix, ← List.cons_append, prefix_gap_iff] at hpre
      obtain ⟨⟨before, after⟩, hcut, he⟩ := Option.map_eq_some_iff.mp h
      simp only [Prod.mk.injEq, List.cons.injEq, true_and] at he
      obtain ⟨rfl, rfl⟩ := he
      intro s hs hne
      rcases List.suffix_cons_iff.mp hs with rfl | hs
      · exact hpre
      · exact ih hcut s hs hne

theorem pieces_leading (hp : p ≠ []) (h : LeadsTo p g) (t : Text) :
    pieces p (g ++ (p ++ t)) = g :: pieces p t := by
  rw [pieces_eq hp, pieces_eq hp, piecesAfter_of_firstCut hp (firstCut_of_leadsTo hp h t)]

theorem leadsTo_of_pieces (hp : p ≠ []) {ps : List Text} (hps : ps ≠ [])
    (h : pieces p (g ++ (p ++ t)) = g :: ps) : LeadsTo p g := by
  have hpos := List.length_pos_iff.mpr hps
  have hone : 0 + 1 ≤ occurrences p (g ++ (p ++ t)) := by
    rw [occurrences, h, List.length_cons]
    omega
  obtain ⟨gap, rest, hcut, -⟩ := exists_cutAt?_of_occurrences hp hone
  have hgap := pieces_of_cutAt? hcut
  rw [h, List.cons.injEq] at hgap
  obtain ⟨rfl, -⟩ := hgap
  rw [cutAt?, if_neg (by simpa using hp)] at hcut
  exact leadsTo_of_firstCut hcut

theorem leadsTo_of_unbordered (hp : Unbordered p) (hg : ¬ p <:+: g) : LeadsTo p g := by
  intro s hs hne h
  have hfree := free_of_isInfix hs.isInfix hg
  rw [← List.append_nil p, ← prefix_gap_iff (t := []), List.append_nil] at h
  exact not_prefix_gap hp hfree hne h

theorem leadsTo_of_blank (hp : ∀ c ∈ p, isBlank c = false) (hg : ¬ p <:+: g)
    (hlast : ∀ c ∈ g.getLast?, isBlank c = true) : LeadsTo p g := by
  intro s hs hne h
  rcases List.prefix_or_prefix_of_prefix h (List.prefix_append s p) with hps | hsp
  · exact hg (hps.isInfix.trans hs.isInfix)
  · have hlastGap : g.getLast? = some (s.getLast hne) := by
      obtain ⟨r, rfl⟩ := hs
      rw [List.getLast?_append_of_ne_nil r hne, List.getLast?_eq_some_getLast hne]
    have hblank := hlast (s.getLast hne) hlastGap
    rw [hp _ (hsp.subset (List.getLast_mem hne))] at hblank
    cases hblank

theorem isPrefix_of_blank {c : Char} (hp : ∀ d ∈ p, isBlank d = false) (hc : isBlank c = true)
    (h : p <+: s ++ c :: t) : p <+: s := by
  rcases List.prefix_or_prefix_of_prefix h (List.prefix_append s (c :: t)) with hps | ⟨q, rfl⟩
  · exact hps
  · rw [List.prefix_append_right_inj] at h
    cases q with
    | nil => simp
    | cons d q =>
      obtain ⟨rfl, -⟩ := List.cons_prefix_cons.mp h
      rw [hp d (by simp)] at hc
      cases hc

theorem free_blank {c : Char} (hp : ∀ d ∈ p, isBlank d = false) (hc : isBlank c = true)
    (hs : ¬ p <:+: s) (ht : ¬ p <:+: t) : ¬ p <:+: s ++ c :: t := by
  induction s with
  | nil =>
    rw [List.nil_append, List.infix_cons_iff]
    rintro (h | h)
    · exact hs (isPrefix_of_blank hp hc (s := []) h).isInfix
    · exact ht h
  | cons d s ih =>
    rw [List.cons_append, List.infix_cons_iff]
    rintro (h | h)
    · rw [← List.cons_append] at h
      exact hs (isPrefix_of_blank hp hc h).isInfix
    · exact ih (free_of_isInfix (List.suffix_cons d s).isInfix hs) h

end Text
end ChunkTree

import ChunkTree.Proofs.Text.Trim

namespace ChunkTree
namespace Text

def words (t : Text) : List Text := (t.splitOnP isBlank).filter (fun w => !w.isEmpty)

theorem words_append_blank {c : Char} (hc : isBlank c = true) (s t : Text) :
    words (s ++ c :: t) = words s ++ words t := by
  rw [words, List.splitOnP_append_cons s t hc, List.filter_append]
  rfl

theorem words_append_blanks {s : Text} (hne : s ≠ []) (hs : ∀ c ∈ s, isBlank c = true) (w r : Text) :
    words (w ++ s ++ r) = words w ++ words r := by
  induction s generalizing w with
  | nil => exact absurd rfl hne
  | cons c s ih =>
    obtain ⟨hc, hs⟩ := List.forall_mem_cons.mp hs
    rw [List.append_assoc, List.cons_append, words_append_blank hc]
    congr 1
    cases s with
    | nil => rfl
    | cons d s => exact ih (List.cons_ne_nil d s) hs []

theorem length_words_le {r : Text} (h : ∀ c ∈ r, isBlank c = false) : (words r).length ≤ 1 := by
  rw [words, List.splitOnP_eq_singleton h]
  exact List.length_filter_le _ [r]

/-- The text `h` is `w`, a run `s` of white space that starts where `w` ends, and no more than a word. -/
structure Parted (h w s r : Text) : Prop where
  parts : h = w ++ s ++ r
  ne_nil : s ≠ []
  blank : ∀ c ∈ s, isBlank c = true
  word : ∀ c ∈ r, isBlank c = false
  tight : ∀ c ∈ w.getLast?, isBlank c = false

variable {t h w s r : Text}

theorem Parted.words_eq (hp : Parted h w s r) : words h = words w ++ words r := by
  rw [hp.parts, words_append_blanks hp.ne_nil hp.blank]

theorem Parted.exists_blank (hp : Parted h w s r) (ht : h <+: t) :
    ∃ c rest, t = w ++ c :: rest ∧ isBlank c = true := by
  obtain ⟨after, rfl⟩ := ht
  obtain ⟨c, s', rfl⟩ := List.exists_cons_of_ne_nil hp.ne_nil
  refine ⟨c, s' ++ r ++ after, ?_, hp.blank c List.mem_cons_self⟩
  rw [hp.parts]
  simp

theorem eq_append_of_beforeLastBlank? {before : Text} (h : beforeLastBlank? t = some before) :
    ∃ c after, t = before ++ c :: after ∧ isBlank c = true ∧ ∀ d ∈ after, isBlank d = false := by
  induction t generalizing before with
  | nil => simp [beforeLastBlank?] at h
  | cons c t ih =>
    rw [beforeLastBlank?] at h
    cases ht : beforeLastBlank? t with
    | some b =>
      simp only [ht, Option.some.injEq] at h
      subst h
      obtain ⟨d, after, rfl, hd, hafter⟩ := ih ht
      exact ⟨d, after, rfl, hd, hafter⟩
    | none =>
      simp only [ht] at h
      split at h
      · rename_i hc
        obtain rfl := Option.some.inj h
        exact ⟨c, t, rfl, hc, beforeLastBlank?_eq_none.mp ht⟩
      · cases h

theorem parted_trimEnd (before : Text) {after : Text} {c : Char} (hc : isBlank c = true)
    (hafter : ∀ d ∈ after, isBlank d = false) :
    ∃ s, Parted (before ++ c :: after) (trimEnd before) s after := by
  obtain ⟨blanks, hblanks, hall⟩ := exists_blanks_trimEnd before
  refine ⟨blanks ++ [c], ?_, by simp, ?_, hafter, last_trimEnd before⟩
  · rw [List.append_assoc, List.append_assoc, List.singleton_append, ← List.append_assoc, ← hblanks]
  · intro d hd
    rcases List.mem_append.mp hd with hd | hd
    · exact hall d hd
    · rwa [List.mem_singleton.mp hd]

end Text
end ChunkTree

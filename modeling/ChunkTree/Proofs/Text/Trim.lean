import ChunkTree.Text.Blank
import Mathlib.Data.List.DropRight

namespace ChunkTree
namespace Text

theorem trimEnd_concat (t : Text) (c : Char) :
    trimEnd (t ++ [c]) = if isBlank c then trimEnd t else t ++ [c] := by
  induction t with
  | nil => simp [trimEnd]
  | cons d t ih =>
    rw [List.cons_append, trimEnd, ih]
    cases hc : isBlank c with
    | true => simp [trimEnd]
    | false => cases t <;> simp

theorem trimEnd_append (s t : Text) :
    trimEnd (s ++ t) = if trimEnd t = [] then trimEnd s else s ++ trimEnd t := by
  induction s with
  | nil =>
    split
    · assumption
    · rfl
  | cons c s ih =>
    rw [List.cons_append, trimEnd, ih]
    by_cases ht : trimEnd t = []
    · rw [if_pos ht, if_pos ht, trimEnd]
    · obtain ⟨d, u, hd⟩ := List.exists_cons_of_ne_nil (List.append_ne_nil_of_right_ne_nil s ht)
      rw [if_neg ht, if_neg ht, List.cons_append, hd]

theorem trimEnd_eq_rdropWhile (t : Text) : trimEnd t = t.rdropWhile isBlank := by
  induction t using List.reverseRecOn with
  | nil => rfl
  | append_singleton t c ih => rw [trimEnd_concat, List.rdropWhile_concat, ih]

theorem trimEnd_isPrefix (t : Text) : trimEnd t <+: t := by
  rw [trimEnd_eq_rdropWhile]
  exact List.rdropWhile_prefix isBlank t

theorem exists_blanks_trimEnd (t : Text) :
    ∃ s, t = trimEnd t ++ s ∧ ∀ c ∈ s, isBlank c = true := by
  refine ⟨t.rtakeWhile isBlank, ?_, ?_⟩
  · rw [trimEnd_eq_rdropWhile, List.rdropWhile_append_rtakeWhile]
  · intro c hc
    exact List.mem_rtakeWhile_imp hc

theorem last_trimEnd (t : Text) : ∀ c ∈ (trimEnd t).getLast?, isBlank c = false := by
  intro c hc
  rw [trimEnd_eq_rdropWhile] at hc
  have hne : t.rdropWhile isBlank ≠ [] := by
    intro hnil
    simp [hnil] at hc
  have hlast := List.rdropWhile_last_not isBlank t hne
  rw [List.getLast?_eq_some_getLast hne, Option.mem_def, Option.some.injEq] at hc
  simpa [hc] using hlast

theorem trim_isInfix (t : Text) : trim t <:+: t :=
  (trimEnd_isPrefix _).isInfix.trans (List.dropWhile_suffix isBlank).isInfix

theorem trim_cons_blank {c : Char} (hc : isBlank c = true) (t : Text) : trim (c :: t) = trim t := by
  simp [trim, trimStart, hc]

theorem trim_concat_blank {c : Char} (hc : isBlank c = true) (t : Text) :
    trim (t ++ [c]) = trim t := by
  rw [trim, trimStart, List.dropWhile_append]
  split
  · rename_i hnil
    rw [List.isEmpty_iff] at hnil
    simp [trim, trimStart, hnil, hc]
  · rw [trimEnd_concat, if_pos hc]
    rfl

structure Tight (t : Text) : Prop where
  head : ∀ c ∈ t.head?, isBlank c = false
  last : ∀ c ∈ t.getLast?, isBlank c = false

theorem tight_trim (t : Text) : Tight (trim t) where
  head c hc := by
    have hstart : ∀ d ∈ (trimStart t).head?, isBlank d = false := by
      intro d hd
      have hnot := List.head?_dropWhile_not isBlank t
      rw [trimStart] at hd
      rw [Option.mem_def.mp hd] at hnot
      simpa using hnot
    obtain ⟨u, hu⟩ := trimEnd_isPrefix (trimStart t)
    have hc' : (trimEnd (trimStart t)).head? = some c := hc
    rw [← hu, List.head?_append, hc'] at hstart
    exact hstart c rfl
  last := last_trimEnd _

end Text
end ChunkTree

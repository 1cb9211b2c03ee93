import ChunkTree.Text.Flat

namespace ChunkTree
namespace Text

theorem flattenAfter_return {t : Text} (h : t.head? = some '\n') (spaced : Bool) :
    flattenAfter spaced ('\r' :: t) = flattenAfter spaced t := by
  rw [flattenAfter, if_pos ⟨rfl, h⟩]

theorem flattenAfter_blank {c : Char} (h : c = ' ' ∨ c = '\n') (spaced : Bool) (t : Text) :
    flattenAfter spaced (c :: t) =
      if spaced then flattenAfter true t else ' ' :: flattenAfter true t := by
  have hr : ¬ (c = '\r' ∧ t.head? = some '\n') := by
    rintro ⟨rfl, -⟩
    revert h
    decide
  rw [flattenAfter, if_neg hr, if_pos h]

theorem flattenAfter_other {c : Char} {t : Text} (hr : ¬ (c = '\r' ∧ t.head? = some '\n'))
    (h : ¬ (c = ' ' ∨ c = '\n')) (spaced : Bool) :
    flattenAfter spaced (c :: t) = c :: flattenAfter false t := by
  rw [flattenAfter, if_neg hr, if_neg h]

theorem newline_not_mem_flattenAfter (spaced : Bool) (t : Text) :
    '\n' ∉ flattenAfter spaced t := by
  induction t generalizing spaced with
  | nil => simp [flattenAfter]
  | cons c t ih =>
    rw [flattenAfter]
    split
    · exact ih spaced
    · split
      · split
        · exact ih true
        · simp [ih true]
      · rename_i hc
        simp only [not_or] at hc
        simp [ih false, Ne.symm hc.2]

theorem flattenAfter_flattenAfter (spaced : Bool) (t : Text) :
    flattenAfter spaced (flattenAfter spaced t) = flattenAfter spaced t := by
  induction t generalizing spaced with
  | nil => rfl
  | cons c t ih =>
    by_cases hr : c = '\r' ∧ t.head? = some '\n'
    · obtain ⟨rfl, ht⟩ := hr
      rw [flattenAfter_return ht, ih]
    · by_cases hc : c = ' ' ∨ c = '\n'
      · rw [flattenAfter_blank hc]
        cases spaced with
        | true => exact ih true
        | false => simp [flattenAfter_blank, ih true]
      · rw [flattenAfter_other hr hc]
        have hhead : ¬ (c = '\r' ∧ (flattenAfter false t).head? = some '\n') := fun h =>
          newline_not_mem_flattenAfter false t (List.mem_of_mem_head? h.2)
        rw [flattenAfter_other hhead hc, ih]

theorem flatten_flatten (t : Text) : flatten (flatten t) = flatten t :=
  flattenAfter_flattenAfter false t

def spacedAfter (spaced : Bool) : Text → Bool
  | [] => spaced
  | c :: t =>
    if c = '\r' ∧ t.head? = some '\n' then spacedAfter spaced t
    else spacedAfter (c = ' ' ∨ c = '\n') t

theorem flattenAfter_append {s t : Text} (h : ¬ (s.getLast? = some '\r' ∧ t.head? = some '\n'))
    (spaced : Bool) :
    flattenAfter spaced (s ++ t) =
      flattenAfter spaced s ++ flattenAfter (spacedAfter spaced s) t := by
  induction s generalizing spaced with
  | nil => rfl
  | cons c s ih =>
    have hs : ¬ (s.getLast? = some '\r' ∧ t.head? = some '\n') := by
      rintro ⟨hlast, hhead⟩
      exact h ⟨by simp [List.getLast?_cons, hlast], hhead⟩
    have hbreak : c = '\r' ∧ (s ++ t).head? = some '\n' ↔ c = '\r' ∧ s.head? = some '\n' := by
      cases s with
      | nil =>
        simp only [List.nil_append, List.head?_nil, reduceCtorEq, and_false, iff_false]
        rintro ⟨rfl, hhead⟩
        exact h ⟨rfl, hhead⟩
      | cons d s => rfl
    rw [List.cons_append, flattenAfter, spacedAfter, flattenAfter]
    simp only [hbreak]
    split
    · exact ih hs spaced
    · split
      · rename_i hblank
        cases spaced <;> simp [ih hs, hblank]
      · rename_i hblank
        simp [ih hs, hblank]

end Text
end ChunkTree

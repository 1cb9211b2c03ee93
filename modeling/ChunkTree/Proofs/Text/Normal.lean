import ChunkTree.Proofs.Text.Flat

/-!
The one-line form as a normal form. It is what line breaks turned into spaces and runs of spaces
collapsed come to one after the other, and the parts of a text can be brought into it beforehand, as
long as no line break stands on the seam between them.
-/

namespace ChunkTree
namespace Text

def dropSpaces (t : Text) : Text := t.dropWhile (· = ' ')

theorem dropSpaces_space (t : Text) : dropSpaces (' ' :: t) = dropSpaces t := by
  rw [dropSpaces, List.dropWhile_cons_of_pos (by decide), dropSpaces]

theorem dropSpaces_other {c : Char} (h : c ≠ ' ') (t : Text) : dropSpaces (c :: t) = c :: t := by
  rw [dropSpaces, List.dropWhile_cons_of_neg (by simpa using h)]

theorem collapseSpaces_other {c : Char} (h : c ≠ ' ') (t : Text) :
    collapseSpaces (c :: t) = c :: collapseSpaces t := by
  rw [collapseSpaces, if_neg (fun hspace => h hspace.1)]

theorem collapseSpaces_space (t : Text) :
    collapseSpaces (' ' :: t) = ' ' :: collapseSpaces (dropSpaces t) := by
  induction t with
  | nil => rfl
  | cons c t ih =>
    by_cases hc : c = ' '
    · subst hc
      rw [collapseSpaces, if_pos ⟨rfl, rfl⟩, ih, dropSpaces_space]
    · rw [collapseSpaces, if_neg (by simpa using hc), dropSpaces_other hc]

theorem flattenAfter_eq_collapseSpaces (spaced : Bool) (t : Text) :
    flattenAfter spaced t =
      collapseSpaces (if spaced then dropSpaces (breaksToSpaces t) else breaksToSpaces t) := by
  induction t generalizing spaced with
  | nil => cases spaced <;> rfl
  | cons c t ih =>
    by_cases hr : c = '\r' ∧ t.head? = some '\n'
    · rw [breaksToSpaces, if_pos hr, hr.1, flattenAfter_return hr.2, ih]
    · by_cases hc : c = ' ' ∨ c = '\n'
      · have hspace : breaksToSpaces (c :: t) = ' ' :: breaksToSpaces t := by
          rw [breaksToSpaces, if_neg hr]
          rcases hc with rfl | rfl <;> rfl
        have hrun := ih true
        rw [if_pos rfl] at hrun
        rw [flattenAfter_blank hc, hspace, hrun]
        cases spaced with
        | true => rw [if_pos rfl, if_pos rfl, dropSpaces_space]
        | false => rw [if_neg (by decide), if_neg (by decide), collapseSpaces_space]
      · obtain ⟨hspace, hline⟩ := not_or.mp hc
        have hkept : breaksToSpaces (c :: t) = c :: breaksToSpaces t := by
          rw [breaksToSpaces, if_neg hr, if_neg hline]
        rw [flattenAfter_other hr hc, hkept, dropSpaces_other hspace, ite_self,
          collapseSpaces_other hspace, ih false, if_neg (by decide)]

theorem flattenAfter_flatten (spaced : Bool) (t : Text) :
    flattenAfter spaced (flatten t) = flattenAfter spaced t := by
  cases spaced with
  | false => exact flatten_flatten t
  | true =>
    rw [flatten]
    induction t with
    | nil => rfl
    | cons c t ih =>
      by_cases hr : c = '\r' ∧ t.head? = some '\n'
      · rw [hr.1, flattenAfter_return hr.2, flattenAfter_return hr.2, ih]
      · by_cases hc : c = ' ' ∨ c = '\n'
        · rw [flattenAfter_blank hc, flattenAfter_blank hc, if_neg (by decide), if_pos rfl,
            flattenAfter_blank (.inl rfl), if_pos rfl, flattenAfter_flattenAfter]
        · have hhead : ¬ (c = '\r' ∧ (flattenAfter false t).head? = some '\n') := fun h =>
            newline_not_mem_flattenAfter false t (List.mem_of_mem_head? h.2)
          rw [flattenAfter_other hr hc, flattenAfter_other hr hc, flattenAfter_other hhead hc,
            flattenAfter_flattenAfter]

theorem spacedAfter_flattenAfter (spaced : Bool) (t : Text) :
    spacedAfter spaced (flattenAfter spaced t) = spacedAfter spaced t := by
  induction t generalizing spaced with
  | nil => rfl
  | cons c t ih =>
    rw [flattenAfter, spacedAfter]
    split
    · exact ih spaced
    · rename_i hr
      split
      · rename_i hc
        rw [decide_eq_true hc]
        cases spaced with
        | true => exact ih true
        | false => exact ih true
      · rename_i hc
        have hhead : ¬ (c = '\r' ∧ (flattenAfter false t).head? = some '\n') := fun h =>
          newline_not_mem_flattenAfter false t (List.mem_of_mem_head? h.2)
        rw [spacedAfter, if_neg hhead, decide_eq_false hc, ih false]

theorem flatten_append {s t : Text} (h : ¬ (s.getLast? = some '\r' ∧ t.head? = some '\n')) :
    flatten (s ++ t) = flatten (flatten s ++ flatten t) := by
  have hseam : ¬ ((flatten s).getLast? = some '\r' ∧ (flatten t).head? = some '\n') := fun hbreak =>
    newline_not_mem_flattenAfter false t (List.mem_of_mem_head? hbreak.2)
  calc flatten (s ++ t)
      = flatten s ++ flattenAfter (spacedAfter false s) t := flattenAfter_append h false
    _ = flatten (flatten s) ++ flattenAfter (spacedAfter false (flatten s)) (flatten t) := by
        rw [flatten_flatten, flattenAfter_flatten, flatten, spacedAfter_flattenAfter]
    _ = flatten (flatten s ++ flatten t) := (flattenAfter_append hseam false).symm

/-- A carriage return that a line feed takes along is kept by the two texts apart. -/
theorem length_flatten_seam (s t : Text) :
    (flatten (s ++ ['\r'] ++ '\n' :: t)).length <
      (flatten (flatten (s ++ ['\r']) ++ flatten ('\n' :: t))).length := by
  have hwhole : flatten (s ++ ['\r'] ++ '\n' :: t) =
      flatten s ++ flattenAfter (spacedAfter false s) ('\n' :: t) := by
    rw [List.append_assoc, flatten, flattenAfter_append (by simp), List.singleton_append,
      flattenAfter_return rfl]
    rfl
  have hfirst : flatten (s ++ ['\r']) = flatten s ++ ['\r'] := by
    rw [flatten, flattenAfter_append (by simp)]
    rfl
  have hsecond : flatten ('\n' :: t) = ' ' :: flattenAfter true t := flattenAfter_blank (.inr rfl) false t
  have hapart : flatten (flatten (s ++ ['\r']) ++ flatten ('\n' :: t)) =
      flatten s ++ '\r' :: ' ' :: flattenAfter true t := by
    rw [hfirst, hsecond, List.append_assoc, flatten, flattenAfter_append (by simp),
      List.singleton_append, flattenAfter_other (by simp) (by decide),
      flattenAfter_blank (.inl rfl), if_neg (by decide), flattenAfter_flattenAfter]
    exact congrArg (· ++ _) (flatten_flatten s)
  rw [hwhole, hapart, flattenAfter_blank (.inr rfl)]
  split
  · simp only [List.length_append, List.length_cons]
    omega
  · simp

theorem flatten_by_passes (s t : Text) :
    flatten t = collapseSpaces (breaksToSpaces t) ∧
    flatten (flatten t) = flatten t ∧
    (flatten (s ++ t) = flatten (flatten s ++ flatten t) ↔
      ¬ (s.getLast? = some '\r' ∧ t.head? = some '\n')) := by
  refine ⟨flattenAfter_eq_collapseSpaces false t, flatten_flatten t, ?_, flatten_append⟩
  rintro hsame ⟨hlast, hhead⟩
  obtain ⟨s', rfl⟩ := List.getLast?_eq_some_iff.mp hlast
  obtain ⟨t', rfl⟩ := List.head?_eq_some_iff.mp hhead
  have hlength := length_flatten_seam s' t'
  rw [hsame] at hlength
  exact Nat.lt_irrefl _ hlength

end Text
end ChunkTree

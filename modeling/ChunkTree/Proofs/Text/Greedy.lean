import ChunkTree.Proofs.Text.Markers
import ChunkTree.Proofs.Text.Order

/-!
Occurrences taken from the left. A marker may overlap itself and may stand anywhere in a text; taking
its occurrences from the left still finds as many as can be chosen apart from each other, and fillings
that are no more than these are all used.
-/

namespace ChunkTree
namespace Text

variable {p t gap rest : Text}

theorem piecesAfter_of_firstCut (hp : p ≠ []) (h : firstCut p t = some (gap, rest)) :
    piecesAfter p 0 t = gap :: piecesAfter p 0 rest := by
  induction t generalizing gap with
  | nil => simp [firstCut] at h
  | cons c t ih =>
    rw [firstCut] at h
    split at h
    · rename_i hpre
      simp only [Option.some.injEq, Prod.mk.injEq] at h
      obtain ⟨rfl, rfl⟩ := h
      have hsplit := List.prefix_iff_eq_append.mp (List.isPrefixOf_iff_prefix.mp hpre)
      rw [← piecesAfter_self hp, hsplit]
    · rename_i hpre
      obtain ⟨⟨before, after⟩, hcut, he⟩ := Option.map_eq_some_iff.mp h
      simp only [Prod.mk.injEq] at he
      obtain ⟨rfl, rfl⟩ := he
      rw [List.isPrefixOf_iff_prefix] at hpre
      exact piecesAfter_cons hpre (ih hcut)

theorem pieces_of_cutAt? (h : cutAt? p t = some (gap, rest)) :
    pieces p t = gap :: pieces p rest := by
  rw [cutAt?] at h
  split at h
  · simp at h
  · rename_i hp
    have hp : p ≠ [] := by simpa using hp
    rw [pieces_eq hp, pieces_eq hp, piecesAfter_of_firstCut hp h]

theorem free_of_cutAt?_none (hp : p ≠ []) (h : cutAt? p t = none) : ¬ p <:+: t := by
  rintro ⟨before, after, ht⟩
  have hend : p ++ after <:+ t := ⟨before, by rw [← ht, List.append_assoc]⟩
  obtain ⟨gap, rest, hcut, -⟩ := cutAt?_of_suffix hp hend
  rw [h] at hcut
  cases hcut

theorem occurrences_of_cutAt? (h : cutAt? p t = some (gap, rest)) :
    occurrences p t = occurrences p rest + 1 := by
  have hpos := List.length_pos_iff.mpr (pieces_ne_nil p rest)
  rw [occurrences, occurrences, pieces_of_cutAt? h, List.length_cons]
  omega

theorem exists_cutAt?_of_occurrences (hp : p ≠ []) {n : Nat} (h : n + 1 ≤ occurrences p t) :
    ∃ gap rest, cutAt? p t = some (gap, rest) ∧ n ≤ occurrences p rest := by
  cases hcut : cutAt? p t with
  | none =>
    rw [occurrences_free (free_of_cutAt?_none hp hcut)] at h
    omega
  | some r =>
    rw [occurrences_of_cutAt? hcut] at h
    exact ⟨r.1, r.2, rfl, by omega⟩

/-- No choice of occurrences that stand apart from each other has more of them than the one made from
the left. -/
theorem le_occurrences_iff (hp : p ≠ []) {n : Nat} :
    n ≤ occurrences p t ↔ InOrder (List.replicate n p) t [] := by
  induction n generalizing t with
  | zero => exact ⟨fun _ => List.nil_suffix, fun _ => Nat.zero_le _⟩
  | succ n ih =>
    rw [List.replicate_succ]
    constructor
    · intro h
      obtain ⟨gap, rest, hcut, hrest⟩ := exists_cutAt?_of_occurrences hp h
      refine ⟨rest, ⟨gap, ?_⟩, ih.mp hrest⟩
      rw [cutAt?_eq_append hcut, List.append_assoc]
    · rintro ⟨u, hu, hmore⟩
      -- the first occurrence begins no later than the chosen one, so the others lie behind it
      obtain ⟨gap, rest, hcut, hrest⟩ := cutAt?_of_suffix hp hu
      rw [occurrences_of_cutAt? hcut]
      exact Nat.succ_le_succ (ih.mpr (hmore.mono hrest))

theorem refill_cons_nil {ps : List Text} (hne : ps ≠ []) (p piece : Text) :
    refill p (piece :: ps) [] = piece ++ p ++ refill p ps [] := by
  cases ps with
  | nil => exact absurd rfl hne
  | cons next ps => rfl

theorem refill_pieces_nil (hp : p ≠ []) (t : Text) : refill p (pieces p t) [] = t := by
  induction hn : t.length using Nat.strongRecOn generalizing t with
  | _ n ih =>
    cases hcut : cutAt? p t with
    | none => exact refill_free (free_of_cutAt?_none hp hcut) []
    | some r =>
      obtain ⟨gap, rest⟩ := r
      have ht := cutAt?_eq_append hcut
      have hpos := List.length_pos_iff.mpr hp
      have hshort : rest.length < n := by
        rw [← hn, ht]
        simp only [List.length_append]
        omega
      rw [pieces_of_cutAt? hcut, refill_cons_nil (pieces_ne_nil p rest), ih _ hshort rest rfl, ← ht]

/-- Fillings that are no more than the occurrences stand, each in the place of one of these, between
the parts of the text that lie before them. -/
theorem refill_pieces (hp : p ≠ []) {fillings : List Text} (h : fillings.length ≤ occurrences p t) :
    ∃ gaps rest, gaps.length = fillings.length ∧ t = gaps.flatMap (· ++ p) ++ rest ∧
      refill p (pieces p t) fillings = (List.zipWith (· ++ ·) gaps fillings).flatten ++ rest := by
  induction fillings generalizing t with
  | nil => exact ⟨[], t, rfl, rfl, refill_pieces_nil hp t⟩
  | cons filling fillings ih =>
    obtain ⟨gap, behind, hcut, hbehind⟩ := exists_cutAt?_of_occurrences hp h
    obtain ⟨gaps, rest, hlength, htext, hrefill⟩ := ih hbehind
    refine ⟨gap :: gaps, rest, by simpa using hlength, ?_, ?_⟩
    · rw [cutAt?_eq_append hcut, htext, List.flatMap_cons]
      simp only [List.append_assoc]
    · rw [pieces_of_cutAt? hcut, refill_cons (pieces_ne_nil p behind), hrefill]
      simp

end Text
end ChunkTree

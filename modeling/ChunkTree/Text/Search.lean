import ChunkTree.Text.Basic

/-!
Literal search. A needle is never read as a pattern, and the empty needle is found nowhere.
-/

namespace ChunkTree
namespace Text

def firstCut (needle : Text) : Text → Option (Text × Text)
  | [] => none
  | c :: t =>
    if needle.isPrefixOf (c :: t) then some ([], (c :: t).drop needle.length)
    else (firstCut needle t).map (fun (before, after) => (c :: before, after))

def cutAt? (needle t : Text) : Option (Text × Text) :=
  if needle.isEmpty then none else firstCut needle t

theorem firstCut_eq_append {needle t before after : Text}
    (h : firstCut needle t = some (before, after)) : t = before ++ needle ++ after := by
  induction t generalizing before after with
  | nil => simp [firstCut] at h
  | cons c t ih =>
    rw [firstCut] at h
    split at h
    · rename_i hp
      simp only [Option.some.injEq, Prod.mk.injEq] at h
      obtain ⟨rfl, rfl⟩ := h
      simpa using (List.prefix_iff_eq_append.mp (List.isPrefixOf_iff_prefix.mp hp)).symm
    · obtain ⟨⟨b, a⟩, hb, he⟩ := Option.map_eq_some_iff.mp h
      simp only [Prod.mk.injEq] at he
      obtain ⟨rfl, rfl⟩ := he
      simp [ih hb]

theorem cutAt?_eq_append {needle t before after : Text}
    (h : cutAt? needle t = some (before, after)) : t = before ++ needle ++ after := by
  rw [cutAt?] at h
  split at h
  · simp at h
  · exact firstCut_eq_append h

def locate? (haystack : Text) (start : Nat) (needle : Text) : Option Nat := do
  let (_, tail) ← splitAtByte? start haystack
  let (before, _) ← cutAt? needle tail
  return start + byteLength before

def replaceFirst (haystack needle replacement : Text) : Text :=
  match cutAt? needle haystack with
  | some (before, after) => before ++ replacement ++ after
  | none => haystack

/-- What stands between the occurrences of a marker, taken from the left and without overlap, when
the first `skip` characters belong to the occurrence before. -/
def piecesAfter (marker : Text) : Nat → Text → List Text
  | _, [] => [[]]
  | skip + 1, _ :: t => piecesAfter marker skip t
  | 0, c :: t =>
    if marker.isPrefixOf (c :: t) then [] :: piecesAfter marker (marker.length - 1) t
    else
      match piecesAfter marker 0 t with
      | [] => [[c]]
      | piece :: rest =>
        (c :: piece) :: rest

def pieces (marker t : Text) : List Text :=
  if marker.isEmpty then [t] else piecesAfter marker 0 t

theorem piecesAfter_ne_nil (marker : Text) (skip : Nat) (t : Text) :
    piecesAfter marker skip t ≠ [] := by
  induction t generalizing skip with
  | nil => simp [piecesAfter]
  | cons c t ih =>
    cases skip with
    | succ skip => simpa [piecesAfter] using ih skip
    | zero =>
      rw [piecesAfter]
      split
      · simp
      · split <;> simp

def occurrences (marker t : Text) : Nat := (pieces marker t).length - 1

/-- Pieces joined by the fillings while these last, and by the marker from there on. -/
def refill (marker : Text) : List Text → List Text → Text
  | [], _ => []
  | [piece], _ => piece
  | piece :: rest, filling :: fillings => piece ++ filling ++ refill marker rest fillings
  | piece :: rest, [] => piece ++ marker ++ refill marker rest []

end Text
end ChunkTree

import ChunkTree.Statement.Basic

/-!
Dissections. A dissection tells how the text of a statement was taken apart from left to right: which
stretches were cut out of it, what each of them was dissected into, and what was noted on the way.
-/

namespace ChunkTree

inductive Note where
  /-- The text of the statement is over the chunk budget, and its children are looked at. -/
  | opened (statement : Statement) (depth : Nat)
  /-- The same at the depth bound, where the children stay inline. -/
  | tooDeep (statement : Statement) (depth : Nat)
  | unhandled (statement : Statement)
  | notFound (statement : Statement)

/-- A note, or a stretch cut out after `gap` characters that were passed over. -/
inductive Step (δ : Type) where
  | note (note : Note)
  | cut (gap stretch : Text) (part : δ)

namespace Step

def uncut {δ : Type} : Step δ → Text
  | note _ => []
  | cut gap stretch _ => gap ++ stretch

def replaced {δ : Type} (placeholder : Text) : Step δ → Text
  | note _ => []
  | cut gap _ _ => gap ++ placeholder

def part? {δ : Type} : Step δ → Option δ
  | note _ => none
  | cut _ _ part => some part

end Step

/-- A text under dissection: the steps so far, and the part of it that lies after them. -/
structure Frame (δ : Type) where
  steps : List (Step δ)
  rest : Text

namespace Frame

def start {δ : Type} (t : Text) : Frame δ := ⟨[], t⟩

def addNote {δ : Type} (n : Note) (f : Frame δ) : Frame δ := { f with steps := f.steps ++ [.note n] }

def uncut {δ : Type} (f : Frame δ) : Text := f.steps.flatMap Step.uncut ++ f.rest

/-- The text with a placeholder for every stretch cut out. -/
def content {δ : Type} (placeholder : Text) (f : Frame δ) : Text :=
  f.steps.flatMap (Step.replaced placeholder) ++ f.rest

def parts {δ : Type} (f : Frame δ) : List δ := f.steps.filterMap Step.part?

def cursor {δ : Type} (placeholder : Text) (f : Frame δ) : Nat :=
  Text.byteLength (f.steps.flatMap (Step.replaced placeholder))

def markersFrom {δ : Type} (placeholder : Text) (offset : Nat) : List (Step δ) → List Nat
  | [] => []
  | .note _ :: rest => markersFrom placeholder offset rest
  | .cut gap _ _ :: rest =>
    let start := offset + Text.byteLength gap
    start :: markersFrom placeholder (start + Text.byteLength placeholder) rest

def markers {δ : Type} (placeholder : Text) (f : Frame δ) : List Nat :=
  markersFrom placeholder 0 f.steps

theorem uncut_addNote {δ : Type} (n : Note) (f : Frame δ) : (f.addNote n).uncut = f.uncut := by
  simp [addNote, uncut, Step.uncut]

theorem length_markersFrom {δ : Type} (placeholder : Text) (offset : Nat) (steps : List (Step δ)) :
    (markersFrom placeholder offset steps).length = (steps.filterMap Step.part?).length := by
  induction steps generalizing offset with
  | nil => rfl
  | cons s rest ih => cases s <;> simp [markersFrom, List.filterMap_cons, Step.part?, ih]

end Frame

structure Dissection where
  statement : Statement
  steps : List (Step Dissection)
  rest : Text

namespace Dissection

def frame (d : Dissection) : Frame Dissection := ⟨d.steps, d.rest⟩

end Dissection
end ChunkTree

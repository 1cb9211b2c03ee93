import ChunkTree.Json.Value

/-!
How records stand in JSON. A record is an object of named fields, where unknown fields are passed
over, or an array of its fields in order. A variant is a record with its tag in front.
-/

namespace ChunkTree
namespace Json

/-- Place of one field in a record: an object may lack the field, an array may end before it. -/
inductive Slot where
  | present (value : Json)
  | absent
  | beyond

def slotOf? (fields : List (Text × Json)) (name : Text) : Option Slot :=
  match fields.filter (fun f => f.1 == name) with
  | [] => some .absent
  | [f] => some (.present f.2)
  | _ => none

def itemSlots? (size : Nat) (items : List Json) : Option (List Slot) :=
  if size < items.length then none
  else some (items.map .present ++ List.replicate (size - items.length) .beyond)

def slots? (names : List String) : Json → Option (List Slot)
  | object fields => names.mapM (fun name => slotOf? fields name.toList)
  | array items => itemSlots? names.length items
  | _ => none

namespace Slot

def required? {α : Type} (read : Json → Option α) : Slot → Option α
  | present value => read value
  | _ => none

/-- A field with a default value may be missing, but not null. -/
def orElse? {α : Type} (fallback : α) (read : Json → Option α) : Slot → Option α
  | present value => read value
  | _ => some fallback

def nullable? {α : Type} (read : Json → Option α) (value : Json) : Option (Option α) :=
  if value.isNull then some none else (read value).map some

/-- An optional field may be null or missing in an object; an array has to hold it. -/
def optional? {α : Type} (read : Json → Option α) : Slot → Option (Option α)
  | present value => nullable? read value
  | absent => some none
  | beyond => none

/-- An optional field that may be left out of an array too. -/
def omissible? {α : Type} (read : Json → Option α) : Slot → Option (Option α)
  | present value => nullable? read value
  | _ => some none

end Slot

def listOf? {α : Type} (read : Json → Option α) : Json → Option (List α)
  | array items => items.mapM read
  | _ => none

def tagName : String := "type"

def tagField : Text := tagName.toList

/-- The choice that a tag stands for: by its name, or where `numbered` also by its position. -/
def choice? {τ : Type} (numbered : Bool) (choices : List (Text × τ)) : Json → Option τ
  | string t => (choices.find? (fun c => c.1 == t)).map Prod.snd
  | count n => if numbered then choices[n]?.map Prod.snd else none
  | _ => none

def variantParts? {τ : Type} (numbered : Bool) (choices : List (Text × τ)) :
    Json → Option (τ × Json)
  | object fields =>
    match fields.filter (fun f => f.1 == tagField) with
    | [tag] =>
      (choice? numbered choices tag.2).map
        (fun c => (c, object (fields.filter (fun f => f.1 != tagField))))
    | _ => none
  | array (tag :: items) => (choice? numbered choices tag).map (fun c => (c, array items))
  | _ => none

/-- Reads a variant. As its fields are told apart by its tag only when all are there, nothing in it may
be unreadable, not even in fields that are passed over; `inner` ones are parts of such a variant. -/
def variant? {τ : Type} (inner : Bool) (choices : List (Text × τ)) (j : Json) : Option (τ × Json) :=
  if inner || j.isReadable then variantParts? inner choices j else none

/-- A choice without fields: its name, or an object that gives null for the name. -/
def plainChoice? {τ : Type} (choices : List (Text × τ)) : Json → Option τ
  | string t => choice? false choices (string t)
  | object [(name, null)] => choice? false choices (string name)
  | _ => none

def record (fields : List (String × Json)) : Json :=
  object (fields.map (fun (name, value) => (name.toList, value)))

def orNull {α : Type} (write : α → Json) : Option α → Json
  | some value => write value
  | none => null

def ifPresent {α : Type} (name : String) (write : α → Json) : Option α → List (String × Json)
  | some value => [(name, write value)]
  | none => []

end Json
end ChunkTree

import ChunkTree.Text.Digits

/-!
Values of the JSON data format. Objects keep the order and the repetitions of their fields. A number
written without sign, fraction and exponent is a count if it is below `2 ^ 64`; any other number is
the double it was read as. What the grammar admits but no value stands for, such as a number beyond
all doubles, is unreadable: it may only be passed over.
-/

namespace ChunkTree

inductive Json where
  | null
  | bool (value : Bool)
  | count (n : Nat)
  | real (x : Float)
  | string (t : Text)
  | array (items : List Json)
  | object (fields : List (Text × Json))
  | unreadable

namespace Json

def countLimit : Nat := Text.wordLimit

def text? : Json → Option Text
  | string t => some t
  | _ => none

def count? : Json → Option Nat
  | count n => if n < countLimit then some n else none
  | _ => none

def double? : Json → Option Float
  | count n => some (UInt64.ofNat n).toFloat
  | real x => some x
  | _ => none

def isNull : Json → Bool
  | null => true
  | _ => false

mutual

def isReadable : Json → Bool
  | unreadable => false
  | array items => itemsReadable items
  | object fields => fieldsReadable fields
  | _ => true

def itemsReadable : List Json → Bool
  | [] => true
  | item :: rest => item.isReadable && itemsReadable rest

def fieldsReadable : List (Text × Json) → Bool
  | [] => true
  | (_, value) :: rest => value.isReadable && fieldsReadable rest

end

mutual

def height : Json → Nat
  | array items => itemsHeight items + 1
  | object fields => fieldsHeight fields + 1
  | _ => 0

def itemsHeight : List Json → Nat
  | [] => 0
  | item :: rest => max item.height (itemsHeight rest)

def fieldsHeight : List (Text × Json) → Nat
  | [] => 0
  | (_, value) :: rest => max value.height (fieldsHeight rest)

end

end Json
end ChunkTree

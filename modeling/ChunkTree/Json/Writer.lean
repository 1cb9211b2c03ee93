import ChunkTree.Json.Value
import ChunkTree.Decimal.Shortest

/-!
Writing JSON texts, on one line or with two spaces of indentation for each level. Null stands where
there is nothing to write.
-/

namespace ChunkTree

def pointAfter (n : Nat) (ds : Text) : Text := ds.take n ++ '.' :: ds.drop n

/-- A point is written out when the leading digit is of order `10 ^ -5` to `10 ^ 15`, and whole
numbers keep one place; other numbers have an exponent. -/
def Scientific.jsonText (s : Scientific) : Text :=
  let ds := Text.decimal s.coefficient
  let point : Int := Int.ofNat ds.length + s.exponent
  if 0 ≤ s.exponent ∧ point ≤ 16 then
    ds ++ List.replicate s.exponent.natAbs '0' ++ ['.', '0']
  else if 0 < point ∧ point ≤ 16 then pointAfter point.natAbs ds
  else if -5 < point ∧ point ≤ 0 then
    ['0', '.'] ++ List.replicate point.natAbs '0' ++ ds
  else
    let order := point - 1
    let sign : Text := if order < 0 then ['-'] else []
    (if ds.length = 1 then ds else pointAfter 1 ds) ++ 'e' :: sign ++ Text.decimal order.natAbs

/-- What is no finite number is written as null. -/
def Double.jsonText : Double → Text
  | .finite negative m => (if negative then ['-'] else []) ++ m.shortest.jsonText
  | _ => "null".toList

namespace Json

def escapedChar (c : Char) : Text :=
  if c = '"' then ['\\', '"']
  else if c = '\\' then ['\\', '\\']
  else if c = '\x08' then ['\\', 'b']
  else if c = '\x0c' then ['\\', 'f']
  else if c = '\n' then ['\\', 'n']
  else if c = '\r' then ['\\', 'r']
  else if c = '\t' then ['\\', 't']
  else if c.toNat < 0x10 then "\\u000".toList ++ Text.hexadecimal c.toNat
  else if c.toNat < 0x20 then "\\u00".toList ++ Text.hexadecimal c.toNat
  else [c]

def stringText (t : Text) : Text := '"' :: t.flatMap escapedChar ++ ['"']

def boolText (b : Bool) : Text := if b then "true".toList else "false".toList

def realText (x : Float) : Text := (Double.ofBits x.toBits).jsonText

mutual

def line : Json → Text
  | null => "null".toList
  | bool b => boolText b
  | count n => Text.decimal n
  | real x => realText x
  | string t => stringText t
  | array items => '[' :: [','].intercalate (itemLines items) ++ [']']
  | object fields => '{' :: [','].intercalate (fieldLines fields) ++ ['}']
  | unreadable => "null".toList

def itemLines : List Json → List Text
  | [] => []
  | item :: rest => item.line :: itemLines rest

def fieldLines : List (Text × Json) → List Text
  | [] => []
  | (name, value) :: rest => (stringText name ++ ':' :: value.line) :: fieldLines rest

end

def newLine (level : Nat) : Text := '\n' :: List.replicate (2 * level) ' '

/-- Entries on lines of their own between brackets; no entries leave the brackets closed. -/
def bracketed (start stop : Char) (level : Nat) : List Text → Text
  | [] => [start, stop]
  | entries =>
    start :: newLine (level + 1) ++ (',' :: newLine (level + 1)).intercalate entries ++
      newLine level ++ [stop]

mutual

def pretty (level : Nat) : Json → Text
  | null => "null".toList
  | bool b => boolText b
  | count n => Text.decimal n
  | real x => realText x
  | string t => stringText t
  | array items => bracketed '[' ']' level (prettyItems (level + 1) items)
  | object fields => bracketed '{' '}' level (prettyFields (level + 1) fields)
  | unreadable => "null".toList

def prettyItems (level : Nat) : List Json → List Text
  | [] => []
  | item :: rest => item.pretty level :: prettyItems level rest

def prettyFields (level : Nat) : List (Text × Json) → List Text
  | [] => []
  | (name, value) :: rest =>
    (stringText name ++ ':' :: ' ' :: value.pretty level) :: prettyFields level rest

end

end Json
end ChunkTree

import ChunkTree.Toml.Table
import ChunkTree.Text.Digits

namespace ChunkTree
namespace Toml

/-- Digits after the first one. An underscore may stand between two digits. -/
def moreDigits? (isDigit : Char → Bool) : Text → Option (Text × Text)
  | [] => some ([], [])
  | ['_'] => none
  | '_' :: c :: t =>
    if isDigit c then (moreDigits? isDigit t).map (fun (ds, rest) => (c :: ds, rest)) else none
  | c :: t =>
    if isDigit c then (moreDigits? isDigit t).map (fun (ds, rest) => (c :: ds, rest))
    else some ([], c :: t)

def groupedDigits? (isDigit : Char → Bool) : Text → Option (Text × Text)
  | [] => none
  | c :: t =>
    if isDigit c then (moreDigits? isDigit t).map (fun (ds, rest) => (c :: ds, rest)) else none

def integerLimit : Nat := 0x8000000000000000

def boundedInteger? (negative : Bool) (n : Nat) : Option Toml :=
  if negative then if n ≤ integerLimit then some (integer (-Int.ofNat n)) else none
  else if n < integerLimit then some (integer (Int.ofNat n)) else none

def isOctalDigit (c : Char) : Bool := '0' ≤ c && c ≤ '7'

def isBinaryDigit (c : Char) : Bool := c = '0' || c = '1'

def readBased? (base : Nat) (isDigit : Char → Bool) (t : Text) : Option (Toml × Text) := do
  let (ds, rest) ← groupedDigits? isDigit t
  let n ← boundedInteger? false (Text.ofDigits base ds)
  return (n, rest)

def overflows (n : Nat) (exponent : Int) : Bool :=
  let order := Int.ofNat (Text.decimal n).length + exponent
  if n = 0 ∨ order ≤ 308 then false
  else if 310 ≤ order then true
  else
    let limit := Nat.pow 2 1024 - Nat.pow 2 970
    let power := Nat.pow 10 exponent.natAbs
    if exponent < 0 then limit * power ≤ n else limit ≤ n * power

/-- A positive number with a fraction or an exponent must not overflow. -/
def boundedFloat? (negative : Bool) (n : Nat) (exponent : Int) : Option Toml :=
  if !negative && overflows n exponent then none else some float

def readExponent? (t : Text) : Option (Int × Text) := do
  let (negative, t) :=
    match t with
    | '+' :: t => (false, t)
    | '-' :: t => (true, t)
    | t => (false, t)
  let (ds, rest) ← groupedDigits? Text.isDigit t
  let e := Int.ofNat (Text.ofDigits 10 ds)
  return (if negative then -e else e, rest)

def isExponentMark (c : Char) : Bool := c = 'e' || c = 'E'

def readTail? (negative : Bool) (whole : Text) : Text → Option (Toml × Text)
  | '.' :: t => do
    let (places, t) ← groupedDigits? Text.isDigit t
    let (e, t) ←
      match t with
      | c :: t => if isExponentMark c then readExponent? t else some (0, c :: t)
      | [] => some (0, [])
    let x ← boundedFloat? negative (Text.ofDigits 10 (whole ++ places)) (e - Int.ofNat places.length)
    return (x, t)
  | c :: t => do
    if isExponentMark c then
      let (e, t) ← readExponent? t
      let x ← boundedFloat? negative (Text.ofDigits 10 whole) e
      return (x, t)
    else
      let n ← boundedInteger? negative (Text.ofDigits 10 whole)
      return (n, c :: t)
  | [] => do
    let n ← boundedInteger? negative (Text.ofDigits 10 whole)
    return (n, [])

def readDecimal? (negative : Bool) : Text → Option (Toml × Text)
  | 'i' :: 'n' :: 'f' :: t => some (float, t)
  | 'n' :: 'a' :: 'n' :: t => some (float, t)
  | '0' :: t => readTail? negative ['0'] t
  | t => do
    let (whole, t) ← groupedDigits? Text.isDigit t
    readTail? negative whole t

def readNumber? : Text → Option (Toml × Text)
  | '0' :: 'x' :: t => readBased? 16 Text.isHexDigit t
  | '0' :: 'o' :: t => readBased? 8 isOctalDigit t
  | '0' :: 'b' :: t => readBased? 2 isBinaryDigit t
  | '+' :: t => readDecimal? false t
  | '-' :: t => readDecimal? true t
  | t => readDecimal? false t

def readField? (size : Nat) (t : Text) : Option (Nat × Text) :=
  let ds := t.take size
  if ds.length = size ∧ ds.all Text.isDigit then some (Text.ofDigits 10 ds, t.drop size) else none

def readMark? (mark : Char) : Text → Option Text
  | c :: t => if c = mark then some t else none
  | [] => none

def isLeapYear (year : Nat) : Bool := year % 4 = 0 && (year % 100 ≠ 0 || year % 400 = 0)

def daysInMonth (year month : Nat) : Nat :=
  if month = 2 then if isLeapYear year then 29 else 28
  else if month = 4 ∨ month = 6 ∨ month = 9 ∨ month = 11 then 30
  else 31

def readDate? (t : Text) : Option Text := do
  let (year, t) ← readField? 4 t
  let t ← readMark? '-' t
  let (month, t) ← readField? 2 t
  let t ← readMark? '-' t
  let (day, t) ← readField? 2 t
  if 1 ≤ month ∧ month ≤ 12 ∧ 1 ≤ day ∧ day ≤ daysInMonth year month then some t else none

def skipSecondFraction : Text → Text
  | '.' :: c :: t => if Text.isDigit c then t.dropWhile Text.isDigit else '.' :: c :: t
  | t => t

/-- A minute may have a leap second. -/
def readTime? (t : Text) : Option Text := do
  let (hour, t) ← readField? 2 t
  let t ← readMark? ':' t
  let (minute, t) ← readField? 2 t
  let t ← readMark? ':' t
  let (second, t) ← readField? 2 t
  if hour < 24 ∧ minute < 60 ∧ second ≤ 60 then some (skipSecondFraction t) else none

def readShift? (t : Text) : Option Text := do
  let (hour, t) ← readField? 2 t
  let t ← readMark? ':' t
  let (minute, t) ← readField? 2 t
  if hour < 24 ∧ minute < 60 then some t else none

def skipOffset? : Text → Option Text
  | c :: t =>
    if c = 'Z' ∨ c = 'z' then some t
    else if c = '+' ∨ c = '-' then readShift? t
    else some (c :: t)
  | [] => some []

def isTimeMark (c : Char) : Bool := c = 'T' || c = 't' || c = ' '

def readMoment? (t : Text) : Option (Toml × Text) :=
  match readDate? t with
  | some (c :: t) =>
    if isTimeMark c then
      match readTime? t with
      | some t => (skipOffset? t).map (fun t => (moment, t))
      | none => some (moment, c :: t)
    else some (moment, c :: t)
  | some [] => some (moment, [])
  | none => (readTime? t).map (fun t => (moment, t))

end Toml
end ChunkTree

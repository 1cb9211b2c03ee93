import ChunkTree.Json.Value
import ChunkTree.Text.Digits
import ChunkTree.Decimal.Double

/-!
Numbers of the JSON grammar and the doubles they are read as. The digits are gathered in 64 bits;
a digit that no longer fits only shifts the exponent, or counts for nothing behind the point. The
result is one product with, or one quotient by, a power of ten, each rounded once. A number beyond all
doubles is unreadable.
-/

namespace ChunkTree
namespace Json

/-- Gathers digits while the number stays below `2 ^ 64`; also tells how many it took. -/
def gather (n : Nat) : Text → Nat × Nat
  | [] => (n, 0)
  | c :: ds =>
    let next := 10 * n + Text.digitValue c
    if next < countLimit then
      let (total, taken) := gather next ds
      (total, taken + 1)
    else (n, 0)

def powerOfTen (e : Nat) : Float := Float.ofScientific 1 false e

/-- Largest power of ten below infinity. -/
def maxPower : Nat := 308

def scaleUp? (x : Float) (e : Nat) : Option Float :=
  if e ≤ maxPower then
    let product := x * powerOfTen e
    if product.isInf then none else some product
  else if x == 0 then some x
  else none

def scaleDown (x : Float) (e : Nat) : Float :=
  if e ≤ maxPower then x / powerOfTen e
  else if x == 0 then x
  else scaleDown (x / powerOfTen maxPower) (e - maxPower)
termination_by e
decreasing_by simp only [maxPower] at *; omega

def scale? (significand : Nat) (exponent : Int) : Option Float :=
  let x := doubleOfCount significand
  if exponent < 0 then some (scaleDown x exponent.natAbs) else scaleUp? x exponent.natAbs

/-- Largest exponent that is read; a larger one leaves zero or nothing. -/
def exponentLimit : Nat := 0x80000000

/-- Exponent part of a number: its sign (`true` for minus) and its digits. -/
def exponentPart? : Text → Option (Option (Bool × Text) × Text)
  | c :: t =>
    if c = 'e' ∨ c = 'E' then
      let (negative, t) :=
        match t with
        | '+' :: t => (false, t)
        | '-' :: t => (true, t)
        | t => (false, t)
      match Text.digits t with
      | ([], _) => none
      | (ds, t) => some (some (negative, ds), t)
    else some (none, c :: t)
  | [] => some (none, [])

def fractionPart? : Text → Option (Option Text × Text)
  | '.' :: t =>
    match Text.digits t with
    | ([], _) => none
    | (ds, t) => some (some ds, t)
  | t => some (none, t)

def wholePart? : Text → Option (Text × Text)
  | '0' :: t => some (['0'], t)
  | t =>
    match Text.digits t with
    | ([], _) => none
    | (ds, t) => some (ds, t)

def magnitude? (significand : Nat) (shift : Int) (exponent : Option (Bool × Text)) : Option Float :=
  match exponent with
  | none => scale? significand shift
  | some (negative, ds) =>
    let e := Text.ofDigits 10 ds
    if exponentLimit ≤ e then
      if negative ∨ significand = 0 then some 0 else none
    else if negative then scale? significand (shift - Int.ofNat e)
    else scale? significand (shift + Int.ofNat e)

def signed (negative : Bool) (x : Float) : Float := if negative then -x else x

def numberOf? (negative : Bool) (whole : Text) (fraction : Option Text)
    (exponent : Option (Bool × Text)) : Option Json :=
  let (n, taken) := gather 0 whole
  let dropped : Int := Int.ofNat (whole.length - taken)
  match fraction, exponent with
  | none, none =>
    if whole.length = taken then
      some (if negative then real (-(doubleOfCount n)) else count n)
    else (scale? n dropped).map (fun x => real (signed negative x))
  | _, _ =>
    let (m, places) := gather n (fraction.getD [])
    (magnitude? m (dropped - Int.ofNat places) exponent).map (fun x => real (signed negative x))

def readNumber? (t : Text) : Option (Json × Text) := do
  let (negative, t) :=
    match t with
    | '-' :: t => (true, t)
    | t => (false, t)
  let (whole, t) ← wholePart? t
  let (fraction, t) ← fractionPart? t
  let (exponent, t) ← exponentPart? t
  return ((numberOf? negative whole fraction exponent).getD unreadable, t)

end Json
end ChunkTree

import ChunkTree.Text.Basic

/-!
Doubles taken apart: a finite double is a sign and a number `m · 2 ^ e` with whole `m`.
-/

namespace ChunkTree

/-- The magnitude `significand · 2 ^ exponent` of a finite double. `gapHalved` holds when the next
smaller double is only half as far away as the next larger one. -/
structure Magnitude where
  significand : Nat
  exponent : Int
  gapHalved : Bool
deriving DecidableEq, Repr

inductive Double where
  | finite (negative : Bool) (magnitude : Magnitude)
  | infinite (negative : Bool)
  | notANumber
deriving DecidableEq, Repr

/-- Leading bit of a significand, which the format leaves out of all but the smallest numbers. -/
def hiddenBit : Nat := 0x10000000000000

/-- Reads the fields of the binary64 format: one sign bit, eleven exponent bits, 52 fraction bits. -/
def Double.ofBits (bits : UInt64) : Double :=
  let negative := bits.toNat / 0x8000000000000000 == 1
  let exponent : Nat := bits.toNat / hiddenBit % 2048
  let fraction : Nat := bits.toNat % hiddenBit
  if exponent = 2047 then
    if fraction = 0 then .infinite negative else .notANumber
  else if exponent = 0 then .finite negative ⟨fraction, -1074, false⟩
  else
    let gapHalved := fraction == 0 && decide (1 < exponent)
    .finite negative ⟨hiddenBit + fraction, Int.ofNat exponent - 1075, gapHalved⟩

def doubleOfCount (n : Nat) : Float := (UInt64.ofNat n).toFloat

def scaled (n base : Nat) (exponent : Int) : Nat × Nat :=
  let power := Nat.pow base exponent.natAbs
  if exponent < 0 then (n, power) else (n * power, 1)

/-- Whole quotient nearest to a fraction; halfway between two, the even one. -/
def roundedQuotient (num den : Nat) : Nat :=
  let q := num / den
  let twice := 2 * (num % den)
  if twice < den then q
  else if den < twice then q + 1
  else if q % 2 = 0 then q else q + 1

end ChunkTree

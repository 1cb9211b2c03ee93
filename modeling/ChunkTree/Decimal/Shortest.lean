import ChunkTree.Decimal.Double

/-!
Shortest decimal form of a double: among the decimals with the fewest digits that read back as the
same double, the nearest to it.
-/

namespace ChunkTree

structure Scientific where
  coefficient : Nat
  exponent : Int
deriving DecidableEq, Repr

def digitCount (n : Nat) : Nat := (Nat.toDigits 10 n).length

/-- Whether `a · 10 ^ p` is at most (`strict`: below) the fraction `num / den`. -/
def gridBelow (strict : Bool) (a : Nat) (p : Int) (num den : Nat) : Bool :=
  let (x, y) := scaled a 10 p
  if strict then x * den < num * y else x * den ≤ num * y

/-- The reals that round to a positive double: quarters of its last place on both sides, with the
ends when the significand is even. -/
structure Interval where
  low : Nat × Nat
  mid : Nat × Nat
  high : Nat × Nat
  closed : Bool

def Magnitude.interval (m : Magnitude) : Interval :=
  let quarter := m.exponent - 2
  let below := if m.gapHalved then 1 else 2
  ⟨scaled (4 * m.significand - below) 2 quarter, scaled (4 * m.significand) 2 quarter,
   scaled (4 * m.significand + 2) 2 quarter, m.significand % 2 = 0⟩

def Interval.contains (i : Interval) (a : Nat) (p : Int) : Bool :=
  let aboveLow := !gridBelow i.closed a p i.low.1 i.low.2
  aboveLow && gridBelow (!i.closed) a p i.high.1 i.high.2

def leadingExponent (num den : Nat) : Int :=
  let guess : Int := (digitCount num : Int) - digitCount den
  if gridBelow false 1 guess num den then guess else guess - 1

/-- The point of the grid of multiples of `10 ^ p` that lies in the interval, the nearer of two. -/
def Interval.gridPoint? (i : Interval) (p : Int) : Option Scientific :=
  let (num, den) := i.mid
  let (x, y) := scaled 1 10 p
  let below := num * y / (den * x)
  let rest := num * y % (den * x)
  let above := below + 1
  match i.contains below p, i.contains above p with
  | true, true =>
    let nearer :=
      if 2 * rest < den * x then below
      else if den * x < 2 * rest then above
      else if below % 2 = 0 then below else above
    some ⟨nearer, p⟩
  | true, false => some ⟨below, p⟩
  | false, true => some ⟨above, p⟩
  | false, false => none

/-- Tries grids from coarse to fine, `steps` of them at most. -/
def Interval.coarsest (i : Interval) (p : Int) : Nat → Scientific
  | 0 => ⟨i.mid.1 / i.mid.2, 0⟩
  | steps + 1 =>
    match i.gridPoint? p with
    | some point => point
    | none => i.coarsest (p - 1) steps

def Scientific.stripZeros (s : Scientific) : Nat → Scientific
  | 0 => s
  | fuel + 1 =>
    if s.coefficient ≠ 0 ∧ s.coefficient % 10 = 0 then
      stripZeros ⟨s.coefficient / 10, s.exponent + 1⟩ fuel
    else s

/-- Seventeen digits tell every double apart. -/
def Magnitude.shortest (m : Magnitude) : Scientific :=
  if m.significand = 0 then ⟨0, 0⟩
  else
    let i := m.interval
    (i.coarsest (leadingExponent i.mid.1 i.mid.2) 17).stripZeros 20

end ChunkTree

import ChunkTree.Text.Basic

namespace ChunkTree
namespace Text

def wordLimit : Nat := 0x10000000000000000

def isDigit (c : Char) : Bool := '0' ≤ c && c ≤ '9'

def hexDigit? (c : Char) : Option Nat :=
  if isDigit c then some (c.toNat - '0'.toNat)
  else if 'a' ≤ c ∧ c ≤ 'f' then some (c.toNat - 'a'.toNat + 10)
  else if 'A' ≤ c ∧ c ≤ 'F' then some (c.toNat - 'A'.toNat + 10)
  else none

def isHexDigit (c : Char) : Bool := (hexDigit? c).isSome

def digitValue (c : Char) : Nat := (hexDigit? c).getD 0

def ofDigits (base : Nat) (ds : Text) : Nat := ds.foldl (fun n c => base * n + digitValue c) 0

theorem ofDigits_append (base : Nat) (ds : Text) (c : Char) :
    ofDigits base (ds ++ [c]) = base * ofDigits base ds + digitValue c := by
  simp [ofDigits]

def digits (t : Text) : Text × Text := t.span isDigit

/-- The whole number below `limit` that a text of decimal digits spells. -/
def natural? (limit : Nat) (t : Text) : Option Nat :=
  if t.isEmpty || !t.all isDigit then none
  else
    let n := ofDigits 10 t
    if n < limit then some n else none

end Text
end ChunkTree

import ChunkTree.Decimal.Double

/-!
Doubles with two places: the exact value rounded to hundredths, a half to the even digit.
-/

namespace ChunkTree

def Magnitude.hundredths (m : Magnitude) : Nat :=
  let (num, den) := scaled m.significand 2 m.exponent
  roundedQuotient (100 * num) den

def hundredthsText (n : Nat) : Text :=
  Text.decimal (n / 100) ++ '.' :: Text.decimal (n % 100 / 10) ++ Text.decimal (n % 10)

def signText (negative : Bool) : Text := if negative then ['-'] else []

/-- The sign of a zero is written too. -/
def Double.fixedText : Double → Text
  | .finite negative m => signText negative ++ hundredthsText m.hundredths
  | .infinite negative => signText negative ++ "inf".toList
  | .notANumber => "NaN".toList

end ChunkTree

import ChunkTree.Text.Digits

/-!
Strings of the JSON grammar. Escapes spell characters by code units, where a surrogate counts only as
half of a pair; a string with one half alone keeps to the grammar, but has no text.
-/

namespace ChunkTree
namespace Json

def hexUnit? (ds : Text) : Option Nat :=
  if ds.all Text.isHexDigit then some (Text.ofDigits 16 ds) else none

def isHighSurrogate (n : Nat) : Bool := 0xD800 ≤ n && n < 0xDC00

def isLowSurrogate (n : Nat) : Bool := 0xDC00 ≤ n && n < 0xE000

def joinSurrogates (high low : Nat) : Char :=
  Char.ofNat (0x10000 + 1024 * (high - 0xD800) + (low - 0xDC00))

def simpleEscape? : Char → Option Char
  | '"' => some '"'
  | '\\' => some '\\'
  | '/' => some '/'
  | 'b' => some '\x08'
  | 'f' => some '\x0c'
  | 'n' => some '\n'
  | 'r' => some '\r'
  | 't' => some '\t'
  | _ => none

/-- Characters spelled so far, last one first, and the first half of a pair that lacks its second. -/
structure Spelling where
  spelled : List Char
  half : Option Nat

namespace Spelling

def start : Spelling := ⟨[], none⟩

def addChar? (c : Char) (s : Spelling) : Option Spelling :=
  match s.half with
  | none => some ⟨c :: s.spelled, none⟩
  | some _ => none

def addUnit? (n : Nat) (s : Spelling) : Option Spelling :=
  match s.half with
  | some high => if isLowSurrogate n then some ⟨joinSurrogates high n :: s.spelled, none⟩ else none
  | none =>
    if isHighSurrogate n then some ⟨s.spelled, some n⟩
    else if isLowSurrogate n then none
    else some ⟨Char.ofNat n :: s.spelled, none⟩

def text? (s : Spelling) : Option Text :=
  match s.half with
  | none => some s.spelled.reverse
  | some _ => none

end Spelling

/-- Goes on behind the opening quote of a string up to its closing quote. The spelling is lost at the
first unit that spells nothing. -/
def readStringAfter? (spelling : Option Spelling) : Text → Option (Option Text × Text)
  | [] => none
  | '\\' :: 'u' :: a :: b :: c :: d :: t =>
    match hexUnit? [a, b, c, d] with
    | some n => readStringAfter? (spelling.bind (Spelling.addUnit? n)) t
    | none => none
  | '\\' :: c :: t =>
    match simpleEscape? c with
    | some e => readStringAfter? (spelling.bind (Spelling.addChar? e)) t
    | none => none
  | c :: t =>
    if c = '"' then some (spelling.bind Spelling.text?, t)
    else if c = '\\' ∨ c.toNat < 0x20 then none
    else readStringAfter? (spelling.bind (Spelling.addChar? c)) t

def readString? (t : Text) : Option (Option Text × Text) := readStringAfter? (some .start) t

end Json
end ChunkTree

import ChunkTree.Toml.Table
import ChunkTree.Text.Digits

/-!
Strings of TOML: basic strings with escapes and literal strings without, each on one line or on
several. Control characters stand in none of them, except for tabs and, on several lines, line breaks.
-/

namespace ChunkTree
namespace Toml

def isSpace (c : Char) : Bool := c = ' ' || c = '\t'

/-- Characters that may stand in comments and, apart from delimiters, in strings. -/
def isPlain (c : Char) : Bool := c = '\t' || (0x20 ≤ c.toNat && c.toNat ≠ 0x7F)

def simpleEscape? : Char → Option Char
  | 'b' => some '\x08'
  | 't' => some '\t'
  | 'n' => some '\n'
  | 'f' => some '\x0c'
  | 'r' => some '\r'
  | '"' => some '"'
  | '\\' => some '\\'
  | _ => none

def numbered? (ds : Text) : Option Char :=
  let n := Text.ofDigits 16 ds
  if ds.all Text.isHexDigit && (n < 0xD800 || (0xE000 ≤ n && n < 0x110000)) then some (Char.ofNat n)
  else none

/-- The rest of a basic string on one line; `read` is what came before, in reverse. -/
def readBasic? (read : List Char) : Text → Option (Text × Text)
  | [] => none
  | '\\' :: 'u' :: a :: b :: c :: d :: t =>
    match numbered? [a, b, c, d] with
    | some x => readBasic? (x :: read) t
    | none => none
  | '\\' :: 'U' :: a :: b :: c :: d :: e :: f :: g :: h :: t =>
    match numbered? [a, b, c, d, e, f, g, h] with
    | some x => readBasic? (x :: read) t
    | none => none
  | '\\' :: c :: t =>
    match simpleEscape? c with
    | some x => readBasic? (x :: read) t
    | none => none
  | c :: t =>
    if c = '"' then some (read.reverse, t)
    else if c = '\\' ∨ ¬ isPlain c then none
    else readBasic? (c :: read) t

def readLiteral? (read : List Char) : Text → Option (Text × Text)
  | [] => none
  | c :: t =>
    if c = '\'' then some (read.reverse, t)
    else if isPlain c then readLiteral? (c :: read) t
    else none

/-- A backslash at the end of a line takes the break and all white space after it along: first the
break is awaited, then white space is skipped. -/
inductive Folding where
  | off
  | awaiting
  | skipping
deriving DecidableEq, Repr

/-- The rest of a basic string on several lines. Up to two quotes are part of it, also right before
the three that end it. -/
def readLongBasic? (read : List Char) (folding : Folding) : Text → Option (Text × Text)
  | [] => none
  | '"' :: '"' :: '"' :: t =>
    if folding = .awaiting then none
    else
      match t with
      | '"' :: '"' :: t => some (('"' :: '"' :: read).reverse, t)
      | '"' :: t => some (('"' :: read).reverse, t)
      | t => some (read.reverse, t)
  | '\\' :: 'u' :: a :: b :: c :: d :: t =>
    match numbered? [a, b, c, d] with
    | some x => if folding = .awaiting then none else readLongBasic? (x :: read) .off t
    | none => none
  | '\\' :: 'U' :: a :: b :: c :: d :: e :: f :: g :: h :: t =>
    match numbered? [a, b, c, d, e, f, g, h] with
    | some x => if folding = .awaiting then none else readLongBasic? (x :: read) .off t
    | none => none
  | '\\' :: c :: t =>
    if folding = .awaiting then none
    else if c = '\n' then readLongBasic? read .skipping t
    else if isSpace c then readLongBasic? read .awaiting t
    else if c = '\r' then
      if t.head? = some '\n' then readLongBasic? read .skipping t else none
    else
      match simpleEscape? c with
      | some x => readLongBasic? (x :: read) .off t
      | none => none
  | c :: t =>
    if c = '\r' then
      if t.head? = some '\n' then readLongBasic? read folding t else none
    else
      match folding with
      | .awaiting =>
        if c = '\n' then readLongBasic? read .skipping t
        else if isSpace c then readLongBasic? read .awaiting t
        else none
      | .skipping =>
        if c = '\n' ∨ isSpace c then readLongBasic? read .skipping t
        else if c ≠ '\\' ∧ isPlain c then readLongBasic? (c :: read) .off t
        else none
      | .off =>
        if c = '\n' ∨ (c ≠ '\\' ∧ isPlain c) then readLongBasic? (c :: read) .off t else none

def readLongLiteral? (read : List Char) : Text → Option (Text × Text)
  | [] => none
  | '\'' :: '\'' :: '\'' :: t =>
    match t with
    | '\'' :: '\'' :: t => some (('\'' :: '\'' :: read).reverse, t)
    | '\'' :: t => some (('\'' :: read).reverse, t)
    | t => some (read.reverse, t)
  | c :: t =>
    if c = '\r' then
      if t.head? = some '\n' then readLongLiteral? read t else none
    else if c = '\n' ∨ isPlain c then readLongLiteral? (c :: read) t
    else none

def dropFirstBreak : Text → Text
  | '\n' :: t => t
  | '\r' :: '\n' :: t => t
  | t => t

def readString? : Text → Option (Text × Text)
  | '"' :: '"' :: '"' :: t => readLongBasic? [] .off (dropFirstBreak t)
  | '"' :: t => readBasic? [] t
  | '\'' :: '\'' :: '\'' :: t => readLongLiteral? [] (dropFirstBreak t)
  | '\'' :: t => readLiteral? [] t
  | _ => none

end Toml
end ChunkTree

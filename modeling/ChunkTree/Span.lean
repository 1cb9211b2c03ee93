import ChunkTree.Text.Basic

/-!
Places in a source file. They only name where something was seen, and no split depends on them.
-/

namespace ChunkTree

structure Position where
  line : UInt64
  column : UInt64
deriving DecidableEq, Repr

structure Span where
  start : Position
  stop : Position
deriving DecidableEq, Repr

structure Location where
  source : Option Text
  span : Option Span
deriving DecidableEq, Repr

def Position.text (p : Position) : Text :=
  "(line ".toList ++ Text.decimal p.line.toNat ++ ",col ".toList ++
    Text.decimal p.column.toNat ++ [')']

def Span.text (s : Span) : Text := s.start.text ++ ['-'] ++ s.stop.text

def Location.text (l : Location) : Text :=
  let source := l.source.getD "<unknown>".toList
  match l.span with
  | some span => source ++ '\n' :: span.text
  | none => source

end ChunkTree

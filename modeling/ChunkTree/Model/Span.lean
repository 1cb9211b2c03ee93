import ChunkTree.Model.Record
import ChunkTree.Span

namespace ChunkTree

def Json.word? (j : Json) : Option UInt64 := j.count?.map UInt64.ofNat

namespace Position

def toJson (p : Position) : Json :=
  .record [("line", .count p.line.toNat), ("column", .count p.column.toNat)]

def ofJson? (j : Json) : Option Position := do
  let [line, column] ← j.slots? ["line", "column"] | none
  return ⟨← line.required? Json.word?, ← column.required? Json.word?⟩

end Position

namespace Span

def toJson (s : Span) : Json := .record [("begin", s.start.toJson), ("end", s.stop.toJson)]

def ofJson? (j : Json) : Option Span := do
  let [start, stop] ← j.slots? ["begin", "end"] | none
  return ⟨← start.required? Position.ofJson?, ← stop.required? Position.ofJson?⟩

end Span

namespace Location

def toJson (l : Location) : Json :=
  .record [("source", Json.orNull .string l.source), ("span", Json.orNull Span.toJson l.span)]

def ofJson? (j : Json) : Option Location := do
  let [source, span] ← j.slots? ["source", "span"] | none
  return ⟨← source.optional? Json.text?, ← span.optional? Span.ofJson?⟩

end Location
end ChunkTree

import ChunkTree.Model.Statement
import ChunkTree.Model.Chunk
import ChunkTree.Model.Stats

namespace ChunkTree

structure InputFile where
  path : Text
  units : List SourceUnit

structure UnitReport where
  name : Text
  signature : Text
  chunk : Chunk

structure FileReport where
  path : Text
  units : List UnitReport

structure Report where
  files : List FileReport
  summary : Summary

def InputFile.ofJson? (j : Json) : Option InputFile := do
  let [path, units] ← j.slots? ["path", "units"] | none
  return ⟨← path.required? Json.text?, ← units.orElse? [] (Json.listOf? SourceUnit.ofJson?)⟩

def UnitReport.toJson (r : UnitReport) : Json :=
  .record [("name", .string r.name), ("signature", .string r.signature), ("chunk", r.chunk.toJson)]

def FileReport.toJson (r : FileReport) : Json :=
  .record [("path", .string r.path), ("units", .array (r.units.map UnitReport.toJson))]

def Report.toJson (r : Report) : Json :=
  .record [("files", .array (r.files.map FileReport.toJson)), ("stats", r.summary.toJson)]

end ChunkTree

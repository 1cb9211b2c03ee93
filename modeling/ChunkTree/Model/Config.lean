import ChunkTree.Model.Record
import ChunkTree.Config.Error
import ChunkTree.Statement.Basic

namespace ChunkTree

namespace StructuralKind

def toJson (k : StructuralKind) : Json := .string k.name

def ofJson? : Json → Option StructuralKind := Json.plainChoice? (all.map (fun k => (k.name, k)))

end StructuralKind

namespace MetricKind

def toJson (m : MetricKind) : Json := .string m.name

def ofJson? : Json → Option MetricKind := Json.plainChoice? (all.map (fun m => (m.name, m)))

end MetricKind

namespace Truncation

def toJson (t : Truncation) : Json := .string t.name

def ofJson? : Json → Option Truncation := Json.plainChoice? (all.map (fun t => (t.name, t)))

end Truncation

namespace Config

def toJson (c : Config) : Json :=
  .record [("unit_budget", .count c.unitBudget), ("chunk_budget", .count c.chunkBudget),
    ("metric", c.metric.toJson), ("truncation", c.truncation.toJson),
    ("placeholder", .string c.placeholder), ("max_depth", .count c.maxDepth)]

def ofJson? (j : Json) : Option Config := do
  let [unitBudget, chunkBudget, metric, truncation, placeholder, maxDepth] ←
    j.slots? ["unit_budget", "chunk_budget", "metric", "truncation", "placeholder", "max_depth"]
    | none
  return ⟨← unitBudget.orElse? standard.unitBudget Json.count?,
    ← chunkBudget.orElse? standard.chunkBudget Json.count?,
    ← metric.orElse? standard.metric MetricKind.ofJson?,
    ← truncation.orElse? standard.truncation Truncation.ofJson?,
    ← placeholder.orElse? standard.placeholder Json.text?,
    ← maxDepth.orElse? standard.maxDepth Json.count?⟩

end Config
end ChunkTree

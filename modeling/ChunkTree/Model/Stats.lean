import ChunkTree.Model.Span
import ChunkTree.Stats.Summary

namespace ChunkTree

inductive DiagnosticTag where
  | truncated
  | unhandledKind
  | depthLimit
  | spanNotFound
  | failedInput
deriving DecidableEq, Repr

namespace DiagnosticTag

def name : DiagnosticTag → Text
  | truncated => "truncated".toList
  | unhandledKind => "unhandled_kind".toList
  | depthLimit => "depth_limit".toList
  | spanNotFound => "span_not_found".toList
  | failedInput => "failed_input".toList

def all : List DiagnosticTag := [truncated, unhandledKind, depthLimit, spanNotFound, failedInput]

def choices : List (Text × DiagnosticTag) := all.map (fun tag => (tag.name, tag))

end DiagnosticTag

namespace Diagnostic

def taggedRecord (tag : DiagnosticTag) (fields : List (String × Json)) : Json :=
  .record ((Json.tagName, .string tag.name) :: fields)

def toJson : Diagnostic → Json
  | truncated location full kept lost =>
    taggedRecord .truncated [("location", location.toJson), ("original", .string full),
      ("truncated", .string kept), ("lost", .count lost)]
  | unhandledKind location label =>
    taggedRecord .unhandledKind [("location", location.toJson), ("label", .string label)]
  | depthLimit location depth =>
    taggedRecord .depthLimit [("location", location.toJson), ("depth", .count depth)]
  | spanNotFound location label =>
    taggedRecord .spanNotFound [("location", location.toJson), ("label", .string label)]
  | failedInput source reason =>
    taggedRecord .failedInput [("source", .string source), ("reason", .string reason)]

def ofFields? (tag : DiagnosticTag) (j : Json) : Option Diagnostic :=
  match tag with
  | .truncated => do
    let [location, full, kept, lost] ←
      j.slots? ["location", "original", "truncated", "lost"] | none
    return .truncated (← location.required? Location.ofJson?) (← full.required? Json.text?)
      (← kept.required? Json.text?) (← lost.required? Json.count?)
  | .unhandledKind => do
    let [location, label] ← j.slots? ["location", "label"] | none
    return .unhandledKind (← location.required? Location.ofJson?) (← label.required? Json.text?)
  | .depthLimit => do
    let [location, depth] ← j.slots? ["location", "depth"] | none
    return .depthLimit (← location.required? Location.ofJson?) (← depth.required? Json.count?)
  | .spanNotFound => do
    let [location, label] ← j.slots? ["location", "label"] | none
    return .spanNotFound (← location.required? Location.ofJson?) (← label.required? Json.text?)
  | .failedInput => do
    let [source, reason] ← j.slots? ["source", "reason"] | none
    return .failedInput (← source.required? Json.text?) (← reason.required? Json.text?)

def ofJson? (j : Json) : Option Diagnostic := do
  let (tag, fields) ← j.variant? false DiagnosticTag.choices
  ofFields? tag fields

end Diagnostic

namespace Stats

def toJson (s : Stats) : Json :=
  .record [("chunks", .count s.chunks), ("truncated", .count s.truncated),
    ("truncated_length", .count s.truncatedLength), ("failed_inputs", .count s.failedInputs),
    ("diagnostics", .array (s.diagnostics.map Diagnostic.toJson))]

def ofJson? (j : Json) : Option Stats := do
  let [chunks, truncated, truncatedLength, failedInputs, diagnostics] ←
    j.slots? ["chunks", "truncated", "truncated_length", "failed_inputs", "diagnostics"] | none
  return ⟨← chunks.required? Json.count?, ← truncated.required? Json.count?,
    ← truncatedLength.required? Json.count?, ← failedInputs.required? Json.count?,
    ← diagnostics.required? (Json.listOf? Diagnostic.ofJson?)⟩

end Stats

namespace Summary

def toJsonWith (average : Float → Json) (s : Summary) : Json :=
  .record [("chunks", .count s.chunks), ("truncated", .count s.truncated),
    ("truncated_length", .count s.truncatedLength), ("failed_inputs", .count s.failedInputs),
    ("average_truncated_length", Json.orNull average s.averageTruncatedLength),
    ("diagnostics", .count s.diagnostics)]

def toJson (s : Summary) : Json := s.toJsonWith .real

def ofJson? (j : Json) : Option Summary := do
  let [chunks, truncated, truncatedLength, failedInputs, average, diagnostics] ←
    j.slots? ["chunks", "truncated", "truncated_length", "failed_inputs",
      "average_truncated_length", "diagnostics"] | none
  return ⟨← chunks.required? Json.count?, ← truncated.required? Json.count?,
    ← truncatedLength.required? Json.count?, ← failedInputs.required? Json.count?,
    ← average.optional? Json.double?, ← diagnostics.required? Json.count?⟩

end Summary
end ChunkTree

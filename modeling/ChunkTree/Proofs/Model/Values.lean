import ChunkTree.Model.Config
import ChunkTree.Model.Stats
import ChunkTree.Proofs.Model.Record

namespace ChunkTree

open Json (RoundTrips)

theorem Json.word?_count (w : UInt64) : (Json.count w.toNat).word? = some w := by
  rw [word?, count?_count w.toNat_lt, Option.map_some, UInt64.ofNat_toNat]

namespace Position

theorem ofJson?_toJson (p : Position) : ofJson? p.toJson = some p := by
  have hslots : p.toJson.slots? ["line", "column"] =
      some [.present (.count p.line.toNat), .present (.count p.column.toNat)] := rfl
  simp [ofJson?, hslots, Json.Slot.required?, Json.word?_count]

theorem isReadable_toJson (p : Position) : p.toJson.isReadable = true := by
  simp [toJson, Json.isReadable_record]

end Position

namespace Span

theorem ofJson?_toJson (s : Span) : ofJson? s.toJson = some s := by
  have hslots : s.toJson.slots? ["begin", "end"] =
      some [.present s.start.toJson, .present s.stop.toJson] := rfl
  simp [ofJson?, hslots, Json.Slot.required?, Position.ofJson?_toJson]

theorem isReadable_toJson (s : Span) : s.toJson.isReadable = true := by
  simp [toJson, Json.isReadable_record, Position.isReadable_toJson]

end Span

namespace Location

theorem ofJson?_toJson (l : Location) : ofJson? l.toJson = some l := by
  have hslots : l.toJson.slots? ["source", "span"] =
      some [.present (Json.orNull .string l.source), .present (Json.orNull Span.toJson l.span)] := rfl
  have hsource : Json.Slot.nullable? Json.text? (Json.orNull .string l.source) = some l.source :=
    Json.Slot.nullable?_orNull (fun _ _ => rfl) (fun _ _ => rfl)
  have hspan : Json.Slot.nullable? Span.ofJson? (Json.orNull Span.toJson l.span) = some l.span :=
    Json.Slot.nullable?_orNull (fun s _ => s.ofJson?_toJson) (fun _ _ => rfl)
  simp [ofJson?, hslots, Json.Slot.optional?, hsource, hspan]

theorem isReadable_toJson (l : Location) : l.toJson.isReadable = true := by
  have hsource : (Json.orNull .string l.source).isReadable = true :=
    Json.isReadable_orNull fun _ _ => rfl
  have hspan : (Json.orNull Span.toJson l.span).isReadable = true :=
    Json.isReadable_orNull fun s _ => s.isReadable_toJson
  simp [toJson, Json.isReadable_record, hsource, hspan]

end Location

theorem StructuralKind.ofJson?_toJson (k : StructuralKind) : ofJson? k.toJson = some k := by
  cases k <;> rfl

theorem MetricKind.ofJson?_toJson (m : MetricKind) : ofJson? m.toJson = some m := by
  cases m <;> rfl

theorem Truncation.ofJson?_toJson (t : Truncation) : ofJson? t.toJson = some t := by
  cases t <;> rfl

namespace Json.Slot

theorem lt_of_required? {slot : Slot} {n : Nat} (h : slot.required? count? = some n) :
    n < countLimit := by
  obtain ⟨j, hj⟩ := exists_of_required? h
  exact lt_of_count? hj

theorem lt_of_orElse? {slot : Slot} {fallback n : Nat} (hfallback : fallback < countLimit)
    (h : slot.orElse? fallback count? = some n) : n < countLimit := by
  rcases exists_of_orElse? h with rfl | ⟨j, hj⟩
  · exact hfallback
  · exact lt_of_count? hj

end Json.Slot

namespace Config

structure Fits (c : Config) : Prop where
  unitBudget : c.unitBudget < Json.countLimit
  chunkBudget : c.chunkBudget < Json.countLimit
  maxDepth : c.maxDepth < Json.countLimit

theorem ofJson?_toJson {c : Config} (h : c.Fits) : ofJson? c.toJson = some c := by
  have hslots : c.toJson.slots?
      ["unit_budget", "chunk_budget", "metric", "truncation", "placeholder", "max_depth"] =
      some [.present (.count c.unitBudget), .present (.count c.chunkBudget),
        .present c.metric.toJson, .present c.truncation.toJson, .present (.string c.placeholder),
        .present (.count c.maxDepth)] := rfl
  simp [ofJson?, hslots, Json.Slot.orElse?, Json.count?_count h.unitBudget,
    Json.count?_count h.chunkBudget, Json.count?_count h.maxDepth, MetricKind.ofJson?_toJson,
    Truncation.ofJson?_toJson, Json.text?]

theorem fits_of_ofJson? {j : Json} {c : Config} (h : ofJson? j = some c) : c.Fits := by
  rw [ofJson?] at h
  obtain ⟨slots, -, h⟩ := Option.bind_eq_some_iff.mp h
  split at h
  · obtain ⟨unit, hunit, h⟩ := Option.bind_eq_some_iff.mp h
    obtain ⟨chunk, hchunk, h⟩ := Option.bind_eq_some_iff.mp h
    obtain ⟨metric, -, h⟩ := Option.bind_eq_some_iff.mp h
    obtain ⟨truncation, -, h⟩ := Option.bind_eq_some_iff.mp h
    obtain ⟨placeholder, -, h⟩ := Option.bind_eq_some_iff.mp h
    obtain ⟨depth, hdepth, h⟩ := Option.bind_eq_some_iff.mp h
    cases h
    exact ⟨Json.Slot.lt_of_orElse? (by decide) hunit, Json.Slot.lt_of_orElse? (by decide) hchunk,
      Json.Slot.lt_of_orElse? (by decide) hdepth⟩
  · cases h

end Config

namespace Diagnostic

def Fits : Diagnostic → Prop
  | truncated _ _ _ lost => lost < Json.countLimit
  | depthLimit _ depth => depth < Json.countLimit
  | _ => True

def tag : Diagnostic → DiagnosticTag
  | truncated .. => .truncated
  | unhandledKind .. => .unhandledKind
  | depthLimit .. => .depthLimit
  | spanNotFound .. => .spanNotFound
  | failedInput .. => .failedInput

def fields : Diagnostic → List (String × Json)
  | truncated location full kept lost =>
    [("location", location.toJson), ("original", .string full), ("truncated", .string kept),
      ("lost", .count lost)]
  | unhandledKind location label => [("location", location.toJson), ("label", .string label)]
  | depthLimit location depth => [("location", location.toJson), ("depth", .count depth)]
  | spanNotFound location label => [("location", location.toJson), ("label", .string label)]
  | failedInput source reason => [("source", .string source), ("reason", .string reason)]

theorem toJson_eq (x : Diagnostic) : x.toJson = taggedRecord x.tag x.fields := by
  cases x <;> rfl

theorem ofFields?_fields {x : Diagnostic} (h : x.Fits) :
    ofFields? x.tag (.record x.fields) = some x := by
  cases x with
  | truncated location full kept lost =>
    have hslots : (Json.record (fields (.truncated location full kept lost))).slots?
        ["location", "original", "truncated", "lost"] =
        some [.present location.toJson, .present (.string full), .present (.string kept),
          .present (.count lost)] := rfl
    simp [tag, ofFields?, hslots, Json.Slot.required?, location.ofJson?_toJson, Json.text?,
      Json.count?_count h]
  | unhandledKind location label =>
    have hslots : (Json.record (fields (.unhandledKind location label))).slots?
        ["location", "label"] = some [.present location.toJson, .present (.string label)] := rfl
    simp [tag, ofFields?, hslots, Json.Slot.required?, location.ofJson?_toJson, Json.text?]
  | depthLimit location depth =>
    have hslots : (Json.record (fields (.depthLimit location depth))).slots?
        ["location", "depth"] = some [.present location.toJson, .present (.count depth)] := rfl
    simp [tag, ofFields?, hslots, Json.Slot.required?, location.ofJson?_toJson,
      Json.count?_count h]
  | spanNotFound location label =>
    have hslots : (Json.record (fields (.spanNotFound location label))).slots?
        ["location", "label"] = some [.present location.toJson, .present (.string label)] := rfl
    simp [tag, ofFields?, hslots, Json.Slot.required?, location.ofJson?_toJson, Json.text?]
  | failedInput source reason =>
    have hslots : (Json.record (fields (.failedInput source reason))).slots?
        ["source", "reason"] = some [.present (.string source), .present (.string reason)] := rfl
    simp [tag, ofFields?, hslots, Json.Slot.required?, Json.text?]

theorem isReadable_toJson (x : Diagnostic) : x.toJson.isReadable = true := by
  rw [toJson_eq, taggedRecord, Json.isReadable_record]
  cases x <;> simp [fields, Location.isReadable_toJson]

theorem choice?_name (tag : DiagnosticTag) :
    Json.choice? false DiagnosticTag.choices (.string tag.name) = some tag := by
  cases tag <;> rfl

theorem fields_ne_tagName (x : Diagnostic) : ∀ f ∈ x.fields, f.1 ≠ Json.tagName := by
  cases x <;> simp [fields, Json.tagName]

theorem ofJson?_toJson {x : Diagnostic} (h : x.Fits) : ofJson? x.toJson = some x := by
  have hparts : x.toJson.variant? false DiagnosticTag.choices = some (x.tag, .record x.fields) := by
    rw [Json.variant?_of_isReadable x.isReadable_toJson, toJson_eq, taggedRecord]
    exact Json.variantParts?_record (choice?_name x.tag) x.fields_ne_tagName
  rw [ofJson?, hparts]
  exact ofFields?_fields h

theorem fits_of_ofFields? {tag : DiagnosticTag} {j : Json} {x : Diagnostic}
    (h : ofFields? tag j = some x) : x.Fits := by
  cases tag with
  | truncated =>
    obtain ⟨slots, -, h⟩ := Option.bind_eq_some_iff.mp h
    split at h
    · obtain ⟨location, -, h⟩ := Option.bind_eq_some_iff.mp h
      obtain ⟨full, -, h⟩ := Option.bind_eq_some_iff.mp h
      obtain ⟨kept, -, h⟩ := Option.bind_eq_some_iff.mp h
      obtain ⟨lost, hlost, h⟩ := Option.bind_eq_some_iff.mp h
      cases h
      exact Json.Slot.lt_of_required? hlost
    · cases h
  | depthLimit =>
    obtain ⟨slots, -, h⟩ := Option.bind_eq_some_iff.mp h
    split at h
    · obtain ⟨location, -, h⟩ := Option.bind_eq_some_iff.mp h
      obtain ⟨depth, hdepth, h⟩ := Option.bind_eq_some_iff.mp h
      cases h
      exact Json.Slot.lt_of_required? hdepth
    · cases h
  | unhandledKind | spanNotFound | failedInput =>
    -- these hold no number
    obtain ⟨slots, -, h⟩ := Option.bind_eq_some_iff.mp h
    split at h
    · obtain ⟨first, -, h⟩ := Option.bind_eq_some_iff.mp h
      obtain ⟨second, -, h⟩ := Option.bind_eq_some_iff.mp h
      cases h
      trivial
    · cases h

theorem fits_of_ofJson? {j : Json} {x : Diagnostic} (h : ofJson? j = some x) : x.Fits := by
  obtain ⟨⟨tag, fields⟩, -, h⟩ := Option.bind_eq_some_iff.mp h
  exact fits_of_ofFields? h

end Diagnostic

namespace Stats

structure Fits (s : Stats) : Prop where
  chunks : s.chunks < Json.countLimit
  truncated : s.truncated < Json.countLimit
  truncatedLength : s.truncatedLength < Json.countLimit
  failedInputs : s.failedInputs < Json.countLimit
  diagnostics : ∀ x ∈ s.diagnostics, x.Fits

theorem ofJson?_toJson {s : Stats} (h : s.Fits) : ofJson? s.toJson = some s := by
  have hslots : s.toJson.slots?
      ["chunks", "truncated", "truncated_length", "failed_inputs", "diagnostics"] =
      some [.present (.count s.chunks), .present (.count s.truncated),
        .present (.count s.truncatedLength), .present (.count s.failedInputs),
        .present (.array (s.diagnostics.map Diagnostic.toJson))] := rfl
  have hdiagnostics : Json.listOf? Diagnostic.ofJson?
      (.array (s.diagnostics.map Diagnostic.toJson)) = some s.diagnostics :=
    Json.listOf?_map fun x hx => Diagnostic.ofJson?_toJson (h.diagnostics x hx)
  simp [ofJson?, hslots, Json.Slot.required?, Json.count?_count h.chunks,
    Json.count?_count h.truncated, Json.count?_count h.truncatedLength,
    Json.count?_count h.failedInputs, hdiagnostics]

theorem fits_of_ofJson? {j : Json} {s : Stats} (h : ofJson? j = some s) : s.Fits := by
  rw [ofJson?] at h
  obtain ⟨slots, -, h⟩ := Option.bind_eq_some_iff.mp h
  split at h
  · obtain ⟨chunks, hchunks, h⟩ := Option.bind_eq_some_iff.mp h
    obtain ⟨truncated, htruncated, h⟩ := Option.bind_eq_some_iff.mp h
    obtain ⟨length, hlength, h⟩ := Option.bind_eq_some_iff.mp h
    obtain ⟨failed, hfailed, h⟩ := Option.bind_eq_some_iff.mp h
    obtain ⟨diagnostics, hdiagnostics, h⟩ := Option.bind_eq_some_iff.mp h
    cases h
    refine ⟨Json.Slot.lt_of_required? hchunks, Json.Slot.lt_of_required? htruncated,
      Json.Slot.lt_of_required? hlength, Json.Slot.lt_of_required? hfailed, fun x hx => ?_⟩
    obtain ⟨list, hlist⟩ := Json.Slot.exists_of_required? hdiagnostics
    obtain ⟨item, hitem⟩ := Json.read_of_mem_listOf? hlist hx
    exact Diagnostic.fits_of_ofJson? hitem
  · cases h

end Stats
end ChunkTree

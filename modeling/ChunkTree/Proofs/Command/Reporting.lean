import ChunkTree.Command.Plan
import ChunkTree.Proofs.Json.Texts
import ChunkTree.Proofs.Model.Trees

namespace ChunkTree

namespace Json

theorem rereadItems_eq_map (items : List Json) : rereadItems items = items.map reread := by
  induction items with
  | nil => rfl
  | cons item rest ih => rw [rereadItems, ih, List.map_cons]

theorem rereadFields_eq_map (fields : List (Text × Json)) :
    rereadFields fields = fields.map fun f => (f.1, f.2.reread) := by
  induction fields with
  | nil => rfl
  | cons field rest ih => rw [rereadFields, ih, List.map_cons]

theorem reread_record (fields : List (String × Json)) :
    (record fields).reread = record (fields.map fun f => (f.1, f.2.reread)) := by
  rw [record, reread, rereadFields_eq_map, record, List.map_map, List.map_map]
  rfl

theorem reread_array_map {α : Type} {write : α → Json} {l : List α}
    (h : ∀ x ∈ l, (write x).reread = write x) :
    (array (l.map write)).reread = array (l.map write) := by
  rw [reread, rereadItems_eq_map, List.map_map]
  exact congrArg array (List.map_congr_left h)

end Json

theorem Chunk.reread_toJson (c : Chunk) : c.toJson.reread = c.toJson := by
  induction c using childInduction with
  | step c ih =>
    obtain ⟨content, children⟩ := c
    cases children with
    | nil => rfl
    | cons first rest =>
      rw [toJson, allToJson_eq_map, ← List.map_cons, Json.reread_record]
      simp only [List.map_cons, List.map_nil]
      rw [← List.map_cons, Json.reread_array_map ih]
      rfl

def reportValue (files : List FileReport) (s : Stats) (average : Json) : Json :=
  .record
    [("files", .array (files.map fun f =>
      .record
        [("path", .string f.path),
          ("units", .array (f.units.map fun u =>
            .record
              [("name", .string u.name), ("signature", .string u.signature),
                ("chunk", u.chunk.toJson)]))])),
      ("stats", .record
        [("chunks", .count s.chunks), ("truncated", .count s.truncated),
          ("truncated_length", .count s.truncatedLength), ("failed_inputs", .count s.failedInputs),
          ("average_truncated_length", average), ("diagnostics", .count s.diagnostics.length)])]

def averageValue (s : Stats) : Json :=
  if s.truncated = 0 then .null
  else .real (doubleOfCount s.truncatedLength / doubleOfCount s.truncated)

/-- The text of a report on files and accounts, with the value that any reader takes from it. -/
structure Reports (files : List FileReport) (s : Stats) (report : Text) : Prop where
  written : report = (reportValue files s (averageValue s)).pretty 0
  read : ∀ depth, (reportValue files s .null).height ≤ depth →
    (∀ n ∈ [s.chunks, s.truncated, s.truncatedLength, s.failedInputs, s.diagnostics.length],
      n < Json.countLimit) →
    Json.read? depth report = some (reportValue files s (averageValue s).reread)

def averageText (s : Stats) : Text :=
  if s.truncated = 0 then ['/']
  else (Double.ofBits (doubleOfCount s.truncatedLength / doubleOfCount s.truncated).toBits).fixedText

def logEntries (diagnostics : List Diagnostic) : Text :=
  diagnostics.flatMap fun x => '\n' :: '\n' :: x.text

def logOf (s : Stats) (entries : Text) : Text :=
  "Number of failed inputs: ".toList ++ Text.decimal s.failedInputs ++
    "\nNumber of truncated chunks: ".toList ++ Text.decimal s.truncated ++
    "\nNumber of chunks: ".toList ++ Text.decimal s.chunks ++
    "\nAverage truncated length: ".toList ++ averageText s ++ entries ++ ['\n']

theorem logText_eq (s : Stats) :
    s.logText = logOf s (logEntries s.diagnostics) := by
  delta Stats.logText Summary.text logOf logEntries
  dsimp only [Stats.summary]
  by_cases h : s.truncated = 0
  · have hnone : s.averageTruncatedLength = none := if_pos h
    have htext : averageText s = ['/'] := if_pos h
    rw [hnone, htext]
  · have hsome : s.averageTruncatedLength =
        some (doubleOfCount s.truncatedLength / doubleOfCount s.truncated) := if_neg h
    have htext : averageText s = (Double.ofBits
        (doubleOfCount s.truncatedLength / doubleOfCount s.truncated).toBits).fixedText := if_neg h
    rw [hsome, htext]

theorem height_reportValue (files : List FileReport) (s : Stats) :
    (reportValue files s (averageValue s)).height = (reportValue files s .null).height := by
  rw [averageValue]
  split <;> rfl

theorem reread_unitReport (u : UnitReport) : u.toJson.reread = u.toJson := by
  rw [UnitReport.toJson, Json.reread_record]
  simp only [List.map_cons, List.map_nil, Chunk.reread_toJson]
  rfl

theorem reread_fileReport (f : FileReport) : f.toJson.reread = f.toJson := by
  rw [FileReport.toJson, Json.reread_record]
  simp only [List.map_cons, List.map_nil, Json.reread_array_map fun u _ => reread_unitReport u]
  rfl

theorem reread_reportValue (files : List FileReport) {s : Stats} (average : Json)
    (h : ∀ n ∈ [s.chunks, s.truncated, s.truncatedLength, s.failedInputs, s.diagnostics.length],
      n < Json.countLimit) :
    (reportValue files s average).reread = reportValue files s average.reread := by
  have hfiles : (Json.array (files.map FileReport.toJson)).reread = .array (files.map FileReport.toJson) :=
    Json.reread_array_map fun f _ => reread_fileReport f
  simp only [List.forall_mem_cons] at h
  obtain ⟨hchunks, htruncated, hlength, hfailed, hdiagnostics, -⟩ := h
  rw [reportValue, Json.reread_record]
  simp only [List.map_cons, List.map_nil, Json.reread_record, Json.reread_count hchunks,
    Json.reread_count htruncated, Json.reread_count hlength, Json.reread_count hfailed,
    Json.reread_count hdiagnostics]
  rw [reportValue]
  exact congrArg (fun j => Json.record [("files", j), _]) hfiles

theorem reports_report (files : List FileReport) (s : Stats) :
    Reports files s ((Report.toJson ⟨files, s.summary⟩).pretty 0) := by
  have hvalue : Report.toJson ⟨files, s.summary⟩ = reportValue files s (averageValue s) := by
    rw [averageValue, Report.toJson, Summary.toJson, Summary.toJsonWith, Stats.summary,
      Stats.averageTruncatedLength]
    split <;> rfl
  rw [hvalue]
  refine ⟨rfl, fun depth hdepth hcounts => ?_⟩
  rw [Json.read?_pretty _ 0 (height_reportValue files s ▸ hdepth), reread_reportValue files _ hcounts]

end ChunkTree

import ChunkTree.Proofs.Command.Inputs
import ChunkTree.Proofs.Command.Reporting
import ChunkTree.Proofs.Command.Saving
import ChunkTree.Proofs.Command.Settings

namespace ChunkTree

namespace Directory

def Accepts : Directory → List Text → Prop
  | _, [] => True
  | d, path :: rest => ∀ text, (d.save path text).1 = none ∧ (d.save path text).2.Accepts rest

end Directory

namespace Outcome

variable {x : Outcome} {path text : Text} {rest : List Delivery} {made : Directory}

def delivered (deliveries : List Delivery) (x : Outcome) : Outcome :=
  x.after (world.deliver deliveries)

theorem delivered_print (text : Text) (rest : List Delivery) (x : Outcome) :
    x.delivered (.print text :: rest) = delivered rest { x with output := x.output ++ text } := rfl

theorem run_save (path text : Text) (x : Outcome) :
    (world.onFiles (world.files.save path text)).run x =
      ((x.directory.save path text).1, { x with directory := (x.directory.save path text).2 }) := rfl

theorem delivered_save (h : x.directory.save path text = (none, made)) :
    x.delivered (.save path text :: rest) = delivered rest { x with directory := made } := by
  rw [delivered, after, World.deliver, Directory.run_bind, run_save, h]
  rfl

theorem delivered_save_failed {causes : Causes} (h : x.directory.save path text = (some causes, made)) :
    x.delivered (.save path text :: rest) =
      { x with exit := .failure, errors := x.errors ++ causes.report, directory := made } := by
  rw [delivered, after, World.deliver, Directory.run_bind, run_save, h]
  rfl

theorem delivered_last (path text : Text) (x : Outcome) :
    (x.delivered [.save path text]).output = x.output ∧
      (x.delivered [.save path text]).directory = (x.directory.save path text).2 := by
  cases hsave : x.directory.save path text with
  | mk failed made =>
    cases failed with
    | none =>
      rw [delivered_save hsave]
      exact ⟨rfl, rfl⟩
    | some causes =>
      rw [delivered_save_failed hsave]
      exact ⟨rfl, rfl⟩

end Outcome

def Delivery.path? : Delivery → Option Text
  | print _ => none
  | save path _ => some path

theorem Outcome.exit_delivered {deliveries : List Delivery} {x : Outcome}
    (h : x.directory.Accepts (deliveries.filterMap Delivery.path?)) :
    (x.delivered deliveries).exit = .success := by
  induction deliveries generalizing x with
  | nil => rfl
  | cons delivery rest ih =>
    cases delivery with
    | print text =>
      rw [delivered_print]
      exact ih h
    | save path text =>
      obtain ⟨hsaved, hrest⟩ := h text
      cases hsave : x.directory.save path text with
      | mk failed made =>
        rw [hsave] at hsaved hrest
        cases hsaved
        rw [delivered_save hsave]
        exact ih hrest

def Progress.report (p : Progress) : Text :=
  (Report.toJson ⟨p.files, p.journal.stats.summary⟩).pretty 0

namespace Options

variable {o : Options} {p : Progress} {x : Outcome} {path log : Text}

def targets (o : Options) : List Text := o.output.toList ++ o.diagnostics.toList

theorem targets_eq (o : Options) (p : Progress) :
    (o.deliveries p).filterMap Delivery.path? = o.targets := by
  rw [deliveries, targets]
  cases o.output <;> cases o.diagnostics <;> rfl

def logDelivery (o : Options) (p : Progress) : List Delivery :=
  (o.diagnostics.map fun path => .save path p.journal.stats.logText).toList

theorem deliveries_printed (h : o.output = none) (p : Progress) :
    o.deliveries p = .print (p.report ++ ['\n']) :: o.logDelivery p := by
  rw [deliveries, logDelivery, h]
  cases o.diagnostics <;> rfl

theorem deliveries_saved (h : o.output = some path) (p : Progress) :
    o.deliveries p = .save path p.report :: o.logDelivery p := by
  rw [deliveries, logDelivery, h]
  cases o.diagnostics <;> rfl

theorem output_logDelivery (o : Options) (p : Progress) (x : Outcome) :
    (x.delivered (o.logDelivery p)).output = x.output := by
  rw [logDelivery]
  cases o.diagnostics with
  | none => rfl
  | some log => exact (Outcome.delivered_last log _ x).1

theorem output_printed (h : o.output = none) :
    (x.delivered (o.deliveries p)).output = x.output ++ (p.report ++ ['\n']) := by
  rw [deliveries_printed h, Outcome.delivered_print, output_logDelivery]

theorem output_saved (h : o.output = some path) :
    (x.delivered (o.deliveries p)).output = x.output := by
  rw [deliveries_saved h]
  cases hsave : x.directory.save path p.report with
  | mk failed made =>
    cases failed with
    | none => rw [Outcome.delivered_save hsave, output_logDelivery]
    | some causes => rw [Outcome.delivered_save_failed hsave]

theorem read_saved (h : o.output = some path) (hsave : (x.directory.save path p.report).1 = none) :
    (x.delivered (o.deliveries p)).directory.read path = .ok p.report ∨
      ∃ log, o.diagnostics = some log ∧
        (x.delivered (o.deliveries p)).directory.place? path =
          (x.delivered (o.deliveries p)).directory.place? log ∧
        (x.delivered (o.deliveries p)).directory.read path = .ok p.journal.stats.logText := by
  obtain ⟨made, hmade⟩ : ∃ made, x.directory.save path p.report = (none, made) :=
    ⟨_, Prod.ext hsave rfl⟩
  have hread := Directory.read_of_save hmade
  rw [deliveries_saved h, Outcome.delivered_save hmade, logDelivery]
  cases hlog : o.diagnostics with
  | none => exact .inl hread
  | some log =>
    simp only [Option.map_some, Option.toList_some, (Outcome.delivered_last log _ _).2]
    rcases Directory.read_other_of_save rfl hread with hkept | ⟨-, hplace, htaken⟩
    · exact .inl hkept
    · exact .inr ⟨log, rfl, hplace, htaken⟩

theorem read_log (h : o.diagnostics = some log) (haccepts : x.directory.Accepts o.targets) :
    (x.delivered (o.deliveries p)).directory.read log = .ok p.journal.stats.logText := by
  have hlast {y : Outcome} (hy : y.directory.Accepts [log]) :
      (y.delivered (o.logDelivery p)).directory.read log = .ok p.journal.stats.logText := by
    rw [logDelivery, h]
    have hsaved := (hy p.journal.stats.logText).1
    rw [Option.map_some, Option.toList_some, (Outcome.delivered_last log _ y).2]
    exact Directory.read_of_save (Prod.ext hsaved rfl)
  cases hout : o.output with
  | none =>
    rw [targets, hout, h] at haccepts
    rw [deliveries_printed hout, Outcome.delivered_print]
    exact hlast haccepts
  | some path =>
    rw [targets, hout, h] at haccepts
    obtain ⟨hsaved, hrest⟩ := haccepts p.report
    rw [deliveries_saved hout, Outcome.delivered_save (Prod.ext hsaved rfl)]
    exact hlast hrest

/-- A run ends well, with a report on the files and accounts where it was asked for, and with the log of
the diagnostics where one was asked for. The log may take the place of the report. -/
structure Delivers (o : Options) (files : List FileReport) (s : Stats) (x : Outcome) : Prop where
  exit : x.exit = .success
  printed : o.output = none → ∃ report, Reports files s report ∧ x.output = report ++ ['\n']
  silent : ∀ path, o.output = some path → x.output = []
  saved : ∀ path, o.output = some path →
    (∃ report, Reports files s report ∧ x.directory.read path = .ok report) ∨
      ∃ log, o.diagnostics = some log ∧ x.directory.place? path = x.directory.place? log
  logged : ∀ log, o.diagnostics = some log →
    x.directory.read log = .ok (logOf s (logEntries s.diagnostics))

theorem delivers_delivered (haccepts : x.directory.Accepts o.targets) (hempty : x.output = []) :
    o.Delivers p.files p.journal.stats (x.delivered (o.deliveries p)) where
  exit := Outcome.exit_delivered (by rwa [targets_eq])
  printed hout := ⟨p.report, reports_report _ _, by rw [output_printed hout, hempty]; rfl⟩
  silent path hout := by rw [output_saved hout, hempty]
  saved path hout := by
    have hfirst := haccepts
    rw [targets, hout] at hfirst
    rcases read_saved hout (hfirst p.report).1 with hread | ⟨log, hlog, hplace, -⟩
    · exact .inl ⟨p.report, reports_report _ _, hread⟩
    · exact .inr ⟨log, hlog, hplace⟩
  logged log hlog := by rw [read_log hlog haccepts, logText_eq]

end Options
end ChunkTree

import ChunkTree.Command.Run
import ChunkTree.Proofs.Split.Accounts
import ChunkTree.Proofs.Split.Shedding

namespace ChunkTree

namespace Stats

variable (all : List Stats)

end Stats

theorem splitFile_returns {oracle : Oracle} {c : Config} (ho : oracle.Honest)
    (hs : oracle.measure.Sheds c.placeholder oracle.budgets.unit) (file : InputFile) :
    ∃ report journal, splitFile oracle c file = .ok (report, journal) := by
  obtain ⟨chunks, journal, h⟩ := Splitter.splitUnits_returns
    (S := Splitter.ofConfig oracle c (some file.path)) ho hs file.units Journal.empty
  exact ⟨⟨file.path, reportUnits file.units chunks⟩, journal, by simp [splitFile, h]⟩

def usable (read : FileReader) (path : Text) : Bool :=
  match loadInput read path with
  | .ok _ => true
  | .error _ => false

theorem usable_of_ok {read : FileReader} {path : Text} {file : InputFile}
    (h : loadInput read path = .ok file) : usable read path = true := by
  rw [usable, h]

theorem usable_of_error {read : FileReader} {path : Text} {causes : Causes}
    (h : loadInput read path = .error causes) : usable read path = false := by
  rw [usable, h]

def Splits (oracle : Oracle) (c : Config) (read : FileReader) (path : Text) : Prop :=
  ∀ file, loadInput read path = .ok file →
    ∃ report journal, splitFile oracle c file = .ok (report, journal)

namespace Progress

def start : Progress := ⟨[], Journal.empty⟩

def append (p q : Progress) : Progress := ⟨p.files ++ q.files, p.journal.append q.journal⟩

def ofInput (oracle : Oracle) (c : Config) (read : FileReader) (path : Text) : Progress :=
  (splitInputs oracle c false read [path] start).1

variable {oracle : Oracle} {c : Config} {read : FileReader} {path : Text}

theorem skip_eq_append (p : Progress) (path : Text) (causes : Causes) :
    p.skip path causes = p.append (start.skip path causes) := by
  simp [skip, append, start, Journal.log, Journal.append, Journal.empty, Stats.recordFailedInput,
    Stats.merge, Stats.record, Stats.empty]

theorem add_eq_append (p : Progress) (report : FileReport) (journal : Journal) :
    p.add report journal = p.append (start.add report journal) := by
  simp [add, append, start]

theorem ofInput_error {causes : Causes} (h : loadInput read path = .error causes) :
    ofInput oracle c read path = start.skip path causes := by
  simp [ofInput, splitInputs, h]

theorem ofInput_ok {file : InputFile} {report : FileReport} {journal : Journal}
    (h : loadInput read path = .ok file) (hsplit : splitFile oracle c file = .ok (report, journal)) :
    ofInput oracle c read path = ⟨[report], journal⟩ := by
  simp [ofInput, splitInputs, h, hsplit, add, start]

end Progress

/-- The input file does not end a run early: it can be split or, unless the run fails fast, be skipped. -/
def Passes (oracle : Oracle) (c : Config) (failFast : Bool) (read : FileReader) (path : Text) : Prop :=
  Splits oracle c read path ∧ (failFast = true → usable read path = true)

inductive Ends (oracle : Oracle) (c : Config) (failFast : Bool) (read : FileReader)
    (inputs : List Text) : Option Ending → Prop where
  | through (h : ∀ path ∈ inputs, Passes oracle c failFast read path) :
    Ends oracle c failFast read inputs none
  | abandoned {path : Text} (causes : Causes) (hfast : failFast = true) (hmem : path ∈ inputs)
    (hbad : usable read path = false) : Ends oracle c failFast read inputs (some (.abandoned causes))
  | crashed {path : Text} (fault : Fault) (hmem : path ∈ inputs) (h : ¬ Splits oracle c read path) :
    Ends oracle c failFast read inputs (some (.crashed fault))

section

variable {oracle : Oracle} {c : Config} {failFast : Bool} {read : FileReader} {path : Text}
  {inputs : List Text} {ending : Option Ending}

theorem splits_of_error {causes : Causes} (h : loadInput read path = .error causes) :
    Splits oracle c read path := by
  intro file hfile
  rw [h] at hfile
  cases hfile

theorem Ends.cons (h : Ends oracle c failFast read inputs ending)
    (hfirst : Passes oracle c failFast read path) :
    Ends oracle c failFast read (path :: inputs) ending := by
  cases h with
  | through h => exact .through (List.forall_mem_cons.mpr ⟨hfirst, h⟩)
  | abandoned causes hfast hmem hbad =>
    exact .abandoned causes hfast (List.mem_cons_of_mem _ hmem) hbad
  | crashed fault hmem h => exact .crashed fault (List.mem_cons_of_mem _ hmem) h

theorem splitInputs_ends (inputs : List Text) (p : Progress) :
    Ends oracle c failFast read inputs (splitInputs oracle c failFast read inputs p).2 := by
  induction inputs generalizing p with
  | nil => exact .through (List.forall_mem_nil _)
  | cons path rest ih =>
    rw [splitInputs]
    cases hload : loadInput read path with
    | error causes =>
      dsimp only
      split
      · exact .abandoned causes ‹_› List.mem_cons_self (usable_of_error hload)
      · rename_i hpatient
        exact (ih _).cons ⟨splits_of_error hload, fun hfast => absurd hfast hpatient⟩
    | ok file =>
      dsimp only
      cases hsplit : splitFile oracle c file with
      | error fault =>
        refine .crashed fault List.mem_cons_self fun h => ?_
        obtain ⟨report, journal, hok⟩ := h file hload
        rw [hsplit] at hok
        cases hok
      | ok result =>
        obtain ⟨report, journal⟩ := result
        refine (ih _).cons ⟨fun file' hfile' => ?_, fun _ => usable_of_ok hload⟩
        rw [hload] at hfile'
        cases hfile'
        exact ⟨report, journal, hsplit⟩

/-- A pass that is not ended early adds to what was there what each file comes to. -/
theorem splitInputs_eq_foldl (h : ∀ path ∈ inputs, Passes oracle c failFast read path) (p : Progress) :
    splitInputs oracle c failFast read inputs p =
      (inputs.foldl (fun p path => p.append (Progress.ofInput oracle c read path)) p, none) := by
  induction inputs generalizing p with
  | nil => rfl
  | cons path rest ih =>
    obtain ⟨⟨hsplits, hfast⟩, hrest⟩ := List.forall_mem_cons.mp h
    rw [splitInputs, List.foldl_cons]
    cases hload : loadInput read path with
    | error causes =>
      have hpatient : ¬ failFast = true := fun hf => by
        have husable := hfast hf
        rw [usable_of_error hload] at husable
        cases husable
      simp only [if_neg hpatient]
      rw [ih hrest, Progress.skip_eq_append, Progress.ofInput_error hload]
    | ok file =>
      obtain ⟨report, journal, hsplit⟩ := hsplits file hload
      simp only [hsplit]
      rw [ih hrest, Progress.add_eq_append, Progress.ofInput_ok hload hsplit]
      simp [Progress.add, Progress.start]

end

namespace Progress

variable {oracle : Oracle} {c : Config} {read : FileReader} {inputs : List Text}

variable (f : Text → Progress) (p : Progress)

end Progress
end ChunkTree

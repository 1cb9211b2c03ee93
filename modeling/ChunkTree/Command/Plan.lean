import ChunkTree.Command.Arguments
import ChunkTree.Model.Report
import ChunkTree.Json.Reader
import ChunkTree.Json.Writer
import ChunkTree.Split.Settle
import ChunkTree.Toml.Config

/-!
What a run of the command decides from its options and the files it reads, before anything is
written. Either it breaks off with a chain of causes and delivers nothing, or it delivers a report.
-/

namespace ChunkTree

/-- An error with its causes, the outermost first. -/
abbrev Causes := List Text

namespace Causes

def inline (c : Causes) : Text := ": ".toList.intercalate c

/-- Several causes below an error are numbered, a single one is not. -/
def numbered (i : Nat) : Causes → Text
  | [] => []
  | cause :: rest =>
    "    ".toList ++ Text.decimal i ++ ": ".toList ++ cause ++ '\n' :: numbered (i + 1) rest

def report : Causes → Text
  | [] => []
  | [error] => "Error: ".toList ++ error ++ ['\n']
  | [error, cause] =>
    "Error: ".toList ++ error ++ "\n\nCaused by:\n    ".toList ++ cause ++ ['\n']
  | error :: causes =>
    "Error: ".toList ++ error ++ "\n\nCaused by:\n".toList ++ numbered 0 causes

end Causes

inductive Delivery where
  | print (text : Text)
  | save (path text : Text)
deriving DecidableEq, Repr

inductive Ending where
  | abandoned (causes : Causes)
  | crashed (fault : Fault)
  | completed (deliveries : List Delivery)
deriving DecidableEq, Repr

structure Plan where
  records : List LogRecord
  ending : Ending
deriving DecidableEq, Repr

namespace Options

def loadConfig (o : Options) (read : FileReader) : Except Causes Config :=
  match o.config with
  | none => .ok Config.standard
  | some path =>
    match Config.load read path with
    | .ok c => .ok c
    | .error e => .error (("Failed to load config ".toList ++ path) :: e.message :: e.cause?.toList)

/-- The options given on the command line go before those of the config file. -/
def override (o : Options) (c : Config) : Config :=
  { c with
    unitBudget := o.unitBudget.getD c.unitBudget
    chunkBudget := o.chunkBudget.getD c.chunkBudget
    metric := o.metric.getD c.metric }

def mergedConfig (o : Options) (read : FileReader) : Except Causes Config :=
  match o.loadConfig read with
  | .error causes => .error causes
  | .ok c => .ok (o.override c)

def setUp (o : Options) (t : Tokenizer) (read : FileReader) : Except Causes (Config × Oracle) :=
  match o.mergedConfig read with
  | .error causes => .error causes
  | .ok c =>
    match c.oracle? t with
    | .ok oracle => .ok (c, oracle)
    | .error e => .error ["Failed to build length oracle".toList, e.message]

def threshold (o : Options) : LogLevel :=
  if o.quiet then .warn else if o.verbose then .debug else .info

end Options

def malformedInput : Text := "not a list of units in JSON".toList

def loadInput (read : FileReader) (path : Text) : Except Causes InputFile :=
  match read path with
  | .error e => .error ["Failed to read ".toList ++ path, e.message]
  | .ok text =>
    match (Json.read? Json.modelDepth text).bind InputFile.ofJson? with
    | some file => .ok file
    | none => .error ["Invalid input file ".toList ++ path, malformedInput]

def reportUnits : List SourceUnit → List Chunk → List UnitReport
  | u :: units, c :: chunks => ⟨u.name, u.signature, c⟩ :: reportUnits units chunks
  | _, _ => []

def splitFile (oracle : Oracle) (c : Config) (file : InputFile) :
    Except Fault (FileReport × Journal) :=
  match (Splitter.ofConfig oracle c (some file.path)).splitUnits file.units Journal.empty with
  | .error fault => .error fault
  | .ok (chunks, journal) => .ok (⟨file.path, reportUnits file.units chunks⟩, journal)

structure Progress where
  files : List FileReport
  journal : Journal

def Progress.skip (p : Progress) (path : Text) (causes : Causes) : Progress :=
  let logged := p.journal.log .warn ("Skipping ".toList ++ path ++ ": ".toList ++ causes.inline)
  { p with
    journal :=
      { logged with stats := logged.stats.recordFailedInput path causes.inline } }

def Progress.add (p : Progress) (report : FileReport) (journal : Journal) : Progress :=
  ⟨p.files ++ [report], p.journal.append journal⟩

/-- Goes over the input files. A file that cannot be used is passed over, or ends the run if it has to
fail fast. -/
def splitInputs (oracle : Oracle) (c : Config) (failFast : Bool) (read : FileReader) :
    List Text → Progress → Progress × Option Ending
  | [], p => (p, none)
  | path :: rest, p =>
    match loadInput read path with
    | .error causes =>
      if failFast then (p, some (.abandoned causes))
      else splitInputs oracle c failFast read rest (p.skip path causes)
    | .ok file =>
      match splitFile oracle c file with
      | .error fault => (p, some (.crashed fault))
      | .ok (report, journal) => splitInputs oracle c failFast read rest (p.add report journal)

def budgetsMessage (c : Config) : Text :=
  "Budgets: unit=".toList ++ Text.decimal c.unitBudget ++ " chunk=".toList ++
    Text.decimal c.chunkBudget ++ " metric=".toList ++ c.metric.name

def closingMessage (files : Nat) (s : Stats) : Text :=
  "Split ".toList ++ Text.decimal files ++ " file(s) into ".toList ++ Text.decimal s.chunks ++
    " chunk(s), ".toList ++ Text.decimal s.truncated ++ " truncated, ".toList ++
    Text.decimal s.failedInputs ++ " failed input(s)".toList

def Options.deliveries (o : Options) (p : Progress) : List Delivery :=
  let stats := p.journal.stats
  let report := (Report.toJson ⟨p.files, stats.summary⟩).pretty 0
  let main : Delivery :=
    match o.output with
    | some path => .save path report
    | none => .print (report ++ ['\n'])
  main ::
    match o.diagnostics with
    | some path => [.save path stats.logText]
    | none => []

def Options.plan (o : Options) (t : Tokenizer) (read : FileReader) : Plan :=
  match o.setUp t read with
  | .error causes => ⟨[], .abandoned causes⟩
  | .ok (c, oracle) =>
    let opening := Journal.empty.log .debug (budgetsMessage c)
    match splitInputs oracle c o.failFast read o.inputs ⟨[], opening⟩ with
    | (p, some ending) => ⟨p.journal.records, ending⟩
    | (p, none) =>
      let closed := p.journal.log .info (closingMessage p.files.length p.journal.stats)
      ⟨closed.records, .completed (o.deliveries p)⟩

end ChunkTree

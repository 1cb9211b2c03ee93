import ChunkTree.Command.Files
import ChunkTree.Text.Printed

namespace ChunkTree

def versionText : Text := "code-splitter 0.1.1\n".toList

def helpText : Text :=
  "Split oversized method bodies into budget-bounded chunk trees

Usage: code-splitter [OPTIONS] --input <INPUTS>...

Options:
  -i, --input <INPUTS>...            Parsed source files (JSON: \x7b\"path\": ..., \"units\": [...]\x7d)
  -c, --config <CONFIG>              TOML configuration file
      --unit-budget <UNIT_BUDGET>    Override the unit budget
      --chunk-budget <CHUNK_BUDGET>  Override the chunk budget
      --metric <METRIC>              Override the length metric [possible values: chars, approx_tokens, bpe]
  -o, --output <OUTPUT>              Write the JSON report here instead of stdout
      --diagnostics <DIAGNOSTICS>    Write the run summary and every diagnostic to this file
      --fail-fast                    Abort on the first unreadable or malformed input
  -v, --verbose                      Enable verbose logging
  -q, --quiet                        Quiet mode: log only warnings/errors
  -h, --help                         Print help
  -V, --version                      Print version
".toList

def LogRecord.shown (r : LogRecord) : Text := Text.printed (Text.hang r.text ++ ['\n'])

structure Outcome where
  exit : ExitCode
  output : Text
  errors : Text
  records : List LogRecord
  directory : Directory

def Outcome.log (o : Outcome) : Text := o.records.flatMap LogRecord.shown

namespace Directory

def files : Files (StateM Directory) where
  makeFolder path := fun d =>
    match d.makeFolder path with
    | .ok made => (.ok (), made)
    | .error e => (.error e, d)
  leadsToFolder path := fun d => (d.leadsToFolder path, d)
  write path text := fun d =>
    match d.writeFile path (encode text) with
    | .ok made => (.ok (), made)
    | .error e => (.error e, d)

def save (d : Directory) (path text : Text) : Option Causes × Directory :=
  (files.save path text).run d

end Directory

namespace Outcome

def world : World (StateM Directory) (StateM Outcome) where
  files := Directory.files
  onFiles act := fun x =>
    let (a, d) := act.run x.directory
    (a, { x with directory := d })
  print text := modify fun x => { x with output := x.output ++ text }
  printError text := modify fun x => { x with errors := x.errors ++ text }
  log records := modify fun x => { x with records := x.records ++ records }

def after (x : Outcome) (act : StateM Outcome ExitCode) : Outcome :=
  let (code, y) := act.run x
  { y with exit := code }

end Outcome

def runOptions (t : Tokenizer) (o : Options) (d : Directory) : Outcome :=
  Outcome.after ⟨.success, [], [], [], d⟩ (Outcome.world.carryOut o (o.plan t d.read))

def usageMessage : Text := "error: unusable arguments\n\nFor more information, try '--help'.\n".toList

def run (t : Tokenizer) (arguments : List Text) (d : Directory) : Outcome :=
  match Options.parse? arguments with
  | none => ⟨.usage, [], usageMessage, [], d⟩
  | some .version => ⟨.success, versionText, [], [], d⟩
  | some .help => ⟨.success, helpText, [], [], d⟩
  | some (.run o) => runOptions t o d

end ChunkTree

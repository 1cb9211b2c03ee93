import ChunkTree.Oracle.Metric
import ChunkTree.Text.Digits

/-!
Command line arguments. Options have a long name after two dashes and some a letter after one; letters
can share a dash. A value follows its option, or stands behind an equals sign, or directly behind a
letter. Input files may be many, and all else is given once.
-/

namespace ChunkTree

structure Options where
  inputs : List Text
  config : Option Text
  unitBudget : Option Nat
  chunkBudget : Option Nat
  metric : Option MetricKind
  output : Option Text
  diagnostics : Option Text
  failFast : Bool
  verbose : Bool
  quiet : Bool
deriving DecidableEq, Repr

inductive Request where
  | run (options : Options)
  | version
  | help
deriving DecidableEq, Repr

namespace Options

def initial : Options := ⟨[], none, none, none, none, none, none, false, false, false⟩

inductive Key where
  | input
  | config
  | unitBudget
  | chunkBudget
  | metric
  | output
  | diagnostics
deriving DecidableEq, Repr

inductive Switch where
  | failFast
  | verbose
  | quiet
  | version
  | help
deriving DecidableEq, Repr

def longName? (name : Text) : Option (Key ⊕ Switch) :=
  let table : List (String × (Key ⊕ Switch)) :=
    [("input", .inl .input), ("config", .inl .config), ("unit-budget", .inl .unitBudget),
     ("chunk-budget", .inl .chunkBudget), ("metric", .inl .metric), ("output", .inl .output),
     ("diagnostics", .inl .diagnostics), ("fail-fast", .inr .failFast),
     ("verbose", .inr .verbose), ("quiet", .inr .quiet), ("version", .inr .version),
     ("help", .inr .help)]
  (table.find? (fun entry => entry.1.toList == name)).map Prod.snd

def letter? : Char → Option (Key ⊕ Switch)
  | 'i' => some (.inl .input)
  | 'c' => some (.inl .config)
  | 'o' => some (.inl .output)
  | 'v' => some (.inr .verbose)
  | 'q' => some (.inr .quiet)
  | 'V' => some (.inr .version)
  | 'h' => some (.inr .help)
  | _ => none

/-- A value for a place that is still free. -/
def once? {α : Type} (place value : Option α) : Option (Option α) :=
  match place, value with
  | none, some v => some (some v)
  | _, _ => none

def path? (t : Text) : Option Text := if t.isEmpty then none else some t

/-- Digits of a number below `2 ^ 64`; a plus sign may stand before them. -/
def number? : Text → Option Nat
  | '+' :: t => Text.natural? Text.wordLimit t
  | t => Text.natural? Text.wordLimit t

def assignOne? (o : Options) (key : Key) (value : Text) : Option Options :=
  match key with
  | .input => (path? value).map (fun p => { o with inputs := o.inputs ++ [p] })
  | .config => (once? o.config (path? value)).map (fun v => { o with config := v })
  | .unitBudget => (once? o.unitBudget (number? value)).map (fun v => { o with unitBudget := v })
  | .chunkBudget => (once? o.chunkBudget (number? value)).map (fun v => { o with chunkBudget := v })
  | .metric => (once? o.metric (MetricKind.ofName? value)).map (fun v => { o with metric := v })
  | .output => (once? o.output (path? value)).map (fun v => { o with output := v })
  | .diagnostics => (once? o.diagnostics (path? value)).map (fun v => { o with diagnostics := v })

/-- Where an argument without a dash goes: nowhere, to a key that still needs a value, or to the input
files, of which there may be more. -/
inductive Expecting where
  | nothing
  | value (key : Key)
  | moreInputs
deriving DecidableEq, Repr

structure Reading where
  options : Options
  expecting : Expecting
deriving DecidableEq, Repr

namespace Reading

def settled? (r : Reading) : Option Options :=
  match r.expecting with
  | .value _ => none
  | _ => some r.options

def assign? (o : Options) (key : Key) (value : Text) : Option Reading :=
  (o.assignOne? key value).map (fun o => ⟨o, .nothing⟩)

def plain? (r : Reading) (argument : Text) : Option Reading :=
  match r.expecting with
  | .nothing => none
  | .value .input => (r.options.assignOne? .input argument).map (fun o => ⟨o, .moreInputs⟩)
  | .value key => assign? r.options key argument
  | .moreInputs => (r.options.assignOne? .input argument).map (fun o => ⟨o, .moreInputs⟩)

def switch? (o : Options) : Switch → Option (Reading ⊕ Request)
  | .failFast => if o.failFast then none else some (.inl ⟨{ o with failFast := true }, .nothing⟩)
  | .verbose => if o.verbose then none else some (.inl ⟨{ o with verbose := true }, .nothing⟩)
  | .quiet => if o.quiet then none else some (.inl ⟨{ o with quiet := true }, .nothing⟩)
  | .version => some (.inr .version)
  | .help => some (.inr .help)

def long? (r : Reading) (body : Text) : Option (Reading ⊕ Request) := do
  let o ← r.settled?
  match body.span (fun c => c != '=') with
  | (name, '=' :: value) =>
    match longName? name with
    | some (.inl key) => (assign? o key value).map .inl
    | _ => none
  | (name, _) =>
    match longName? name with
    | some (.inl key) => some (.inl ⟨o, .value key⟩)
    | some (.inr s) => switch? o s
    | none => none

def letters? (r : Reading) : Text → Option (Reading ⊕ Request)
  | [] => some (.inl r)
  | c :: rest => do
    let o ← r.settled?
    match letter? c with
    | some (.inl key) =>
      match rest with
      | [] => some (.inl ⟨o, .value key⟩)
      | '=' :: value => (assign? o key value).map .inl
      | value => (assign? o key value).map .inl
    | some (.inr s) =>
      match ← switch? o s with
      | .inl r => r.letters? rest
      | .inr request => some (.inr request)
    | none => none

def argument? (r : Reading) : Text → Option (Reading ⊕ Request)
  | '-' :: '-' :: body => r.long? body
  | '-' :: c :: rest => r.letters? (c :: rest)
  | argument => (r.plain? argument).map .inl

def arguments? (r : Reading) : List Text → Option Request
  | [] => do
    let o ← r.settled?
    if o.inputs.isEmpty then none else some (.run o)
  | argument :: rest =>
    if argument == ['-', '-'] then
      if rest.isEmpty then do
        let o ← r.settled?
        if o.inputs.isEmpty then none else some (.run o)
      else none
    else
      match r.argument? argument with
      | none => none
      | some (.inr request) => some request
      | some (.inl r) => r.arguments? rest

end Reading

def parse? (arguments : List Text) : Option Request :=
  Reading.arguments? ⟨initial, .nothing⟩ arguments

end Options
end ChunkTree

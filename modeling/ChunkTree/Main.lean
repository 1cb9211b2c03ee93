import ChunkTree.Command.Run

namespace ChunkTree

/-- The number of an error, whose sign depends on the call that reports it. -/
def errorNumber (code : UInt32) : UInt32 := min code (0 - code)

def fileError : IO.Error → FileError
  | .noFileOrDirectory .. => .notFound
  | .alreadyExists .. => .alreadyExists
  | .inappropriateType _ code _ => if errorNumber code = 20 then .notDirectory else .isDirectory
  | .invalidArgument _ code _ => if errorNumber code = 36 then .nameTooLong else .unusableName
  | e => .other e.toString.toList

def attempt {α : Type} (act : IO α) : IO (Except FileError α) := do
  return (← act.toBaseIO).mapError fileError

def readText (path : Text) : IO (Except FileError Text) := do
  return (← attempt (IO.FS.readBinFile (String.ofList path))).bind Directory.decode

def readAhead (o : Options) : IO FileReader := do
  let paths := o.config.toList ++ o.inputs
  let texts ← paths.mapM (fun path => return (path, ← readText path))
  return fun path =>
    match texts.find? (fun entry => entry.1 == path) with
    | some entry => entry.2
    | none => .error .notFound

def diskFiles : Files IO where
  makeFolder path := attempt (IO.FS.createDir (String.ofList path))
  -- does nothing where the folder is there, and else fails as making it has failed
  leadsToFolder path := return (← (IO.FS.createDirAll (String.ofList path)).toBaseIO).isOk
  write path text := attempt (IO.FS.writeFile (String.ofList path) (String.ofList text))

def console : World IO IO where
  files := diskFiles
  onFiles act := act
  print text := IO.print (String.ofList text)
  printError text := IO.eprint (String.ofList text)
  log records := records.forM fun r => IO.eprint (String.ofList r.shown)

/-- The vocabulary of the byte-pair tokenizer is no part of this library. -/
def missingTokenizer : Tokenizer := .error "no vocabulary".toList

end ChunkTree

open ChunkTree in
def main (arguments : List String) : IO UInt32 := do
  match Options.parse? (arguments.map String.toList) with
  | none =>
    console.printError usageMessage
    return ExitCode.usage.number.toUInt32
  | some .version =>
    console.print versionText
    return 0
  | some .help =>
    console.print helpText
    return 0
  | some (.run o) =>
    let code ← console.carryOut o (o.plan missingTokenizer (← readAhead o))
    return code.number.toUInt32

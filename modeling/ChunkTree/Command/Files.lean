import ChunkTree.Command.Directory
import ChunkTree.Command.Plan

namespace ChunkTree

structure Files (m : Type → Type) where
  makeFolder : Text → m (Except FileError Unit)
  leadsToFolder : Text → m Bool
  write : Text → Text → m (Except FileError Unit)

namespace Files

variable {m : Type → Type} [Monad m] (F : Files m)

/-- A folder that could not be made does no harm if it is there already. -/
def unlessThere (path : Text) : Except FileError Unit → m (Except FileError Unit)
  | .ok _ => return .ok ()
  | .error e => do if ← F.leadsToFolder path then return .ok () else return .error e

/-- Makes a folder and those above it that are missing; the steps to it are given last one first. -/
def ensureFolders : List Text → m (Except FileError Unit)
  | [] => return .ok ()
  | step :: above => do
    if Directory.isHere step then ensureFolders above
    else
      let path := Directory.folderPath (step :: above)
      match ← F.makeFolder path with
      | .error .notFound =>
        match ← ensureFolders above with
        | .ok _ => F.unlessThere path (← F.makeFolder path)
        | .error e => return .error e
      | made => F.unlessThere path made

def save (path text : Text) : m (Option Causes) := do
  match ← F.ensureFolders (Directory.parentSteps path) with
  | .error e => return some [e.message]
  | .ok _ =>
    match ← F.write path text with
    | .error e => return some ["Failed to write ".toList ++ path, e.message]
    | .ok _ => return none

end Files

inductive ExitCode where
  | success
  | failure
  | usage
  | crash
deriving DecidableEq, Repr

def ExitCode.number : ExitCode → Nat
  | success => 0
  | failure => 1
  | usage => 2
  | crash => 101

/-- Files kept in `n`, and the places where a run in `m` shows its texts. -/
structure World (n m : Type → Type) where
  files : Files n
  onFiles {α : Type} : n α → m α
  print : Text → m Unit
  printError : Text → m Unit
  log : List LogRecord → m Unit

namespace World

variable {n m : Type → Type} [Monad n] [Monad m] (w : World n m)

def deliver : List Delivery → m ExitCode
  | [] => return .success
  | .print text :: rest => do
    w.print text
    deliver rest
  | .save path text :: rest => do
    match ← w.onFiles (w.files.save path text) with
    | none => deliver rest
    | some causes =>
      w.printError causes.report
      return .failure

def conclude : Ending → m ExitCode
  | .abandoned causes => do
    w.printError causes.report
    return .failure
  | .crashed fault => do
    w.printError (fault.message ++ ['\n'])
    return .crash
  | .completed deliveries => w.deliver deliveries

/-- Shows the log records of a plan that are severe enough and brings it to its end. -/
def carryOut (o : Options) (plan : Plan) : m ExitCode := do
  w.log (plan.records.filter fun r => o.threshold.rank ≤ r.level.rank)
  w.conclude plan.ending

end World
end ChunkTree

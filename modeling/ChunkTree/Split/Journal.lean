import ChunkTree.Stats.Basic

/-!
What a run leaves behind besides its result: the accounts and the log records, both only appended to.
A run that finds its oracle at fault ends there.
-/

namespace ChunkTree

inductive LogLevel where
  | debug
  | info
  | warn
deriving DecidableEq, Repr

namespace LogLevel

def rank : LogLevel → Nat
  | debug => 0
  | info => 1
  | warn => 2

def name : LogLevel → Text
  | debug => "DEBUG".toList
  | info => "INFO".toList
  | warn => "WARN".toList

end LogLevel

structure LogRecord where
  level : LogLevel
  message : Text
deriving DecidableEq, Repr

def LogRecord.text (r : LogRecord) : Text := r.level.name ++ ' ' :: r.message

structure Journal where
  stats : Stats
  records : List LogRecord
deriving DecidableEq, Repr

namespace Journal

def empty : Journal := ⟨Stats.empty, []⟩

def ofStats (s : Stats) : Journal := ⟨s, []⟩

def log (level : LogLevel) (message : Text) (j : Journal) : Journal :=
  { j with records := j.records ++ [⟨level, message⟩] }

def append (j k : Journal) : Journal := ⟨j.stats.merge k.stats, j.records ++ k.records⟩

@[simp] theorem append_empty (j : Journal) : j.append empty = j := by simp [append, empty, Stats.merge_empty]

@[simp] theorem empty_append (j : Journal) : empty.append j = j := by simp [append, empty, Stats.empty_merge]

theorem append_assoc (j k l : Journal) : (j.append k).append l = j.append (k.append l) := by
  simp [append, Stats.merge_assoc]

end Journal

inductive Fault where
  /-- A truncated text still measures more than the unit budget. -/
  | overBudget (returned budget : Nat)
  /-- A truncated text has no character boundary where a placeholder began. -/
  | insideCharacter (offset : Nat)
deriving DecidableEq, Repr

def Fault.message : Fault → Text
  | overBudget returned budget =>
    "length oracle contract violated: truncate() returned ".toList ++ Text.decimal returned ++
      " for a unit budget of ".toList ++ Text.decimal budget
  | insideCharacter _ => "assertion failed: self.is_char_boundary(new_len)".toList

abbrev Run (α : Type) := Journal → Except Fault (α × Journal)

end ChunkTree

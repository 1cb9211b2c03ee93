import ChunkTree.Stats.Diagnostic

/-!
Accounts of a run: four counters and the diagnostics in the order they were raised. Accounts of
separate runs merge into the accounts of one run after the other.
-/

namespace ChunkTree

structure Stats where
  chunks : Nat
  truncated : Nat
  truncatedLength : Nat
  failedInputs : Nat
  diagnostics : List Diagnostic
deriving DecidableEq, Repr

namespace Stats

def empty : Stats := ⟨0, 0, 0, 0, []⟩

def recordChunk (s : Stats) : Stats := { s with chunks := s.chunks + 1 }

def record (s : Stats) (d : Diagnostic) : Stats := { s with diagnostics := s.diagnostics ++ [d] }

def recordTruncation (s : Stats) (location : Location) (full kept : Text) (lost : Nat) : Stats :=
  { s.record (.truncated location full kept lost) with
    truncated := s.truncated + 1
    truncatedLength := s.truncatedLength + lost }

def recordUnhandledKind (s : Stats) (location : Location) (label : Text) : Stats :=
  s.record (.unhandledKind location label)

def recordDepthLimit (s : Stats) (location : Location) (depth : Nat) : Stats :=
  s.record (.depthLimit location depth)

def recordSpanNotFound (s : Stats) (location : Location) (label : Text) : Stats :=
  s.record (.spanNotFound location label)

def recordFailedInput (s : Stats) (source reason : Text) : Stats :=
  { s.record (.failedInput source reason) with failedInputs := s.failedInputs + 1 }

def merge (s t : Stats) : Stats where
  chunks := s.chunks + t.chunks
  truncated := s.truncated + t.truncated
  truncatedLength := s.truncatedLength + t.truncatedLength
  failedInputs := s.failedInputs + t.failedInputs
  diagnostics := s.diagnostics ++ t.diagnostics

@[simp] theorem merge_empty (s : Stats) : s.merge empty = s := by simp [merge, empty]

@[simp] theorem empty_merge (s : Stats) : empty.merge s = s := by simp [merge, empty]

theorem merge_assoc (s t u : Stats) : (s.merge t).merge u = s.merge (t.merge u) := by
  simp [merge, Nat.add_assoc]

theorem merge_recordChunk (s t : Stats) : s.merge t.recordChunk = (s.merge t).recordChunk := rfl

theorem merge_record (s t : Stats) (d : Diagnostic) : s.merge (t.record d) = (s.merge t).record d := by
  simp [merge, record]

theorem merge_recordTruncation (s t : Stats) (location : Location) (full kept : Text) (lost : Nat) :
    s.merge (t.recordTruncation location full kept lost) =
      (s.merge t).recordTruncation location full kept lost := by
  simp [merge, recordTruncation, record, Nat.add_assoc]

end Stats
end ChunkTree

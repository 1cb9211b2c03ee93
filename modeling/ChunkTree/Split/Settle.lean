import ChunkTree.Split.Dissect
import ChunkTree.Split.Journal
import ChunkTree.Chunk

/-!
From a dissection to chunks. Every content is cut down to the unit budget, parts before the text they
were cut out of, and all that was noted goes into the journal in the order of the walk.
-/

namespace ChunkTree
namespace Splitter

def noteInto (S : Splitter) (j : Journal) : Note → Journal
  | .opened s depth =>
    j.log .debug ("Decomposing ".toList ++ s.label ++ " statement at depth ".toList ++
      Text.decimal depth)
  | .tooDeep s depth =>
    let logged := j.log .warn ("Depth limit ".toList ++ Text.decimal S.maxDepth ++
      " reached at ".toList ++ s.label ++ " statement, keeping children inline".toList)
    { logged with stats := logged.stats.recordDepthLimit (S.location s) depth }
  | .unhandled s =>
    let logged := j.log .warn ("Unhandled long statement type: ".toList ++ s.label)
    { logged with stats := logged.stats.recordUnhandledKind (S.location s) s.label }
  | .notFound s =>
    let logged := j.log .warn ("Rendered ".toList ++ s.label ++
      " statement not found in parent text".toList)
    { logged with stats := logged.stats.recordSpanNotFound (S.location s) s.label }

/-- A placeholder that a cut divides: it begins before the end of the cut and ends after it. -/
def dividedMarker? (S : Splitter) (markers : List Nat) (size : Nat) : Option Nat :=
  markers.find? (fun start => start < size && size < start + Text.byteLength S.placeholder)

/-- A cut that divides a placeholder is taken back to the beginning of that placeholder. -/
def snap (S : Splitter) (markers : List Nat) (cut : Text) : Except Fault Text :=
  match S.dividedMarker? markers (Text.byteLength cut) with
  | none => .ok cut
  | some start =>
    match Text.splitAtByte? start cut with
    | some (before, _) => .ok before
    | none => .error (.insideCharacter start)

def wholeMarkers (S : Splitter) (markers : List Nat) (size : Nat) : Nat :=
  markers.countP (fun start => start + Text.byteLength S.placeholder ≤ size)

/-- The content within the unit budget. A content over it is truncated, and the children whose
placeholder was lost go with it. -/
def enforce (S : Splitter) (s : Statement) (content : Text) (markers : List Nat)
    (children : List Chunk) : Run Chunk := fun j =>
  if S.oracle.fitsUnit content then .ok (⟨content, children⟩, j)
  else
    match S.snap markers (S.oracle.truncate content) with
    | .error fault => .error fault
    | .ok cut =>
      if S.oracle.fitsUnit cut then
        let kept := S.wholeMarkers markers (Text.byteLength cut)
        let lost := S.oracle.measure content - S.oracle.measure cut
        let place :=
          match S.source with
          | some source => " in ".toList ++ source
          | none => []
        let logged := j.log .warn ("Truncated ".toList ++ s.label ++ " statement".toList ++ place ++
          " by ".toList ++ Text.decimal lost)
        let stats := logged.stats.recordTruncation (S.location s) content cut lost
        .ok (⟨cut, children.take kept⟩, { logged with stats := stats })
      else .error (.overBudget (S.oracle.measure cut) S.oracle.budgets.unit)

def countChunk (j : Journal) : Journal := { j with stats := j.stats.recordChunk }

mutual

def settle (S : Splitter) : Dissection → Run Chunk
  | ⟨s, steps, rest⟩, j =>
    match S.settleSteps steps j with
    | .error fault => .error fault
    | .ok (children, j) =>
      let f : Frame Dissection := ⟨steps, rest⟩
      match S.enforce s (f.content S.placeholder) (f.markers S.placeholder) children j with
      | .error fault => .error fault
      | .ok (chunk, j) => .ok (chunk, countChunk j)

def settleSteps (S : Splitter) : List (Step Dissection) → Run (List Chunk)
  | [], j => .ok ([], j)
  | .note n :: rest, j => S.settleSteps rest (S.noteInto j n)
  | .cut _ _ part :: rest, j =>
    match S.settle part j with
    | .error fault => .error fault
    | .ok (chunk, j) =>
      match S.settleSteps rest j with
      | .error fault => .error fault
      | .ok (chunks, j) => .ok (chunk :: chunks, j)

end

/-- Splits the text of a statement, which need not be the rendering of the statement. -/
def decompose (S : Splitter) (s : Statement) (rendered : Text) : Run Chunk :=
  S.settle (S.dissect s (Text.flatten rendered) 0)

/-- The body with the span of its unit where it has none of its own. -/
def locatedBody (u : SourceUnit) : Statement :=
  match u.body.span, u.span with
  | none, some span => u.body.withSpan (some span)
  | _, _ => u.body

/-- One chunk for a unit that fits the unit budget together with its signature, else a tree. -/
def splitUnit (S : Splitter) (u : SourceUnit) : Run Chunk := fun j =>
  let body := Text.flatten u.body.render
  if S.oracle.fitsUnit (u.signature ++ ' ' :: body) then .ok (Chunk.leaf body, countChunk j)
  else
    S.decompose (locatedBody u) body
      (j.log .debug ("Unit ".toList ++ u.name ++ " exceeds the unit budget, decomposing".toList))

def splitUnits (S : Splitter) : List SourceUnit → Run (List Chunk)
  | [], j => .ok ([], j)
  | u :: rest, j =>
    match S.splitUnit u j with
    | .error fault => .error fault
    | .ok (chunk, j) =>
      match S.splitUnits rest j with
      | .error fault => .error fault
      | .ok (chunks, j) => .ok (chunk :: chunks, j)

end Splitter
end ChunkTree

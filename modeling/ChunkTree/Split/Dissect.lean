import ChunkTree.Split.Dissection
import ChunkTree.Statement.Render
import ChunkTree.Text.Flat
import ChunkTree.Text.Blank
import ChunkTree.Text.Search
import ChunkTree.Config.Basic

/-!
Taking the text of a statement apart. What does not fit the chunk budget is looked for in the text,
from left to right, and cut out, by a rule for each kind of statement. The recursion follows the
statement tree, whatever the text is.
-/

namespace ChunkTree

structure Splitter where
  oracle : Oracle
  placeholder : Text
  maxDepth : Nat
  source : Option Text

namespace Splitter

def ofConfig (o : Oracle) (c : Config) (source : Option Text) : Splitter :=
  ⟨o, c.placeholder, c.maxDepth, source⟩

def location (S : Splitter) (s : Statement) : Location := ⟨S.source, s.span⟩

def spanText (rendered : Text) : Text := Text.trim (Text.flatten rendered)

def thenText (condition : Text) (thenBranch : Statement) : Text :=
  spanText (conditionalOpening condition ++ thenBranch.render)

def elseText (elseBranch : Statement) : Text := spanText ("else ".toList ++ elseBranch.render)

def dissectWith (S : Splitter) (s : Statement) (cutChildren : Frame Dissection → Frame Dissection)
    (text : Text) (depth : Nat) : Dissection :=
  if S.oracle.fitsChunk text then ⟨s, [], text⟩
  else if S.maxDepth ≤ depth then
    if s.children.isEmpty then ⟨s, [], text⟩ else ⟨s, [.note (.tooDeep s depth)], text⟩
  else
    let f := cutChildren ((Frame.start text).addNote (.opened s depth))
    ⟨s, f.steps, f.rest⟩

/-- Cuts the first occurrence of a stretch out of the rest of a frame and dissects it one level
deeper, or notes that it is not there. -/
def cutOut (S : Splitter) (s : Statement) (cutChildren : Frame Dissection → Frame Dissection)
    (stretch : Text) (depth : Nat) (f : Frame Dissection) : Frame Dissection :=
  match Text.cutAt? stretch f.rest with
  | none => f.addNote (.notFound s)
  | some (gap, rest) =>
    ⟨f.steps ++ [.cut gap stretch (S.dissectWith s cutChildren stretch (depth + 1))], rest⟩

/-- Whether the text of a conditional would still be over the chunk budget with a placeholder for
its first branch. -/
def splitsBoth (S : Splitter) (condition : Text) (thenBranch : Statement) (text : Text) : Bool :=
  !S.oracle.fitsChunk (Text.replaceFirst text (thenText condition thenBranch) S.placeholder)

mutual

def cutChildren (S : Splitter) : Statement → Nat → Frame Dissection → Frame Dissection
  | .plain .., _, f => f
  | .block _ statements, depth, f => S.cutEach statements depth f
  | .conditional _ _ thenBranch elseBranch, depth, f =>
    S.cutOptional elseBranch depth (S.cutChild thenBranch depth f)
  | .switch .., _, f => f
  | .guarded _ _ body _ _, depth, f => S.cutChild body depth f
  | .headed _ _ body, depth, f => S.cutChild body depth f
  | .other _ _ _ children, depth, f => S.cutEach children depth f

def cutEach (S : Splitter) : List Statement → Nat → Frame Dissection → Frame Dissection
  | [], _, f => f
  | s :: rest, depth, f => S.cutEach rest depth (S.cutChild s depth f)

def cutOptional (S : Splitter) : Option Statement → Nat → Frame Dissection → Frame Dissection
  | none, _, f => f
  | some s, depth, f => S.cutChild s depth f

/-- What is cut out for one direct child: nothing if its text fits, else what its kind says. -/
def cutChild (S : Splitter) : Statement → Nat → Frame Dissection → Frame Dissection
  | .plain span text, depth, f =>
    let s := Statement.plain span text
    if S.oracle.fitsChunk (spanText s.render) then f
    else S.cutOut s id (spanText s.render) depth (f.addNote (.unhandled s))
  | .block span statements, depth, f =>
    let s := Statement.block span statements
    if S.oracle.fitsChunk (spanText s.render) then f
    else S.cutOut s (S.cutEach statements (depth + 1)) (spanText s.render) depth f
  | .conditional span condition thenBranch elseBranch, depth, f =>
    let s := Statement.conditional span condition thenBranch elseBranch
    let text := spanText s.render
    if S.oracle.fitsChunk text then f
    else
      match elseBranch with
      | none =>
        S.cutOut thenBranch (S.cutChildren thenBranch (depth + 1)) (thenText condition thenBranch)
          depth f
      | some other =>
        if S.splitsBoth condition thenBranch text then
          S.cutOut other (S.cutChildren other (depth + 1)) (elseText other) depth
            (S.cutOut thenBranch (S.cutChildren thenBranch (depth + 1))
              (thenText condition thenBranch) depth f)
        else S.cutOut thenBranch (S.cutChildren thenBranch (depth + 1)) text depth f
  | .switch span selector entries, depth, f =>
    let s := Statement.switch span selector entries
    if S.oracle.fitsChunk (spanText s.render) then f else S.cutEntries entries depth f
  | .guarded span resources body clauses cleanup, depth, f =>
    let s := Statement.guarded span resources body clauses cleanup
    if S.oracle.fitsChunk (spanText s.render) then f
    else S.cutOut body (S.cutChildren body (depth + 1)) (spanText s.render) depth f
  | .headed span head body, depth, f =>
    let s := Statement.headed span head body
    if S.oracle.fitsChunk (spanText s.render) then f
    else S.cutOut body (S.cutChildren body (depth + 1)) (spanText s.render) depth f
  | .other span label header children, depth, f =>
    let s := Statement.other span label header children
    if S.oracle.fitsChunk (spanText s.render) then f
    else
      S.cutOut s (S.cutEach children (depth + 1)) (spanText s.render) depth
        (f.addNote (.unhandled s))

def cutEntries (S : Splitter) :
    List (SwitchEntry Statement) → Nat → Frame Dissection → Frame Dissection
  | [], _, f => f
  | ⟨_, statements⟩ :: rest, depth, f => S.cutEntries rest depth (S.cutOversized statements depth f)

def cutOversized (S : Splitter) : List Statement → Nat → Frame Dissection → Frame Dissection
  | [], _, f => f
  | s :: rest, depth, f =>
    let text := spanText s.render
    S.cutOversized rest depth
      (if S.oracle.fitsChunk text then f
        else S.cutOut s (S.cutChildren s (depth + 1)) text depth f)

end

def dissect (S : Splitter) (s : Statement) (text : Text) (depth : Nat) : Dissection :=
  S.dissectWith s (S.cutChildren s depth) text depth

theorem cutEach_eq_foldl (S : Splitter) (statements : List Statement) (depth : Nat)
    (f : Frame Dissection) :
    S.cutEach statements depth f = statements.foldl (fun f s => S.cutChild s depth f) f := by
  induction statements generalizing f with
  | nil => rfl
  | cons s rest ih => simp [cutEach, ih]

theorem cutChildren_eq_cutEach (S : Splitter) (s : Statement) (depth : Nat) (f : Frame Dissection) :
    S.cutChildren s depth f = S.cutEach s.children depth f := by
  cases s with
  | conditional span condition thenBranch elseBranch =>
    cases elseBranch <;> simp [cutChildren, cutOptional, cutEach, Statement.children]
  | _ => simp [cutChildren, cutEach, Statement.children]

end Splitter
end ChunkTree

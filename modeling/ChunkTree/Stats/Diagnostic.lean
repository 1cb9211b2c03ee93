import ChunkTree.Span

namespace ChunkTree

inductive Diagnostic where
  /-- A text over the unit budget was cut down to `kept`, which lost `lost` of its length. -/
  | truncated (location : Location) (full kept : Text) (lost : Nat)
  /-- An oversized statement of a kind that has no rule of its own. -/
  | unhandledKind (location : Location) (label : Text)
  | depthLimit (location : Location) (depth : Nat)
  | spanNotFound (location : Location) (label : Text)
  | failedInput (source reason : Text)
deriving DecidableEq, Repr

namespace Diagnostic

def text : Diagnostic → Text
  | truncated location full kept _ =>
    location.text ++ "\ncut off from:\n".toList ++ full ++ "\nto:\n".toList ++ kept
  | unhandledKind location label =>
    location.text ++ "\nUnhandled long statement type: ".toList ++ label
  | depthLimit location depth =>
    location.text ++ "\nDepth limit ".toList ++ Text.decimal depth ++
      " reached, children kept inline".toList
  | spanNotFound location label =>
    location.text ++ "\nRendered ".toList ++ label ++
      " statement not found in parent text".toList
  | failedInput source reason => source ++ " can't be parsed for:\n".toList ++ reason

def isTruncation : Diagnostic → Bool
  | truncated .. => true
  | _ => false

def isFailedInput : Diagnostic → Bool
  | failedInput .. => true
  | _ => false

def lostLength : Diagnostic → Nat
  | truncated _ _ _ lost => lost
  | _ => 0

end Diagnostic
end ChunkTree

import ChunkTree.Span

namespace ChunkTree

/-- One arm of a switch; without labels it is the default arm. -/
structure SwitchEntry (σ : Type) where
  labels : List Text
  statements : List σ
deriving DecidableEq, Repr

structure CatchClause (σ : Type) where
  parameter : Text
  body : σ
deriving DecidableEq, Repr

inductive Head where
  | counted (init condition update : Text)
  | preTest (condition : Text)
  | postTest (condition : Text)
  | collection (element iterable : Text)
  | lock (subject : Text)
deriving DecidableEq, Repr

inductive Statement where
  | plain (span : Option Span) (text : Text)
  | block (span : Option Span) (statements : List Statement)
  | conditional (span : Option Span) (condition : Text) (thenBranch : Statement)
      (elseBranch : Option Statement)
  | switch (span : Option Span) (selector : Text) (entries : List (SwitchEntry Statement))
  | guarded (span : Option Span) (resources : List Text) (body : Statement)
      (clauses : List (CatchClause Statement)) (cleanup : Option Statement)
  | headed (span : Option Span) (head : Head) (body : Statement)
  | other (span : Option Span) (label header : Text) (children : List Statement)

inductive StructuralKind where
  | plain
  | conditional
  | multiWaySwitch
  | exceptionGuard
  | countedLoop
  | conditionLoop
  | postTestLoop
  | collectionLoop
  | mutualExclusionBlock
  | other
deriving DecidableEq, Repr

def StructuralKind.all : List StructuralKind :=
  [.plain, .conditional, .multiWaySwitch, .exceptionGuard, .countedLoop, .conditionLoop,
   .postTestLoop, .collectionLoop, .mutualExclusionBlock, .other]

def StructuralKind.name : StructuralKind → Text
  | .plain => "plain".toList
  | .conditional => "conditional".toList
  | .multiWaySwitch => "multi_way_switch".toList
  | .exceptionGuard => "exception_guard".toList
  | .countedLoop => "counted_loop".toList
  | .conditionLoop => "condition_loop".toList
  | .postTestLoop => "post_test_loop".toList
  | .collectionLoop => "collection_loop".toList
  | .mutualExclusionBlock => "mutual_exclusion_block".toList
  | .other => "other".toList

def Head.kind : Head → StructuralKind
  | .counted .. => .countedLoop
  | .preTest .. => .conditionLoop
  | .postTest .. => .postTestLoop
  | .collection .. => .collectionLoop
  | .lock .. => .mutualExclusionBlock

namespace Statement

def span : Statement → Option Span
  | .plain span .. => span
  | .block span .. => span
  | .conditional span .. => span
  | .switch span .. => span
  | .guarded span .. => span
  | .headed span .. => span
  | .other span .. => span

def withSpan (span : Option Span) : Statement → Statement
  | .plain _ text => .plain span text
  | .block _ statements => .block span statements
  | .conditional _ condition thenBranch elseBranch =>
    .conditional span condition thenBranch elseBranch
  | .switch _ selector entries => .switch span selector entries
  | .guarded _ resources body clauses cleanup => .guarded span resources body clauses cleanup
  | .headed _ head body => .headed span head body
  | .other _ label header children => .other span label header children

@[simp] theorem span_withSpan (span : Option Span) (s : Statement) :
    (s.withSpan span).span = span := by
  cases s <;> rfl

def kind : Statement → StructuralKind
  | .plain .. => .plain
  | .block .. => .plain
  | .conditional .. => .conditional
  | .switch .. => .multiWaySwitch
  | .guarded .. => .exceptionGuard
  | .headed _ head _ => head.kind
  | .other .. => .other

/-- The name a statement has in messages: the front end's own label for what it could not classify. -/
def label : Statement → Text
  | .other _ label _ _ => label
  | s => s.kind.name

def body? : Statement → Option Statement
  | .headed _ _ body => some body
  | _ => none

/-- The statements directly below this one, in source order. What a switch entry, a catch clause or
a cleanup holds belongs to that part and not to the statement. -/
def children : Statement → List Statement
  | .plain .. => []
  | .block _ statements => statements
  | .conditional _ _ thenBranch elseBranch => thenBranch :: elseBranch.toList
  | .switch .. => []
  | .guarded _ _ body _ _ => [body]
  | .headed _ _ body => [body]
  | .other _ _ _ children => children

end Statement

structure SourceUnit where
  name : Text
  signature : Text
  body : Statement
  span : Option Span

end ChunkTree

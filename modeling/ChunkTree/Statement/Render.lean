import ChunkTree.Statement.Basic
import ChunkTree.Text.Lines

/-!
Canonical text of a statement: one line for each simple statement, four spaces for each level.
-/

namespace ChunkTree

def armHeader : List Text → Text
  | [] => "default:".toList
  | labels => "case ".toList ++ ", ".toList.intercalate labels ++ [':']

def Head.opening : Head → Text
  | .counted init condition update =>
    "for (".toList ++ init ++ "; ".toList ++ condition ++ "; ".toList ++ update ++ ") ".toList
  | .preTest condition => "while (".toList ++ condition ++ ") ".toList
  | .postTest _ => "do ".toList
  | .collection element iterable =>
    "for (".toList ++ element ++ " : ".toList ++ iterable ++ ") ".toList
  | .lock subject => "synchronized (".toList ++ subject ++ ") ".toList

def Head.closing : Head → Text
  | .postTest condition => " while (".toList ++ condition ++ ");".toList
  | _ => []

def braced (items : List Text) : Text :=
  match items with
  | [] => ['{', '\n', '}']
  | items => ['{', '\n'] ++ Text.joinLines (items.map Text.indent) ++ ['\n', '}']

def conditionalOpening (condition : Text) : Text := "if (".toList ++ condition ++ ") ".toList

def switchOpening (selector : Text) : Text := "switch (".toList ++ selector ++ ") ".toList

def guardOpening : List Text → Text
  | [] => "try ".toList
  | resources => "try (".toList ++ "; ".toList.intercalate resources ++ ") ".toList

def catchOpening (parameter : Text) : Text := " catch (".toList ++ parameter ++ ") ".toList

/-- The lines of an unclassified construct: its header, unless that is empty, then its children. -/
def headedParts (header : Text) (children : List Text) : List Text :=
  if header.isEmpty then children else header :: children

mutual

def Statement.render : Statement → Text
  | .plain _ text => text
  | .block _ statements => braced (renderAll statements)
  | .conditional _ condition thenBranch elseBranch =>
    conditionalOpening condition ++ thenBranch.render ++ renderAfter " else ".toList elseBranch
  | .switch _ selector entries => switchOpening selector ++ braced (renderEntries entries)
  | .guarded _ resources body clauses cleanup =>
    guardOpening resources ++ body.render ++ renderClauses clauses ++
      renderAfter " finally ".toList cleanup
  | .headed _ head body => head.opening ++ body.render ++ head.closing
  | .other _ _ header children => Text.joinLines (headedParts header (renderAll children))

def renderAll : List Statement → List Text
  | [] => []
  | s :: rest => s.render :: renderAll rest

def renderAfter (word : Text) : Option Statement → Text
  | none => []
  | some s => word ++ s.render

def renderEntries : List (SwitchEntry Statement) → List Text
  | [] => []
  | ⟨labels, statements⟩ :: rest =>
    (armHeader labels ++ renderArm statements) :: renderEntries rest

def renderArm : List Statement → Text
  | [] => []
  | s :: rest => '\n' :: Text.indent s.render ++ renderArm rest

def renderClauses : List (CatchClause Statement) → Text
  | [] => []
  | ⟨parameter, body⟩ :: rest => catchOpening parameter ++ body.render ++ renderClauses rest

end

theorem renderAll_eq_map (statements : List Statement) :
    renderAll statements = statements.map Statement.render := by
  induction statements with
  | nil => rfl
  | cons s rest ih => simp [renderAll, ih]

end ChunkTree

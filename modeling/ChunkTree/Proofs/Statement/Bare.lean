import ChunkTree.Proofs.Statement.Nested

namespace ChunkTree
namespace Statement

mutual

def bare : Statement → Statement
  | .plain _ text => .plain none text
  | .block _ statements => .block none (bareAll statements)
  | .conditional _ condition thenBranch elseBranch =>
    .conditional none condition thenBranch.bare (bareOptional elseBranch)
  | .switch _ selector entries => .switch none selector (bareEntries entries)
  | .guarded _ resources body clauses cleanup =>
    .guarded none resources body.bare (bareClauses clauses) (bareOptional cleanup)
  | .headed _ head body => .headed none head body.bare
  | .other _ label header children => .other none label header (bareAll children)

def bareAll : List Statement → List Statement
  | [] => []
  | s :: rest => s.bare :: bareAll rest

def bareOptional : Option Statement → Option Statement
  | none => none
  | some s => some s.bare

def bareEntries : List (SwitchEntry Statement) → List (SwitchEntry Statement)
  | [] => []
  | ⟨labels, statements⟩ :: rest => ⟨labels, bareAll statements⟩ :: bareEntries rest

def bareClauses : List (CatchClause Statement) → List (CatchClause Statement)
  | [] => []
  | ⟨parameter, body⟩ :: rest => ⟨parameter, body.bare⟩ :: bareClauses rest

end

theorem bareAll_eq_map (statements : List Statement) : bareAll statements = statements.map bare := by
  induction statements with
  | nil => rfl
  | cons s rest ih => rw [bareAll, ih, List.map_cons]

theorem statements_bareEntries (entries : List (SwitchEntry Statement)) :
    (bareEntries entries).flatMap (·.statements) = (entries.flatMap (·.statements)).map bare := by
  induction entries with
  | nil => rfl
  | cons e rest ih =>
    rw [bareEntries, List.flatMap_cons, List.flatMap_cons, List.map_append, ih, bareAll_eq_map]

@[simp] theorem label_bare (s : Statement) : s.bare.label = s.label := by
  cases s <;> rfl

@[simp] theorem bare_withSpan (span : Option Span) (s : Statement) :
    (s.withSpan span).bare = s.bare := by
  cases s <;> rfl

theorem children_bare (s : Statement) : s.bare.children = s.children.map bare := by
  cases s with
  | block span statements => exact bareAll_eq_map statements
  | conditional span condition thenBranch elseBranch => cases elseBranch <;> rfl
  | other span label header children => exact bareAll_eq_map children
  | _ => rfl

mutual

@[simp] theorem render_bare : ∀ s : Statement, s.bare.render = s.render
  | .plain .. => rfl
  | .block _ statements => by rw [bare, render, render, renderAll_bare statements]
  | .conditional _ condition thenBranch elseBranch => by
    rw [bare, render, render, render_bare thenBranch, renderAfter_bare _ elseBranch]
  | .switch _ selector entries => by rw [bare, render, render, renderEntries_bare entries]
  | .guarded _ resources body clauses cleanup => by
    rw [bare, render, render, render_bare body, renderClauses_bare clauses,
      renderAfter_bare _ cleanup]
  | .headed _ head body => by rw [bare, render, render, render_bare body]
  | .other _ label header children => by rw [bare, render, render, renderAll_bare children]

theorem renderAll_bare : ∀ statements : List Statement,
    renderAll (bareAll statements) = renderAll statements
  | [] => rfl
  | s :: rest => by rw [bareAll, renderAll, renderAll, render_bare s, renderAll_bare rest]

theorem renderAfter_bare (word : Text) : ∀ s : Option Statement,
    renderAfter word (bareOptional s) = renderAfter word s
  | none => rfl
  | some s => by rw [bareOptional, renderAfter, renderAfter, render_bare s]

theorem renderArm_bare : ∀ statements : List Statement,
    renderArm (bareAll statements) = renderArm statements
  | [] => rfl
  | s :: rest => by rw [bareAll, renderArm, renderArm, render_bare s, renderArm_bare rest]

theorem renderEntries_bare : ∀ entries : List (SwitchEntry Statement),
    renderEntries (bareEntries entries) = renderEntries entries
  | [] => rfl
  | ⟨labels, statements⟩ :: rest => by
    rw [bareEntries, renderEntries, renderEntries, renderArm_bare statements,
      renderEntries_bare rest]

theorem renderClauses_bare : ∀ clauses : List (CatchClause Statement),
    renderClauses (bareClauses clauses) = renderClauses clauses
  | [] => rfl
  | ⟨parameter, body⟩ :: rest => by
    rw [bareClauses, renderClauses, renderClauses, render_bare body, renderClauses_bare rest]

end

end Statement
end ChunkTree

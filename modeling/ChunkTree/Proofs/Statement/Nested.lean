import ChunkTree.Statement.Render

namespace ChunkTree

def Head.texts : Head → List Text
  | .counted init condition update => [init, condition, update]
  | .preTest condition => [condition]
  | .postTest condition => [condition]
  | .collection element iterable => [element, iterable]
  | .lock subject => [subject]

namespace Statement

/-- The statements directly inside, those of arms, clauses and cleanups among them. -/
def nested : Statement → List Statement
  | .plain .. => []
  | .block _ statements => statements
  | .conditional _ _ thenBranch elseBranch => thenBranch :: elseBranch.toList
  | .switch _ _ entries => entries.flatMap (·.statements)
  | .guarded _ _ body clauses cleanup => body :: (clauses.map (·.body) ++ cleanup.toList)
  | .headed _ _ body => [body]
  | .other _ _ _ children => children

def ownTexts : Statement → List Text
  | .plain _ text => [text]
  | .block .. => []
  | .conditional _ condition _ _ => [condition]
  | .switch _ selector entries => selector :: entries.flatMap (·.labels)
  | .guarded _ resources _ clauses _ => resources ++ clauses.map (·.parameter)
  | .headed _ head _ => head.texts
  | .other _ label header _ => [label, header]

mutual

def subtree : Statement → List Statement
  | .plain span text => [.plain span text]
  | .block span statements => .block span statements :: subtreeAll statements
  | .conditional span condition thenBranch elseBranch =>
    .conditional span condition thenBranch elseBranch ::
      (thenBranch.subtree ++ subtreeOptional elseBranch)
  | .switch span selector entries => .switch span selector entries :: subtreeEntries entries
  | .guarded span resources body clauses cleanup =>
    .guarded span resources body clauses cleanup ::
      (body.subtree ++ (subtreeClauses clauses ++ subtreeOptional cleanup))
  | .headed span head body => .headed span head body :: body.subtree
  | .other span label header children => .other span label header children :: subtreeAll children

def subtreeAll : List Statement → List Statement
  | [] => []
  | s :: rest => s.subtree ++ subtreeAll rest

def subtreeOptional : Option Statement → List Statement
  | none => []
  | some s => s.subtree

def subtreeEntries : List (SwitchEntry Statement) → List Statement
  | [] => []
  | ⟨_, statements⟩ :: rest => subtreeAll statements ++ subtreeEntries rest

def subtreeClauses : List (CatchClause Statement) → List Statement
  | [] => []
  | ⟨_, body⟩ :: rest => body.subtree ++ subtreeClauses rest

end

def texts (s : Statement) : List Text := s.subtree.flatMap ownTexts

theorem nested_of_mem_children {s c : Statement} (h : c ∈ s.children) : c ∈ s.nested := by
  cases s with
  | guarded span resources body clauses cleanup =>
    rw [List.mem_singleton.mp h]
    exact List.mem_cons_self
  | switch span selector entries => cases h
  | _ => exact h

theorem subtreeAll_eq_flatMap (statements : List Statement) :
    subtreeAll statements = statements.flatMap subtree := by
  induction statements with
  | nil => rfl
  | cons s rest ih => simp [subtreeAll, ih]

theorem subtreeOptional_eq_flatMap (s : Option Statement) :
    subtreeOptional s = s.toList.flatMap subtree := by
  cases s <;> simp [subtreeOptional]

theorem subtreeEntries_eq_flatMap (entries : List (SwitchEntry Statement)) :
    subtreeEntries entries = (entries.flatMap (·.statements)).flatMap subtree := by
  induction entries with
  | nil => rfl
  | cons e rest ih => simp [subtreeEntries, subtreeAll_eq_flatMap, ih]

theorem subtreeClauses_eq_flatMap (clauses : List (CatchClause Statement)) :
    subtreeClauses clauses = (clauses.map (·.body)).flatMap subtree := by
  induction clauses with
  | nil => rfl
  | cons c rest ih => simp [subtreeClauses, ih]

theorem subtree_eq (s : Statement) : s.subtree = s :: s.nested.flatMap subtree := by
  cases s <;>
    simp [subtree, nested, subtreeAll_eq_flatMap, subtreeOptional_eq_flatMap,
      subtreeEntries_eq_flatMap, subtreeClauses_eq_flatMap]

theorem texts_eq (s : Statement) : s.texts = s.ownTexts ++ s.nested.flatMap texts := by
  rw [texts, subtree_eq, List.flatMap_cons, List.flatMap_assoc]
  rfl

theorem nested_withSpan (span : Option Span) (s : Statement) :
    (s.withSpan span).nested = s.nested := by
  cases s <;> rfl

theorem texts_withSpan (span : Option Span) (s : Statement) : (s.withSpan span).texts = s.texts := by
  rw [texts_eq, texts_eq s]
  cases s <;> rfl

theorem render_withSpan (span : Option Span) (s : Statement) :
    (s.withSpan span).render = s.render := by
  cases s <;> simp [withSpan, render]

theorem texts_of_own {s : Statement} {t : Text} (h : t ∈ s.ownTexts) : t ∈ s.texts := by
  rw [texts_eq]
  exact List.mem_append_left _ h

theorem texts_of_nested {s c : Statement} {t : Text} (hc : c ∈ s.nested) (h : t ∈ c.texts) :
    t ∈ s.texts := by
  rw [texts_eq]
  exact List.mem_append_right _ (List.mem_flatMap.mpr ⟨c, hc, h⟩)

mutual

@[elab_as_elim]
theorem nestedInduction {P : Statement → Prop} (step : ∀ s, (∀ c ∈ s.nested, P c) → P s) :
    ∀ s, P s
  | .plain .. => step _ (List.forall_mem_nil P)
  | .block _ statements => step _ (nestedAll step statements)
  | .conditional _ _ thenBranch elseBranch =>
    step _ (List.forall_mem_cons.mpr
      ⟨nestedInduction step thenBranch, nestedOptional step elseBranch⟩)
  | .switch _ _ entries => step _ (nestedEntries step entries)
  | .guarded _ _ body clauses cleanup =>
    step _ (List.forall_mem_cons.mpr ⟨nestedInduction step body,
      List.forall_mem_append.mpr ⟨nestedClauses step clauses, nestedOptional step cleanup⟩⟩)
  | .headed _ _ body =>
    step _ (List.forall_mem_cons.mpr ⟨nestedInduction step body, List.forall_mem_nil P⟩)
  | .other _ _ _ children => step _ (nestedAll step children)

theorem nestedAll {P : Statement → Prop} (step : ∀ s, (∀ c ∈ s.nested, P c) → P s) :
    ∀ statements : List Statement, ∀ c ∈ statements, P c
  | [] => List.forall_mem_nil P
  | s :: rest => List.forall_mem_cons.mpr ⟨nestedInduction step s, nestedAll step rest⟩

theorem nestedOptional {P : Statement → Prop} (step : ∀ s, (∀ c ∈ s.nested, P c) → P s) :
    ∀ s : Option Statement, ∀ c ∈ s.toList, P c
  | none => List.forall_mem_nil P
  | some s => List.forall_mem_cons.mpr ⟨nestedInduction step s, List.forall_mem_nil P⟩

theorem nestedEntries {P : Statement → Prop} (step : ∀ s, (∀ c ∈ s.nested, P c) → P s) :
    ∀ entries : List (SwitchEntry Statement), ∀ c ∈ entries.flatMap (·.statements), P c
  | [] => List.forall_mem_nil P
  | ⟨_, statements⟩ :: rest =>
    List.forall_mem_append.mpr ⟨nestedAll step statements, nestedEntries step rest⟩

theorem nestedClauses {P : Statement → Prop} (step : ∀ s, (∀ c ∈ s.nested, P c) → P s) :
    ∀ clauses : List (CatchClause Statement), ∀ c ∈ clauses.map (·.body), P c
  | [] => List.forall_mem_nil P
  | ⟨_, body⟩ :: rest =>
    List.forall_mem_cons.mpr ⟨nestedInduction step body, nestedClauses step rest⟩

end

end Statement
end ChunkTree

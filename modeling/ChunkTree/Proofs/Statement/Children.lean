import ChunkTree.Proofs.Statement.Embedding

namespace ChunkTree
namespace Splitter

open Text

theorem inOrder_renderAfter (word : Text) (s : Option Statement) :
    InOrder (s.toList.map Statement.render) (renderAfter word s) [] := by
  cases s with
  | none => exact List.nil_suffix
  | some s => exact ⟨[], ⟨word, by simp [renderAfter]⟩, List.nil_suffix⟩

theorem isInfix_guarded (span : Option Span) (resources : List Text) (body : Statement)
    (clauses : List (CatchClause Statement)) (cleanup : Option Statement) :
    body.render <:+: (Statement.guarded span resources body clauses cleanup).render := by
  rw [Statement.render, List.append_assoc]
  exact List.infix_append _ _ _

theorem isInfix_headed (span : Option Span) (head : Head) (body : Statement) :
    body.render <:+: (Statement.headed span head body).render := by
  rw [Statement.render]
  exact List.infix_append _ _ _

theorem isInfix_conditional (span : Option Span) (condition : Text) (thenBranch : Statement)
    (elseBranch : Option Statement) :
    thenBranch.render <:+: (Statement.conditional span condition thenBranch elseBranch).render := by
  rw [Statement.render]
  exact List.infix_append _ _ _

theorem singleReturns_and_holds {s : Statement} (h : ∀ t ∈ s.texts, SingleReturns t) :
    SingleReturns s.render ∧ Holds [spanText s.render] s.render :=
  ⟨Statement.singleReturns_render h, holds_spanText s.render⟩

theorem inOrder_children {s : Statement} (h : ∀ t ∈ s.texts, SingleReturns t) :
    InOrder (s.children.map fun c => spanText c.render) (flatten s.render) [] := by
  have hraw : ∀ {ws : List Text} {t : Text}, InOrder ws t [] →
      InOrder (ws.map spanText) (flatten t) [] := by
    intro ws t hws
    obtain ⟨spaced, hflat⟩ := inOrder_flattenAfter hws false
    exact hflat.rest_nil
  cases s with
  | plain span text => exact List.nil_suffix
  | block span statements =>
    rw [Statement.render, renderAll_eq_map, List.map_eq_flatMap]
    refine inOrder_braced (fun c hc => singleReturns_and_holds fun t ht => ?_) false
    exact h t (Statement.texts_of_nested hc ht)
  | conditional span condition thenBranch elseBranch =>
    have hafter := inOrder_renderAfter " else ".toList elseBranch
    have hbranches : InOrder ((thenBranch :: elseBranch.toList).map Statement.render)
        (Statement.conditional span condition thenBranch elseBranch).render [] :=
      ⟨_, ⟨conditionalOpening condition, by simp [Statement.render]⟩, hafter⟩
    have hspans := hraw hbranches
    rwa [List.map_map] at hspans
  | switch span selector entries => exact List.nil_suffix
  | guarded span resources body clauses cleanup =>
    exact hraw (inOrder_singleton.mpr (isInfix_guarded span resources body clauses cleanup))
  | headed span head body =>
    exact hraw (inOrder_singleton.mpr (isInfix_headed span head body))
  | other span label header children =>
    have hchildren : InOrder (children.map Statement.render)
        (Statement.other span label header children).render [] := by
      rw [Statement.render, joinLines, ← renderAll_eq_map, headedParts]
      split
      · exact inOrder_intercalate ['\n'] (renderAll children)
      · exact (inOrder_intercalate ['\n'] (header :: renderAll children)).tail
    have hspans := hraw hchildren
    rwa [List.map_map] at hspans

theorem inOrder_children_span {s : Statement} (h : ∀ t ∈ s.texts, SingleReturns t) :
    InOrder (s.children.map fun c => spanText c.render) (spanText s.render) [] :=
  inOrder_trim Statement.render (inOrder_children h)

theorem inOrder_children_of_isInfix {s : Statement} (h : ∀ t ∈ s.texts, SingleReturns t) {t : Text}
    (ht : s.render <:+: t) : InOrder (s.children.map fun c => spanText c.render) (spanText t) [] :=
  (inOrder_children_span h).of_isInfix (spanText_isInfix_spanText ht)

theorem holds_arm {e : SwitchEntry Statement}
    (h : ∀ s ∈ e.statements, ∀ t ∈ s.texts, SingleReturns t) :
    Holds (e.statements.map fun s => spanText s.render)
      (armHeader e.labels ++ renderArm e.statements) := by
  rw [renderArm_eq, List.map_eq_flatMap]
  exact holds_append_indentedLines (fun s hs => singleReturns_and_holds (h s hs)) _

theorem inOrder_entries {span : Option Span} {selector : Text}
    {entries : List (SwitchEntry Statement)}
    (h : ∀ t ∈ (Statement.switch span selector entries).texts, SingleReturns t) :
    InOrder ((entries.flatMap (·.statements)).map fun s => spanText s.render)
      (spanText (Statement.switch span selector entries).render) [] := by
  have hnested : ∀ e ∈ entries, ∀ s ∈ e.statements, ∀ t ∈ s.texts, SingleReturns t := by
    intro e he s hs t ht
    have hmem : s ∈ (Statement.switch span selector entries).nested :=
      List.mem_flatMap.mpr ⟨e, he, hs⟩
    exact h t (Statement.texts_of_nested hmem ht)
  have harms : ∀ e ∈ entries, SingleReturns (armHeader e.labels ++ renderArm e.statements) ∧
      Holds (e.statements.map fun s => spanText s.render)
        (armHeader e.labels ++ renderArm e.statements) := by
    intro e he
    refine ⟨singleReturns_arm (fun t ht => ?_) (fun s hs => ?_), holds_arm (hnested e he)⟩
    · have hown : t ∈ (Statement.switch span selector entries).ownTexts :=
        List.mem_cons_of_mem _ (List.mem_flatMap.mpr ⟨e, he, ht⟩)
      exact h t (Statement.texts_of_own hown)
    · exact Statement.singleReturns_render (hnested e he s hs)
  obtain ⟨opening, spaced, happend, -⟩ := exists_flattenAfter_append false
    (switchOpening selector)
    (braced (entries.map fun e => armHeader e.labels ++ renderArm e.statements))
  have hbraced := inOrder_braced harms spaced
  rw [← List.map_flatMap] at hbraced
  refine inOrder_trim Statement.render (?_ : InOrder _ _ [])
  rw [Statement.render, renderEntries_eq_map, flatten, happend]
  exact hbraced.mono (List.suffix_append _ _)

theorem inOrder_branches (span : Option Span) (condition : Text) (thenBranch other : Statement) :
    InOrder [thenText condition thenBranch, elseText other]
      (spanText (Statement.conditional span condition thenBranch (some other)).render) [] := by
  have hraw : InOrder
      [conditionalOpening condition ++ thenBranch.render, "else ".toList ++ other.render]
      (Statement.conditional span condition thenBranch (some other)).render [] := by
    refine ⟨" else ".toList ++ other.render, ⟨[], ?_⟩, [], ⟨[' '], ?_⟩, List.nil_suffix⟩
    · simp [Statement.render, renderAfter]
    · simp
  exact inOrder_spanText hraw

theorem spanText_conditional_none (span : Option Span) (condition : Text) (thenBranch : Statement) :
    spanText (Statement.conditional span condition thenBranch none).render =
      thenText condition thenBranch := by
  simp [thenText, Statement.render, renderAfter]

theorem thenText_ne_nil (condition : Text) (thenBranch : Statement) :
    thenText condition thenBranch ≠ [] := by
  intro hnil
  have hword : "if (".toList <:+: conditionalOpening condition ++ thenBranch.render := by
    rw [conditionalOpening, List.append_assoc, List.append_assoc]
    exact (List.prefix_append _ _).isInfix
  have hspan := spanText_isInfix_spanText hword
  rw [← thenText, hnil, List.infix_nil] at hspan
  revert hspan
  decide

theorem elseText_ne_nil (other : Statement) : elseText other ≠ [] := by
  intro hnil
  have hword : "else ".toList <:+: "else ".toList ++ other.render :=
    (List.prefix_append _ _).isInfix
  have hspan := spanText_isInfix_spanText hword
  rw [← elseText, hnil, List.infix_nil] at hspan
  revert hspan
  decide

end Splitter
end ChunkTree

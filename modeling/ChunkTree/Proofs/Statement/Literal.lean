import ChunkTree.Proofs.Statement.Height
import ChunkTree.Proofs.Statement.OneLine
import ChunkTree.Proofs.Text.Literal

/-!
The one-line text of a child, untrimmed, in the one-line text of its parent. It stands there unless
the parent puts the child on lines of its own and a line break takes a carriage return of it along,
which no text does whose lines end as lines do.
-/

namespace ChunkTree

open Text

theorem closed_braced (items : List Text) : Closed (braced items) := by
  have hclose : Closed ['\n', '}'] := by decide
  rw [braced_eq, ← List.cons_append]
  exact hclose.append_left (by simp) _

theorem closed_renderAfter {word : Text} (hword : Closed word) {s : Option Statement}
    (h : ∀ c ∈ s, Closed c.render) : Closed (renderAfter word s) := by
  cases s with
  | none =>
    rw [renderAfter]
    decide
  | some s =>
    rw [renderAfter]
    exact hword.append (h s rfl)

theorem closed_renderClauses {clauses : List (CatchClause Statement)}
    (h : ∀ c ∈ clauses, SingleReturns c.parameter ∧ Closed c.body.render) :
    Closed (renderClauses clauses) := by
  induction clauses with
  | nil =>
    rw [renderClauses]
    decide
  | cons c clauses ih =>
    obtain ⟨⟨hparameter, hbody⟩, hclauses⟩ := List.forall_mem_cons.mp h
    rw [renderClauses]
    exact (Closed.append (separates_catchOpening hparameter).last hbody).append (ih hclauses)

theorem closed_joinLines {parts : List Text} (h : ∀ t ∈ parts, Closed t) :
    Closed (joinLines parts) := by
  induction parts with
  | nil => decide
  | cons t parts ih =>
    obtain ⟨ht, hparts⟩ := List.forall_mem_cons.mp h
    cases parts with
    | nil => rwa [joinLines_singleton]
    | cons t' parts =>
      have hbreak : Closed ['\n'] := by decide
      rw [joinLines_cons_cons]
      exact ht.append (hbreak.append (ih hparts))

namespace Statement

theorem closed_render_of_nested {s : Statement}
    (hown : ∀ t ∈ s.ownTexts, SingleReturns t ∧ Closed t)
    (hnested : ∀ c ∈ s.nested, Closed c.render) : Closed s.render := by
  have hsingle : ∀ t ∈ s.ownTexts, SingleReturns t := fun t ht => (hown t ht).1
  cases s with
  | plain span text => exact (hown text List.mem_cons_self).2
  | block span statements =>
    rw [render]
    exact closed_braced _
  | conditional span condition thenBranch elseBranch =>
    have hopening := (separates_conditionalOpening (hsingle condition List.mem_cons_self)).last
    rw [render]
    refine (Closed.append hopening (hnested thenBranch List.mem_cons_self)).append ?_
    refine closed_renderAfter (by decide) fun c hc => ?_
    exact hnested c (List.mem_cons_of_mem _ (Option.mem_toList.mpr hc))
  | switch span selector entries =>
    have hopening := (separates_switchOpening (hsingle selector List.mem_cons_self)).last
    rw [render]
    exact Closed.append hopening (closed_braced _)
  | guarded span resources body clauses cleanup =>
    have hopening := (separates_guardOpening fun t ht => hsingle t (List.mem_append_left _ ht)).last
    rw [render]
    refine ((Closed.append hopening (hnested body List.mem_cons_self)).append ?_).append ?_
    · refine closed_renderClauses fun c hc => ⟨?_, ?_⟩
      · exact hsingle c.parameter (List.mem_append_right _ (List.mem_map.mpr ⟨c, hc, rfl⟩))
      · exact hnested c.body (List.mem_cons_of_mem _
          (List.mem_append_left _ (List.mem_map.mpr ⟨c, hc, rfl⟩)))
    · refine closed_renderAfter (by decide) fun c hc => ?_
      exact hnested c (List.mem_cons_of_mem _
        (List.mem_append_right _ (Option.mem_toList.mpr hc)))
  | headed span head body =>
    have hopening := (separates_opening hsingle).last
    rw [render]
    exact (Closed.append hopening (hnested body List.mem_cons_self)).append (closed_closing head)
  | other span label header children =>
    rw [render, renderAll_eq_map]
    refine closed_joinLines fun t ht => ?_
    have hparts : t = header ∨ t ∈ children.map render := by
      rw [headedParts] at ht
      split at ht
      · exact .inr ht
      · exact List.mem_cons.mp ht
    rcases hparts with rfl | hchild
    · exact (hown t (List.mem_cons_of_mem _ List.mem_cons_self)).2
    · obtain ⟨c, hc, rfl⟩ := List.mem_map.mp hchild
      exact hnested c hc

theorem closed_render {s : Statement} (h : ∀ t ∈ s.texts, SingleReturns t ∧ Closed t) :
    Closed s.render := by
  induction s using nestedInduction with
  | step s ih =>
    refine closed_render_of_nested (fun t ht => h t (texts_of_own ht)) fun c hc => ?_
    exact ih c hc fun t ht => h t (texts_of_nested hc ht)

theorem whole_render {s : Statement} (h : ∀ t ∈ s.texts, SingleReturns t ∧ Closed t) :
    Whole s.render :=
  ⟨closed_render h, (singleReturns_render fun t ht => (h t ht).1).indentable⟩

theorem texts_of_subtree {s p : Statement} (hp : p ∈ s.subtree) {t : Text} (ht : t ∈ p.texts) :
    t ∈ s.texts := by
  obtain ⟨x, hx, hown⟩ := List.mem_flatMap.mp ht
  exact List.mem_flatMap.mpr ⟨x, mem_subtree_trans hp hx, hown⟩

def Embedded (c s : Statement) : Prop := flatten c.render <:+: flatten s.render

instance (c s : Statement) : Decidable (Embedded c s) :=
  inferInstanceAs (Decidable (flatten c.render <:+: flatten s.render))

def Keeps : Statement → Statement → Prop
  | .block .., c => Whole c.render
  | .other _ _ _ children, c => Closed c.render ∨ children.getLast? = some c
  | _, _ => True

theorem keeps_of_whole {c : Statement} (h : Whole c.render) (s : Statement) : s.Keeps c := by
  cases s with
  | block span statements => exact h
  | other span label header children => exact .inl h.1
  | _ => trivial

theorem head?_renderAfter {word : Text} (h : word.head? = some ' ') (s : Option Statement) :
    (renderAfter word s).head? ≠ some '\n' := by
  cases s with
  | none => simp [renderAfter]
  | some s => simp [renderAfter, h]

theorem head?_catchOpening (parameter : Text) : (catchOpening parameter).head? = some ' ' := rfl

theorem head?_closing (head : Head) : head.closing.head? ≠ some '\n' := by
  cases head with
  | postTest condition =>
    change some ' ' ≠ some '\n'
    decide
  | _ =>
    change none ≠ some '\n'
    decide

theorem embedded_conditional_then (span : Option Span) (condition : Text) (c : Statement)
    (elseBranch : Option Statement) :
    Embedded c (.conditional span condition c elseBranch) := by
  rw [Embedded, render]
  exact flatten_isInfix (fun h => head?_renderAfter rfl elseBranch h.2) _

theorem embedded_conditional_else (span : Option Span) (condition : Text)
    (thenBranch c : Statement) :
    Embedded c (.conditional span condition thenBranch (some c)) := by
  rw [Embedded, render, renderAfter, ← List.append_assoc]
  exact (flatten_isSuffix _ _).isInfix

theorem embedded_guarded (span : Option Span) (resources : List Text) (c : Statement)
    (clauses : List (CatchClause Statement)) (cleanup : Option Statement) :
    Embedded c (.guarded span resources c clauses cleanup) := by
  have hnext : (renderClauses clauses ++ renderAfter " finally ".toList cleanup).head? ≠ some '\n' := by
    cases clauses with
    | nil => exact head?_renderAfter rfl cleanup
    | cons clause rest => simp [renderClauses, head?_catchOpening]
  rw [Embedded, render, List.append_assoc]
  exact flatten_isInfix (fun h => hnext h.2) _

theorem embedded_headed (span : Option Span) (head : Head) (c : Statement) :
    Embedded c (.headed span head c) := by
  rw [Embedded, render]
  exact flatten_isInfix (fun h => head?_closing head h.2) _

theorem embedded_block {c : Statement} (h : Whole c.render) (span : Option Span)
    (before after : List Statement) : Embedded c (.block span (before ++ c :: after)) := by
  rw [Embedded, render, renderAll_eq_map, braced_eq, List.map_append, List.map_cons,
    ← List.singleton_append]
  exact flatten_isInfix_indentedLines h _ _ ['{'] ['}']

theorem embedded_other {c : Statement} {before after : List Statement}
    (h : Closed c.render ∨ after = []) (span : Option Span) (label header : Text) :
    Embedded c (.other span label header (before ++ c :: after)) := by
  have hparts : ∃ front, headedParts header (renderAll (before ++ c :: after)) =
      front ++ c.render :: after.map render := by
    rw [renderAll_eq_map, List.map_append, List.map_cons, headedParts]
    split
    · exact ⟨before.map render, rfl⟩
    · exact ⟨header :: before.map render, rfl⟩
  obtain ⟨front, hfront⟩ := hparts
  rw [Embedded, render, hfront]
  exact flatten_isInfix_joinLines _ _ (h.imp_right fun hnil => by rw [hnil, List.map_nil])

theorem embedded_of_keeps {s c : Statement} (hc : c ∈ s.children) (h : s.Keeps c) :
    Embedded c s := by
  cases s with
  | plain span text => cases hc
  | block span statements =>
    obtain ⟨before, after, rfl⟩ := List.append_of_mem hc
    exact embedded_block h span before after
  | conditional span condition thenBranch elseBranch =>
    rcases List.mem_cons.mp hc with rfl | helse
    · exact embedded_conditional_then span condition c elseBranch
    · rw [Option.mem_toList] at helse
      rw [helse]
      exact embedded_conditional_else span condition thenBranch c
  | switch span selector entries => cases hc
  | guarded span resources body clauses cleanup =>
    rw [List.mem_singleton.mp hc]
    exact embedded_guarded span resources body clauses cleanup
  | headed span head body =>
    rw [List.mem_singleton.mp hc]
    exact embedded_headed span head body
  | other span label header children =>
    rcases h with hclosed | hlast
    · obtain ⟨before, after, rfl⟩ := List.append_of_mem hc
      exact embedded_other (.inl hclosed) span label header
    · obtain ⟨before, rfl⟩ := List.getLast?_eq_some_iff.mp hlast
      exact embedded_other (.inr rfl) span label header

theorem not_embedded_alone {c : Statement} (h : ¬ Whole c.render) (span : Option Span) :
    ¬ Embedded c (.block span [c]) := by
  refine not_flatten_isInfix ?_
  have hrender : (block span [c]).render = '{' :: '\n' :: (indent c.render ++ ['\n', '}']) := by
    simp [render, renderAll, braced, joinLines_singleton]
  rw [hrender, loneReturns_other (by decide)]
  exact loneReturns_indentedLine h

theorem children_embedded (s c : Statement) :
    (c ∈ s.children → s.Keeps c → Embedded c s) ∧
    ((∀ p : Statement, c ∈ p.children → Embedded c p) ↔ Whole c.render) ∧
    ((∀ t ∈ s.texts, SingleReturns t ∧ Closed t) →
      ∀ p ∈ s.subtree, ∀ c' ∈ p.children, Embedded c' p) := by
  refine ⟨embedded_of_keeps, ⟨fun h => ?_, fun h p hc => ?_⟩, fun h p hp c' hc' => ?_⟩
  · by_contra hwhole
    exact not_embedded_alone hwhole none (h _ List.mem_cons_self)
  · exact embedded_of_keeps hc (keeps_of_whole h p)
  · refine embedded_of_keeps hc' (keeps_of_whole (whole_render fun t ht => ?_) p)
    exact h t (texts_of_subtree hp (texts_of_nested (nested_of_mem_children hc') ht))

def returnBody : Statement :=
  .block none [.conditional none "ready\r\n&& idle".toList (.plain none "go();\r\nstop();".toList)
    (some (.block none [.plain none "wait();".toList]))]

theorem children_embedded_returnBody :
    ∀ p ∈ returnBody.subtree, ∀ c ∈ p.children, Embedded c p :=
  (children_embedded returnBody returnBody).2.2 (by decide)

def doubleReturnBody : Statement := .block none [.plain none "go();\r\r\nstop();".toList]

theorem double_return_lost :
    ¬ ∀ s : Statement, ∀ c ∈ s.children, Embedded c s := by
  intro h
  have hlost : ¬ ∀ c ∈ doubleReturnBody.children, Embedded c doubleReturnBody := by
    decide +kernel
  exact hlost (h doubleReturnBody)

end Statement
end ChunkTree

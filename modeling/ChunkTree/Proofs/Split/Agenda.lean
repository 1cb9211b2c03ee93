import ChunkTree.Proofs.Split.Completeness
import ChunkTree.Proofs.Statement.Handlers

/-!
The agenda of a statement: what the walk over its children notes and looks for, in order. It depends
on no text, and so do the statements that a dissection can descend to.
-/

namespace ChunkTree

inductive Errand where
  | unhandled (statement : Statement)
  | cut (statement : Statement) (stretch : Text)

namespace Errand

def statement : Errand → Statement
  | unhandled s => s
  | cut s _ => s

def subtree : Errand → List Statement
  | unhandled _ => []
  | cut s _ => s.subtree

end Errand

namespace Splitter

variable {S : Splitter}

def oversizedErrands (S : Splitter) : Statement → List Errand
  | .plain span text =>
    let s := Statement.plain span text
    [.unhandled s, .cut s (spanText s.render)]
  | .block span statements =>
    let s := Statement.block span statements
    [.cut s (spanText s.render)]
  | .conditional _ condition thenBranch none =>
    [.cut thenBranch (thenText condition thenBranch)]
  | .conditional span condition thenBranch (some other) =>
    let text := spanText (Statement.conditional span condition thenBranch (some other)).render
    if S.splitsBoth condition thenBranch text then
      [.cut thenBranch (thenText condition thenBranch), .cut other (elseText other)]
    else [.cut thenBranch text]
  | .switch _ _ entries =>
    ((entries.flatMap (·.statements)).filter fun s => !S.oracle.fitsChunk (spanText s.render)).map
      fun s => .cut s (spanText s.render)
  | .guarded span resources body clauses cleanup =>
    [.cut body (spanText (Statement.guarded span resources body clauses cleanup).render)]
  | .headed span head body => [.cut body (spanText (Statement.headed span head body).render)]
  | .other span label header children =>
    let s := Statement.other span label header children
    [.unhandled s, .cut s (spanText s.render)]

def errands (S : Splitter) (s : Statement) : List Errand :=
  if S.oracle.fitsChunk (spanText s.render) then [] else S.oversizedErrands s

def agenda (S : Splitter) (s : Statement) : List Errand := s.children.flatMap S.errands

def perform (S : Splitter) (depth : Nat) (f : Frame Dissection) : Errand → Frame Dissection
  | .unhandled s => f.addNote (.unhandled s)
  | .cut s stretch => S.cutPart s stretch depth f

theorem foldl_cutLarge (statements : List Statement) (depth : Nat) (f : Frame Dissection) :
    statements.foldl (fun f s => S.cutLarge s depth f) f =
      ((statements.filter fun s => !S.oracle.fitsChunk (spanText s.render)).map
        fun s => Errand.cut s (spanText s.render)).foldl (S.perform depth) f := by
  induction statements generalizing f with
  | nil => rfl
  | cons s rest ih =>
    rw [List.foldl_cons, ih, List.filter_cons, cutLarge]
    cases S.oracle.fitsChunk (spanText s.render) <;> rfl

theorem cutChild_eq_foldl (s : Statement) (depth : Nat) (f : Frame Dissection) :
    S.cutChild s depth f = (S.errands s).foldl (S.perform depth) f := by
  rw [errands]
  cases hfit : S.oracle.fitsChunk (spanText s.render) with
  | true => exact cutChild_fits hfit depth f
  | false =>
    rw [if_neg Bool.false_ne_true]
    cases s with
    | plain span text => exact cutChild_plain depth f hfit
    | block span statements => exact cutChild_block depth f hfit
    | conditional span condition thenBranch elseBranch =>
      cases elseBranch with
      | none => exact cutChild_conditional_none depth f hfit
      | some other =>
        rw [oversizedErrands]
        cases hboth : S.splitsBoth condition thenBranch
            (spanText (Statement.conditional span condition thenBranch (some other)).render) with
        | true => exact cutChild_conditional_both depth f hfit hboth
        | false => exact cutChild_conditional_one depth f hfit hboth
    | switch span selector entries =>
      rw [cutChild_switch depth f hfit, foldl_cutLarge]
      rfl
    | guarded span resources body clauses cleanup => exact cutChild_guarded depth f hfit
    | headed span head body => exact cutChild_headed depth f hfit
    | other span label header children => exact cutChild_other depth f hfit

theorem foldl_cutChild (statements : List Statement) (depth : Nat) (f : Frame Dissection) :
    statements.foldl (fun f s => S.cutChild s depth f) f =
      (statements.flatMap S.errands).foldl (S.perform depth) f := by
  rw [List.foldl_flatMap]
  congr
  funext f c
  exact cutChild_eq_foldl c depth f

theorem cutChildren_eq_foldl_agenda (s : Statement) (depth : Nat) (f : Frame Dissection) :
    S.cutChildren s depth f = (S.agenda s).foldl (S.perform depth) f := by
  rw [cutChildren_eq_foldl, foldl_cutChild, agenda]

theorem statement_of_mem_errands {s : Statement} {e : Errand} (h : e ∈ S.errands s) :
    e.statement = s ∨ e.statement ∈ s.exposed := by
  rw [errands] at h
  split at h
  · cases h
  · cases s with
    | plain span text =>
      simp only [oversizedErrands, List.mem_cons, List.not_mem_nil, or_false] at h
      rcases h with rfl | rfl <;> exact .inl rfl
    | block span statements =>
      obtain rfl := List.mem_singleton.mp h
      exact .inl rfl
    | conditional span condition thenBranch elseBranch =>
      cases elseBranch with
      | none =>
        obtain rfl := List.mem_singleton.mp h
        exact .inr List.mem_cons_self
      | some other =>
        rw [oversizedErrands] at h
        split at h
        · simp only [List.mem_cons, List.not_mem_nil, or_false] at h
          rcases h with rfl | rfl <;> simp [Errand.statement, Statement.exposed, Statement.nested]
        · obtain rfl := List.mem_singleton.mp h
          exact .inr List.mem_cons_self
    | switch span selector entries =>
      obtain ⟨x, hx, rfl⟩ := List.mem_map.mp h
      exact .inr (List.mem_of_mem_filter hx)
    | guarded span resources body clauses cleanup =>
      obtain rfl := List.mem_singleton.mp h
      exact .inr List.mem_cons_self
    | headed span head body =>
      obtain rfl := List.mem_singleton.mp h
      exact .inr List.mem_cons_self
    | other span label header children =>
      simp only [oversizedErrands, List.mem_cons, List.not_mem_nil, or_false] at h
      rcases h with rfl | rfl <;> exact .inl rfl

theorem reaches_of_mem_errands {s : Statement} {e : Errand} (h : e ∈ S.errands s) :
    s.Reaches e.statement := by
  rcases statement_of_mem_errands h with hself | hinner
  · rw [hself]
    exact .self s
  · exact .inner hinner (.self _)

theorem exists_child_of_mem_agenda {s : Statement} {e : Errand} (h : e ∈ S.agenda s) :
    ∃ c ∈ s.children, c.Reaches e.statement := by
  obtain ⟨c, hc, he⟩ := List.mem_flatMap.mp h
  exact ⟨c, hc, reaches_of_mem_errands he⟩

theorem reaches_of_mem_agenda {s : Statement} {e : Errand} (h : e ∈ S.agenda s) :
    s.Reaches e.statement := by
  obtain ⟨c, hc, he⟩ := exists_child_of_mem_agenda h
  exact .inner (Statement.exposed_of_mem_children hc) he

theorem height_lt_of_mem_agenda {s : Statement} {e : Errand} (h : e ∈ S.agenda s) :
    e.statement.height < s.height := by
  obtain ⟨c, hc, he⟩ := exists_child_of_mem_agenda h
  have hnested := Statement.height_lt_of_mem_nested (Statement.nested_of_mem_children hc)
  exact Nat.lt_of_le_of_lt (Statement.height_le_of_mem_subtree he.mem_subtree) hnested

theorem agendaInduction (S : Splitter) {P : Statement → Prop}
    (step : ∀ s, (∀ e ∈ S.agenda s, P e.statement) → P s) (s : Statement) : P s := by
  induction hn : s.height using Nat.strongRecOn generalizing s with
  | _ n ih =>
    subst hn
    exact step s fun e he => ih _ (height_lt_of_mem_agenda he) e.statement rfl

inductive Leads (S : Splitter) (depth : Nat) (text : Text) : Errand → Step Dissection → Prop where
  | unhandled (s : Statement) : Leads S depth text (.unhandled s) (.note (.unhandled s))
  | notFound (s : Statement) (stretch : Text) :
      Leads S depth text (.cut s stretch) (.note (.notFound s))
  | cut (s : Statement) (gap : Text) {stretch : Text} (h : stretch <:+: text) :
      Leads S depth text (.cut s stretch) (.cut gap stretch (S.dissect s stretch (depth + 1)))

theorem Leads.mono {depth : Nat} {text longer : Text} {e : Errand} {step : Step Dissection}
    (h : S.Leads depth text e step) (ht : text <:+: longer) : S.Leads depth longer e step := by
  cases h with
  | unhandled s => exact .unhandled s
  | notFound s stretch => exact .notFound s stretch
  | cut s gap h => exact .cut s gap (h.trans ht)

theorem perform_cases (depth : Nat) (f : Frame Dissection) (e : Errand) :
    (S.perform depth f e).rest <:+ f.rest ∧
      ∃ step, (S.perform depth f e).steps = f.steps ++ [step] ∧ S.Leads depth f.rest e step := by
  cases e with
  | unhandled s => exact ⟨List.suffix_refl _, _, rfl, .unhandled s⟩
  | cut s stretch =>
    rw [perform]
    cases hc : Text.cutAt? stretch f.rest with
    | none =>
      rw [cutPart_none hc]
      exact ⟨List.suffix_refl _, _, rfl, .notFound s stretch⟩
    | some r =>
      obtain ⟨gap, rest⟩ := r
      have hrest := Text.cutAt?_eq_append hc
      rw [cutPart_some hc, hrest]
      exact ⟨List.suffix_append _ _, _, rfl, .cut s gap (List.infix_append gap stretch rest)⟩

theorem exists_steps_foldl (errands : List Errand) (depth : Nat) (f : Frame Dissection) :
    ∃ steps, (errands.foldl (S.perform depth) f).steps = f.steps ++ steps ∧
      List.Forall₂ (S.Leads depth f.rest) errands steps := by
  induction errands generalizing f with
  | nil => exact ⟨[], (List.append_nil _).symm, .nil⟩
  | cons e rest ih =>
    obtain ⟨hsuffix, step, hstep, hleads⟩ := S.perform_cases depth f e
    obtain ⟨steps, hsteps, hall⟩ := ih (S.perform depth f e)
    refine ⟨step :: steps, ?_, .cons hleads ?_⟩
    · rw [List.foldl_cons, hsteps, hstep, List.append_assoc]
      rfl
    · exact hall.imp fun _ _ h => h.mono hsuffix.isInfix

theorem dissect_opened {text : Text} {depth : Nat} (hover : S.oracle.fitsChunk text = false)
    (hdepth : depth < S.maxDepth) (s : Statement) :
    ∃ steps rest, S.dissect s text depth = ⟨s, .note (.opened s depth) :: steps, rest⟩ ∧
      List.Forall₂ (S.Leads depth text) (S.agenda s) steps := by
  rw [dissect, dissectWith, hover, if_neg Bool.false_ne_true, if_neg (Nat.not_le.mpr hdepth)]
  obtain ⟨steps, hsteps, hall⟩ := S.exists_steps_foldl (S.agenda s) depth
    ((Frame.start text).addNote (.opened s depth))
  rw [← cutChildren_eq_foldl_agenda] at hsteps
  generalize S.cutChildren s depth ((Frame.start text).addNote (.opened s depth)) = f at hsteps ⊢
  refine ⟨steps, f.rest, ?_, hall⟩
  simp only [hsteps]
  rfl

/-- The three ways of a dissection: the text fits or there is nothing below the statement, the depth
bound is reached, or every errand of the agenda makes its step. -/
theorem dissect_cases (s : Statement) (text : Text) (depth : Nat) :
    S.dissect s text depth = ⟨s, [], text⟩ ∨
    S.maxDepth ≤ depth ∧ S.dissect s text depth = ⟨s, [.note (.tooDeep s depth)], text⟩ ∨
    depth < S.maxDepth ∧ ∃ steps rest,
      S.dissect s text depth = ⟨s, .note (.opened s depth) :: steps, rest⟩ ∧
      List.Forall₂ (S.Leads depth text) (S.agenda s) steps := by
  by_cases hopened : S.oracle.fitsChunk text = false ∧ depth < S.maxDepth
  · exact .inr (.inr ⟨hopened.2, dissect_opened hopened.1 hopened.2 s⟩)
  · rw [dissect, dissectWith]
    split
    · exact .inl rfl
    · rename_i hover
      have hdeep : S.maxDepth ≤ depth :=
        Nat.le_of_not_lt fun hdepth => hopened ⟨by simpa using hover, hdepth⟩
      rw [if_pos hdeep]
      split
      · exact .inl rfl
      · exact .inr (.inl ⟨hdeep, rfl⟩)

theorem mem_nodesIn {n : Nat} {steps : List (Step Dissection)} {p : Nat × Dissection}
    (h : p ∈ Dissection.nodesIn n steps) :
    ∃ gap stretch part, .cut gap stretch part ∈ steps ∧ p ∈ part.nodes n := by
  induction steps with
  | nil => cases h
  | cons step rest ih =>
    cases step with
    | note k =>
      obtain ⟨gap, stretch, part, hpart, hp⟩ := ih h
      exact ⟨gap, stretch, part, List.mem_cons_of_mem _ hpart, hp⟩
    | cut gap stretch part =>
      rw [Dissection.nodesIn, List.mem_append] at h
      rcases h with h | h
      · exact ⟨gap, stretch, part, List.mem_cons_self, h⟩
      · obtain ⟨gap, stretch, part, hpart, hp⟩ := ih h
        exact ⟨gap, stretch, part, List.mem_cons_of_mem _ hpart, hp⟩

theorem exists_mem_of_forall₂ {α β : Type} {R : α → β → Prop} {xs : List α} {ys : List β}
    (h : List.Forall₂ R xs ys) {y : β} (hy : y ∈ ys) : ∃ x ∈ xs, R x y := by
  induction h with
  | nil => cases hy
  | cons hr hall ih =>
    rcases List.mem_cons.mp hy with rfl | hy
    · exact ⟨_, List.mem_cons_self, hr⟩
    · obtain ⟨x, hx, hr⟩ := ih hy
      exact ⟨x, List.mem_cons_of_mem _ hx, hr⟩

theorem exists_errand_of_part {s : Statement} {text : Text} {depth : Nat} {part : Dissection}
    (h : part ∈ (S.dissect s text depth).frame.parts) :
    ∃ e ∈ S.agenda s, part.statement = e.statement := by
  rcases S.dissect_cases s text depth with hd | ⟨-, hd⟩ | ⟨-, steps, rest, hd, hall⟩
  · simp [hd, Dissection.frame, Frame.parts] at h
  · simp [hd, Dissection.frame, Frame.parts, Step.part?] at h
  · rw [hd] at h
    obtain ⟨step, hstep, hpart⟩ := List.mem_filterMap.mp h
    rcases List.mem_cons.mp hstep with rfl | hstep
    · cases hpart
    · obtain ⟨e, he, hleads⟩ := exists_mem_of_forall₂ hall hstep
      refine ⟨e, he, ?_⟩
      cases hleads with
      | unhandled s => cases hpart
      | notFound s stretch => cases hpart
      | cut s gap hstretch =>
        obtain rfl := Option.some.inj hpart
        exact statement_dissect _ _ _

theorem nodes_descend {P : Nat → Statement → Text → Prop}
    (hdescend : ∀ depth s text, P depth s text → depth < S.maxDepth →
      ∀ x stretch, .cut x stretch ∈ S.agenda s → stretch <:+: text → P (depth + 1) x stretch)
    {depth : Nat} {s : Statement} {text : Text} (h : P depth s text) :
    ∀ p ∈ (S.dissect s text depth).nodes depth, ∃ x t, p.2 = S.dissect x t p.1 ∧ P p.1 x t := by
  induction s using S.agendaInduction generalizing depth text with
  | step s ih =>
    have hroot : ∃ x t, S.dissect s text depth = S.dissect x t depth ∧ P depth x t :=
      ⟨s, text, rfl, h⟩
    rcases S.dissect_cases s text depth with hd | ⟨-, hd⟩ | ⟨hdeep, steps, rest, hd, hall⟩
    · rw [hd] at hroot ⊢
      simpa [Dissection.nodes, Dissection.nodesIn] using hroot
    · rw [hd] at hroot ⊢
      simpa [Dissection.nodes, Dissection.nodesIn] using hroot
    · rw [hd] at hroot ⊢
      rw [Dissection.nodes, Dissection.nodesIn]
      refine List.forall_mem_cons.mpr ⟨hroot, fun p hp => ?_⟩
      obtain ⟨gap, stretch, part, hcut, hpart⟩ := mem_nodesIn hp
      obtain ⟨e, he, hleads⟩ := exists_mem_of_forall₂ hall hcut
      cases hleads with
      | cut x gap hstretch =>
        exact ih _ he (hdescend depth s text h hdeep x stretch he hstretch) p hpart

theorem exists_statement_of_mem_nodes {s : Statement} {text : Text} {depth : Nat} :
    ∀ p ∈ (S.dissect s text depth).nodes depth, ∃ x t, p.2 = S.dissect x t p.1 ∧
      s.Reaches x ∧ t.length ≤ text.length := by
  apply nodes_descend (P := fun _ x t => s.Reaches x ∧ t.length ≤ text.length)
  · rintro depth y u ⟨hy, hu⟩ - x stretch hx hstretch
    constructor
    · exact hy.trans (reaches_of_mem_agenda hx)
    · exact Nat.le_trans hstretch.length_le hu
  · exact ⟨.self s, Nat.le_refl _⟩

end Splitter
end ChunkTree

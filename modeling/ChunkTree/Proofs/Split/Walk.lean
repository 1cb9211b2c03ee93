import ChunkTree.Split.Dissect
import ChunkTree.Proofs.Statement.Nested

/-!
The walk over a statement, by its elementary moves. Whatever the kind of a child, the frame changes by
notes and by parts that are dissections one level deeper, so what these moves keep the walk keeps.
-/

namespace ChunkTree
namespace Splitter

variable {S : Splitter}

def cutPart (S : Splitter) (s : Statement) (stretch : Text) (depth : Nat) (f : Frame Dissection) :
    Frame Dissection :=
  S.cutOut s (S.cutChildren s (depth + 1)) stretch depth f

def cutLarge (S : Splitter) (s : Statement) (depth : Nat) (f : Frame Dissection) :
    Frame Dissection :=
  if S.oracle.fitsChunk (spanText s.render) then f
  else S.cutPart s (spanText s.render) depth f

theorem cutPart_none {stretch : Text} {f : Frame Dissection}
    (h : Text.cutAt? stretch f.rest = none) (s : Statement) (depth : Nat) :
    S.cutPart s stretch depth f = f.addNote (.notFound s) := by
  simp [cutPart, cutOut, h]

theorem cutPart_some {stretch gap rest : Text} {f : Frame Dissection}
    (h : Text.cutAt? stretch f.rest = some (gap, rest)) (s : Statement) (depth : Nat) :
    S.cutPart s stretch depth f =
      ⟨f.steps ++ [.cut gap stretch (S.dissect s stretch (depth + 1))], rest⟩ := by
  simp [cutPart, cutOut, h, dissect]

theorem cutOversized_eq_foldl (statements : List Statement) (depth : Nat) (f : Frame Dissection) :
    S.cutOversized statements depth f = statements.foldl (fun f s => S.cutLarge s depth f) f := by
  induction statements generalizing f with
  | nil => rfl
  | cons s rest ih => simp only [cutOversized, List.foldl_cons, ih, cutLarge, cutPart]

theorem cutEntries_eq_foldl (entries : List (SwitchEntry Statement)) (depth : Nat)
    (f : Frame Dissection) :
    S.cutEntries entries depth f =
      (entries.flatMap (·.statements)).foldl (fun f s => S.cutLarge s depth f) f := by
  induction entries generalizing f with
  | nil => rfl
  | cons e rest ih =>
    rw [cutEntries, cutOversized_eq_foldl, ih, List.flatMap_cons, List.foldl_append]

theorem cutChildren_eq_foldl (s : Statement) (depth : Nat) (f : Frame Dissection) :
    S.cutChildren s depth f = s.children.foldl (fun f c => S.cutChild c depth f) f := by
  rw [cutChildren_eq_cutEach, cutEach_eq_foldl]

theorem cutChild_fits {s : Statement} (h : S.oracle.fitsChunk (spanText s.render) = true)
    (depth : Nat) (f : Frame Dissection) : S.cutChild s depth f = f := by
  cases s with
  | conditional span condition thenBranch elseBranch =>
    cases elseBranch <;> (rw [cutChild]; simp only [h, if_true])
  | _ =>
    rw [cutChild]
    simp only [h, if_true]

section Oversized

variable (depth : Nat) (f : Frame Dissection)

theorem cutChild_plain {span : Option Span} {text : Text}
    (h : S.oracle.fitsChunk (spanText (Statement.plain span text).render) = false) :
    S.cutChild (.plain span text) depth f =
      S.cutPart (.plain span text) (spanText (Statement.plain span text).render) depth
        (f.addNote (.unhandled (.plain span text))) := by
  rw [cutChild]
  simp only [h, Bool.false_eq_true, if_false]
  rfl

theorem cutChild_block {span : Option Span} {statements : List Statement}
    (h : S.oracle.fitsChunk (spanText (Statement.block span statements).render) = false) :
    S.cutChild (.block span statements) depth f =
      S.cutPart (.block span statements) (spanText (Statement.block span statements).render) depth
        f := by
  rw [cutChild]
  simp only [h, Bool.false_eq_true, if_false]
  rfl

theorem cutChild_other {span : Option Span} {label header : Text} {children : List Statement}
    (h : S.oracle.fitsChunk (spanText (Statement.other span label header children).render) =
      false) :
    S.cutChild (.other span label header children) depth f =
      S.cutPart (.other span label header children)
        (spanText (Statement.other span label header children).render) depth
        (f.addNote (.unhandled (.other span label header children))) := by
  rw [cutChild]
  simp only [h, Bool.false_eq_true, if_false]
  rfl

theorem cutChild_guarded {span : Option Span} {resources : List Text} {body : Statement}
    {clauses : List (CatchClause Statement)} {cleanup : Option Statement}
    (h : S.oracle.fitsChunk
      (spanText (Statement.guarded span resources body clauses cleanup).render) = false) :
    S.cutChild (.guarded span resources body clauses cleanup) depth f =
      S.cutPart body (spanText (Statement.guarded span resources body clauses cleanup).render)
        depth f := by
  rw [cutChild]
  simp only [h, Bool.false_eq_true, if_false]
  rfl

theorem cutChild_headed {span : Option Span} {head : Head} {body : Statement}
    (h : S.oracle.fitsChunk (spanText (Statement.headed span head body).render) = false) :
    S.cutChild (.headed span head body) depth f =
      S.cutPart body (spanText (Statement.headed span head body).render) depth f := by
  rw [cutChild]
  simp only [h, Bool.false_eq_true, if_false]
  rfl

theorem cutChild_switch {span : Option Span} {selector : Text}
    {entries : List (SwitchEntry Statement)}
    (h : S.oracle.fitsChunk (spanText (Statement.switch span selector entries).render) = false) :
    S.cutChild (.switch span selector entries) depth f =
      (entries.flatMap (·.statements)).foldl (fun f s => S.cutLarge s depth f) f := by
  rw [cutChild]
  simp only [h, Bool.false_eq_true, if_false, cutEntries_eq_foldl]

theorem cutChild_conditional_none {span : Option Span} {condition : Text} {thenBranch : Statement}
    (h : S.oracle.fitsChunk
      (spanText (Statement.conditional span condition thenBranch none).render) = false) :
    S.cutChild (.conditional span condition thenBranch none) depth f =
      S.cutPart thenBranch (thenText condition thenBranch) depth f := by
  rw [cutChild]
  simp only [h, Bool.false_eq_true, if_false]
  rfl

theorem cutChild_conditional_one {span : Option Span} {condition : Text}
    {thenBranch other : Statement}
    (h : S.oracle.fitsChunk
      (spanText (Statement.conditional span condition thenBranch (some other)).render) = false)
    (hboth : S.splitsBoth condition thenBranch
      (spanText (Statement.conditional span condition thenBranch (some other)).render) = false) :
    S.cutChild (.conditional span condition thenBranch (some other)) depth f =
      S.cutPart thenBranch
        (spanText (Statement.conditional span condition thenBranch (some other)).render)
        depth f := by
  rw [cutChild]
  simp only [h, hboth, Bool.false_eq_true, if_false]
  rfl

theorem cutChild_conditional_both {span : Option Span} {condition : Text}
    {thenBranch other : Statement}
    (h : S.oracle.fitsChunk
      (spanText (Statement.conditional span condition thenBranch (some other)).render) = false)
    (hboth : S.splitsBoth condition thenBranch
      (spanText (Statement.conditional span condition thenBranch (some other)).render) = true) :
    S.cutChild (.conditional span condition thenBranch (some other)) depth f =
      S.cutPart other (elseText other) depth
        (S.cutPart thenBranch (thenText condition thenBranch) depth f) := by
  rw [cutChild]
  simp only [h, hboth, Bool.false_eq_true, if_false, if_true]
  rfl

end Oversized

structure Walks (S : Splitter) (R : Nat → Frame Dissection → Frame Dissection → Prop) : Prop where
  refl : ∀ depth f, R depth f f
  trans : ∀ {depth f g h}, R depth f g → R depth g h → R depth f h
  unhandled : ∀ s depth f, R depth f (f.addNote (.unhandled s))
  cutPart : ∀ s stretch depth f, (∀ g, R (depth + 1) g (S.cutChildren s (depth + 1) g)) →
    R depth f (S.cutPart s stretch depth f)

namespace Walks

variable {R : Nat → Frame Dissection → Frame Dissection → Prop}

theorem foldl (h : Walks S R) {move : Frame Dissection → Statement → Frame Dissection}
    {depth : Nat} {statements : List Statement}
    (hmove : ∀ s ∈ statements, ∀ f, R depth f (move f s)) (f : Frame Dissection) :
    R depth f (statements.foldl move f) := by
  induction statements generalizing f with
  | nil => exact h.refl depth f
  | cons s rest ih =>
    obtain ⟨hs, hrest⟩ := List.forall_mem_cons.mp hmove
    exact h.trans (hs f) (ih hrest (move f s))

theorem cutLarge (h : Walks S R) {s : Statement} {depth : Nat}
    (hs : ∀ g, R (depth + 1) g (S.cutChildren s (depth + 1) g)) (f : Frame Dissection) :
    R depth f (S.cutLarge s depth f) := by
  rw [Splitter.cutLarge]
  split
  · exact h.refl depth f
  · exact h.cutPart s _ depth f hs

theorem cutChild_of_nested (h : Walks S R) {s : Statement}
    (hself : ∀ depth f, R depth f (S.cutChildren s depth f))
    (hnested : ∀ c ∈ s.nested, ∀ depth f, R depth f (S.cutChildren c depth f)) (depth : Nat)
    (f : Frame Dissection) : R depth f (S.cutChild s depth f) := by
  cases hfit : S.oracle.fitsChunk (spanText s.render) with
  | true =>
    rw [cutChild_fits hfit]
    exact h.refl depth f
  | false =>
    cases s with
    | plain span text =>
      rw [cutChild_plain depth f hfit]
      exact h.trans (h.unhandled _ depth f) (h.cutPart _ _ depth _ (hself (depth + 1)))
    | block span statements =>
      rw [cutChild_block depth f hfit]
      exact h.cutPart _ _ depth f (hself (depth + 1))
    | conditional span condition thenBranch elseBranch =>
      have hthen := hnested thenBranch List.mem_cons_self (depth + 1)
      cases elseBranch with
      | none =>
        rw [cutChild_conditional_none depth f hfit]
        exact h.cutPart _ _ depth f hthen
      | some other =>
        have helse := hnested other (by simp [Statement.nested]) (depth + 1)
        cases hboth : S.splitsBoth condition thenBranch
            (spanText (Statement.conditional span condition thenBranch (some other)).render) with
        | true =>
          rw [cutChild_conditional_both depth f hfit hboth]
          exact h.trans (h.cutPart _ _ depth f hthen) (h.cutPart _ _ depth _ helse)
        | false =>
          rw [cutChild_conditional_one depth f hfit hboth]
          exact h.cutPart _ _ depth f hthen
    | switch span selector entries =>
      rw [cutChild_switch depth f hfit]
      exact h.foldl (fun s hs f => h.cutLarge (hnested s hs (depth + 1)) f) f
    | guarded span resources body clauses cleanup =>
      rw [cutChild_guarded depth f hfit]
      exact h.cutPart _ _ depth f (hnested body List.mem_cons_self (depth + 1))
    | headed span head body =>
      rw [cutChild_headed depth f hfit]
      exact h.cutPart _ _ depth f (hnested body List.mem_cons_self (depth + 1))
    | other span label header children =>
      rw [cutChild_other depth f hfit]
      exact h.trans (h.unhandled _ depth f) (h.cutPart _ _ depth _ (hself (depth + 1)))

theorem cutChild_and_cutChildren (h : Walks S R) (s : Statement) :
    (∀ depth f, R depth f (S.cutChild s depth f)) ∧
      ∀ depth f, R depth f (S.cutChildren s depth f) := by
  induction s using Statement.nestedInduction with
  | step s ih =>
    have hchildren : ∀ depth f, R depth f (S.cutChildren s depth f) := by
      intro depth f
      rw [cutChildren_eq_foldl]
      exact h.foldl (fun c hc => (ih c (Statement.nested_of_mem_children hc)).1 depth) f
    exact ⟨h.cutChild_of_nested hchildren (fun c hc => (ih c hc).2), hchildren⟩

theorem cutChildren (h : Walks S R) (s : Statement) (depth : Nat) (f : Frame Dissection) :
    R depth f (S.cutChildren s depth f) :=
  (h.cutChild_and_cutChildren s).2 depth f

end Walks

end Splitter
end ChunkTree

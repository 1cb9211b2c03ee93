import ChunkTree.Proofs.Split.Places

/-!
Guards. What is cut out of the text of a guard belongs to its protected body: the handlers behind the
body stay in the content of its chunk, and no diagnostic is placed in them.
-/

namespace ChunkTree

def Journal.Avoids (j l : Journal) (places : List Span) : Prop :=
  ∃ new, l.stats.diagnostics = j.stats.diagnostics ++ new ∧
    ∀ x ∈ new, ∀ location place, x.location? = some location → location.span = some place →
      place ∉ places

namespace Splitter

open Text (InOrder)

variable {S : Splitter}

/-- A part made for the body of a guard whose text ends with `tail`. Nothing of the tail was cut out,
and the children that its chunk gets, before the truncation of the content, were made for statements
that a descent from those in the body comes to. -/
structure Protects (S : Splitter) (body : Statement) (tail : Text) (part : Dissection) : Prop where
  statement : part.statement = body
  rest : tail <:+ part.rest
  content : tail <:+ part.frame.content S.placeholder
  children : ∀ j l c, S.settle part j = .ok (c, l) → ∃ children k₁ k₂,
    S.enforce body (part.frame.content S.placeholder) (part.frame.markers S.placeholder) children k₁ =
      .ok (c, k₂) ∧
    List.Forall₂ (fun inner child => (∃ x ∈ body.children, x.Reaches inner.statement) ∧
      ∃ k k', S.settle inner k = .ok (child, k')) part.frame.parts children

theorem render_guarded (span : Option Span) (resources : List Text) (body : Statement)
    (clauses : List (CatchClause Statement)) (cleanup : Option Statement) :
    (Statement.guarded span resources body clauses cleanup).render =
      guardOpening resources ++ (body.render ++ handlersText clauses cleanup) := by
  simp [Statement.render, handlersText]

theorem inOrder_protected {body : Statement} (hbody : ∀ t ∈ body.texts, Text.SingleReturns t)
    (span : Option Span) (resources : List Text) (clauses : List (CatchClause Statement))
    (cleanup : Option Statement) :
    InOrder (body.children.map fun c => spanText c.render)
      (spanText (Statement.guarded span resources body clauses cleanup).render)
      (spanText (handlersText clauses cleanup)) := by
  have hraw : InOrder [body.render] (Statement.guarded span resources body clauses cleanup).render
      (handlersText clauses cleanup) := by
    rw [render_guarded]
    exact ⟨handlersText clauses cleanup, List.suffix_append _ _, List.suffix_refl _⟩
  exact (inOrder_children_span hbody).within (inOrder_spanText hraw)

theorem suffix_rest_dissect (hnil : S.oracle.measure [] = 0) {s : Statement}
    (hs : ∀ t ∈ s.texts, Text.SingleReturns t) {text rest : Text} {depth : Nat}
    (hin : InOrder (s.children.map fun c => spanText c.render) text rest) :
    rest <:+ (S.dissect s text depth).rest := by
  rw [dissect, dissectWith]
  split
  · exact hin.suffix
  · split
    · split <;> exact hin.suffix
    · have hchildren : ∀ c ∈ s.children, ∀ depth f r, InOrder [spanText c.render] f.rest r →
          Advances S depth (S.share c) r f (S.cutChild c depth f) := by
        intro c hc
        have hnested := Statement.nested_of_mem_children hc
        exact (complete_and_advances hnil fun t ht => hs t (Statement.texts_of_nested hnested ht)).2
      exact (cutChildren_advances hchildren hin).rest

theorem protects_dissect (hnil : S.oracle.measure [] = 0) {body : Statement}
    (hbody : ∀ t ∈ body.texts, Text.SingleReturns t) {text tail : Text} {depth : Nat}
    (hin : InOrder (body.children.map fun c => spanText c.render) text tail) :
    S.Protects body tail (S.dissect body text depth) := by
  have hrest : tail <:+ (S.dissect body text depth).rest := suffix_rest_dissect hnil hbody hin
  have hstatement := statement_dissect (S := S) body text depth
  have hparts : ∀ part ∈ (S.dissect body text depth).frame.parts,
      ∃ x ∈ body.children, x.Reaches part.statement := by
    intro part hpart
    obtain ⟨e, he, hsame⟩ := exists_errand_of_part hpart
    rw [hsame]
    exact exists_child_of_mem_agenda he
  generalize S.dissect body text depth = d at hrest hstatement hparts ⊢
  obtain ⟨s, steps, rest⟩ := d
  obtain rfl : s = body := hstatement
  refine ⟨rfl, hrest, hrest.trans (List.suffix_append _ _), ?_⟩
  intro j l c hrun
  obtain ⟨children, k₁, k₂, hsteps, henforce, -⟩ := settle_eq_ok hrun
  have hsettled := forall₂_of_settleSteps hsteps
  exact ⟨children, k₁, k₂, henforce, (List.forall₂_and_left _ _).mpr ⟨hparts, hsettled⟩⟩

theorem avoids_of_decompose {s t : Statement} (hdistinct : s.spans.Nodup) (ht : t ∈ s.subtree)
    {rendered : Text} {j l : Journal} {c : Chunk} (h : S.decompose s rendered j = .ok (c, l)) :
    j.Avoids l (t.handlers.flatMap Statement.spans) := by
  obtain ⟨new, hnew, hreached⟩ := (reached_of_decompose h).appends
  refine ⟨new, hnew, ?_⟩
  intro x hx location place hlocation hspan hplace
  obtain ⟨y, hy, hlocated⟩ := hreached x hx
  rw [hlocation] at hlocated
  obtain rfl := Option.some.inj hlocated
  obtain ⟨d, hd, hinside⟩ := List.mem_flatMap.mp hplace
  obtain ⟨z, hz, hsame⟩ := List.mem_filterMap.mp hinside
  exact Statement.span_ne_of_handler hdistinct hy ht hd hz hsame hspan

theorem part_of_cutPart {s : Statement} {stretch gap stretch' : Text} {depth : Nat}
    {f : Frame Dissection} {part : Dissection}
    (h : (S.cutPart s stretch depth f).steps = f.steps ++ [.cut gap stretch' part]) :
    stretch' = stretch ∧ part = S.dissect s stretch (depth + 1) := by
  cases hc : Text.cutAt? stretch f.rest with
  | none =>
    rw [cutPart_none hc] at h
    cases List.append_cancel_left h
  | some r =>
    rw [cutPart_some hc] at h
    cases List.append_cancel_left h
    exact ⟨rfl, rfl⟩

theorem exists_cut_of_mem_agenda (hnil : S.oracle.measure [] = 0) {s x : Statement}
    (hs : ∀ t ∈ s.texts, Text.SingleReturns t) {stretch text : Text} {depth : Nat}
    (hin : InOrder (s.children.map fun c => spanText c.render) text [])
    (hdepth : depth < S.maxDepth) (hover : S.oracle.fitsChunk text = false)
    (he : .cut x stretch ∈ S.agenda s) :
    ∃ gap, .cut gap stretch (S.dissect x stretch (depth + 1)) ∈ (S.dissect s text depth).steps := by
  have hanswered := (complete_and_advances hnil hs).1 depth text hin _
    (Dissection.self_mem_nodes depth _)
  obtain ⟨steps, rest, hd, hall⟩ := dissect_opened hover hdepth s
  rw [hd] at hanswered ⊢
  obtain ⟨step, hstep, hleads⟩ := exists_mem_of_forall₂ hall.flip he
  have hmem := List.mem_cons_of_mem (Step.note (.opened s depth)) hstep
  cases hleads with
  | notFound => exact absurd hmem (hanswered.found x)
  | cut x gap h => exact ⟨gap, hmem⟩

theorem avoids_of_splitUnit {u : SourceUnit} {t : Statement}
    (hdistinct : (locatedBody u).spans.Nodup) (ht : t ∈ (locatedBody u).subtree) {j l : Journal}
    {c : Chunk} (h : S.splitUnit u j = .ok (c, l)) :
    j.Avoids l (t.handlers.flatMap Statement.spans) := by
  rcases splitUnit_eq_ok h with ⟨-, -, rfl⟩ | ⟨-, hrun⟩
  · exact ⟨[], (List.append_nil _).symm, List.forall_mem_nil _⟩
  · have hlogged := avoids_of_decompose hdistinct ht hrun
    exact hlogged

theorem handlers_kept (hnil : S.oracle.measure [] = 0) {t : Statement} {span : Option Span}
    {resources : List Text} {body : Statement} {clauses : List (CatchClause Statement)}
    {cleanup : Option Statement} (ht : t = .guarded span resources body clauses cleanup)
    (htexts : ∀ u ∈ t.texts, ¬ ['\r', '\r'] <:+: u)
    (hover : S.oracle.fitsChunk (spanText t.render) = false) :
    (∀ depth f gap stretch part, (S.cutChild t depth f).steps = f.steps ++ [.cut gap stretch part] →
      stretch = spanText t.render ∧
        S.Protects body (spanText (handlersText clauses cleanup)) part) ∧
    (∀ s depth text, t ∈ s.children → depth < S.maxDepth →
      (∀ u ∈ s.texts, ¬ ['\r', '\r'] <:+: u) →
      text = Text.flatten s.render ∨ text = spanText s.render →
      S.oracle.fitsChunk text = false →
      ∃ gap part, .cut gap (spanText t.render) part ∈ (S.dissect s text depth).steps ∧
        S.Protects body (spanText (handlersText clauses cleanup)) part) ∧
    (∀ s rendered j l c, t ∈ s.subtree → s.spans.Nodup →
      S.decompose s rendered j = .ok (c, l) →
      j.Avoids l (t.handlers.flatMap Statement.spans)) ∧
    ∀ u j l c, t ∈ (locatedBody u).subtree → (locatedBody u).spans.Nodup →
      S.splitUnit u j = .ok (c, l) → j.Avoids l (t.handlers.flatMap Statement.spans) := by
  have hbody : ∀ u ∈ body.texts, Text.SingleReturns u := by
    intro u hu
    refine Text.singleReturns_iff.mpr (htexts u ?_)
    rw [ht]
    exact Statement.texts_of_nested List.mem_cons_self hu
  have hprotects : ∀ depth, S.Protects body (spanText (handlersText clauses cleanup))
      (S.dissect body (spanText t.render) depth) := by
    intro depth
    apply protects_dissect hnil hbody
    rw [ht]
    exact inOrder_protected hbody span resources clauses cleanup
  have hcut : ∀ depth f, S.cutChild t depth f = S.cutPart body (spanText t.render) depth f := by
    intro depth f
    rw [ht] at hover ⊢
    exact cutChild_guarded depth f hover
  refine ⟨?_, ?_, ?_, ?_⟩
  · intro depth f gap stretch part hsteps
    rw [hcut] at hsteps
    obtain ⟨rfl, rfl⟩ := part_of_cutPart hsteps
    exact ⟨rfl, hprotects (depth + 1)⟩
  · intro s depth text hchild hdepth hs htext hopened
    have hsingle : ∀ u ∈ s.texts, Text.SingleReturns u :=
      fun u hu => Text.singleReturns_iff.mpr (hs u hu)
    have hin : InOrder (s.children.map fun c => spanText c.render) text [] := by
      rcases htext with rfl | rfl
      · exact inOrder_children hsingle
      · exact inOrder_children_span hsingle
    have herrand : .cut body (spanText t.render) ∈ S.agenda s := by
      refine List.mem_flatMap.mpr ⟨t, hchild, ?_⟩
      rw [errands, hover, if_neg Bool.false_ne_true, ht]
      exact List.mem_cons_self
    obtain ⟨gap, hmem⟩ := exists_cut_of_mem_agenda hnil hsingle hin hdepth hopened herrand
    exact ⟨gap, _, hmem, hprotects (depth + 1)⟩
  · intro s rendered j l c hmem hdistinct hrun
    exact avoids_of_decompose hdistinct hmem hrun
  · intro u j l c hmem hdistinct hrun
    exact avoids_of_splitUnit hdistinct hmem hrun

def repeatedStep (line : UInt64) : Statement :=
  .block (some (lineSpan line)) [.plain (some (lineSpan (line + 1))) "first_step();".toList]

def repeatedGuard : Statement :=
  .guarded (some (lineSpan 2)) [] (repeatedStep 3) [⟨"Fault e".toList, repeatedStep 5⟩]
    (some (repeatedStep 7))

def guardedUnit : SourceUnit :=
  ⟨"run".toList, "void run()".toList, .block none [repeatedGuard], some (lineSpan 1)⟩

def guardSplitter : Splitter :=
  ⟨Oracle.ofMetric Metric.chars ⟨60, 12⟩ .hard, "<B>".toList, 4, some "run".toList⟩

set_option maxRecDepth 4096 in
theorem handlers_kept_repeatedGuard :
    (∃ part, (guardSplitter.cutChild repeatedGuard 0
          (Frame.start (spanText repeatedGuard.render))).steps =
        [.cut [] (spanText repeatedGuard.render) part] ∧
      part.frame.content guardSplitter.placeholder =
        "try { <B> } catch (Fault e) { first_step(); } finally { first_step(); }".toList ∧
      guardSplitter.Protects (repeatedStep 3)
        "catch (Fault e) { first_step(); } finally { first_step(); }".toList part) ∧
    (∃ gap part, .cut gap (spanText repeatedGuard.render) part ∈
        (guardSplitter.dissect guardedUnit.body (Text.flatten guardedUnit.body.render) 0).steps ∧
      guardSplitter.Protects (repeatedStep 3)
        "catch (Fault e) { first_step(); } finally { first_step(); }".toList part) ∧
    (∃ c l, guardSplitter.decompose guardedUnit.body guardedUnit.body.render Journal.empty =
        .ok (c, l) ∧
      l.stats.diagnostics.map Diagnostic.location? =
        [some (lineSpan 4), some (lineSpan 3)].map
          (fun span => some ⟨some "run".toList, span⟩) ∧
      Journal.empty.Avoids l ([5, 6, 7, 8].map lineSpan)) ∧
    ∃ c l, guardSplitter.splitUnit guardedUnit Journal.empty = .ok (c, l) ∧
      Journal.empty.Avoids l ([5, 6, 7, 8].map lineSpan) := by
  have htexts : ∀ u ∈ repeatedGuard.texts, ¬ ['\r', '\r'] <:+: u := by decide +kernel
  have hbody : ∀ u ∈ guardedUnit.body.texts, ¬ ['\r', '\r'] <:+: u := by decide +kernel
  obtain ⟨hcut, hfound, hrun, hunit⟩ :=
    handlers_kept (S := guardSplitter) (t := repeatedGuard) rfl rfl htexts rfl
  refine ⟨⟨_, rfl, rfl, ?_⟩, ?_, ⟨_, _, rfl, rfl, ?_⟩, _, _, rfl, ?_⟩
  · exact (hcut 0 (Frame.start (spanText repeatedGuard.render)) _ _ _ rfl).2
  · exact hfound guardedUnit.body 0 _ List.mem_cons_self (by decide) hbody (.inl rfl) rfl
  · have hinside : repeatedGuard ∈ guardedUnit.body.subtree :=
      Statement.mem_subtree_of_nested List.mem_cons_self (Statement.self_mem_subtree _)
    exact hrun guardedUnit.body guardedUnit.body.render _ _ _ hinside (by decide +kernel) rfl
  · have hinside : repeatedGuard ∈ (locatedBody guardedUnit).subtree :=
      Statement.mem_subtree_of_nested List.mem_cons_self (Statement.self_mem_subtree _)
    exact hunit guardedUnit _ _ _ hinside (by decide +kernel) rfl

end Splitter
end ChunkTree

import ChunkTree.Proofs.Split.Exact
import ChunkTree.Proofs.Split.Settling
import ChunkTree.Proofs.Statement.Children
import ChunkTree.Proofs.Text.Flat
import Mathlib.Algebra.GroupWithZero.Nat

/-!
A statement split on its own rendering. Every stretch that the walk looks for is there, since the
words still to be cut out stand in order in the text that the cuts so far have left over.
-/

namespace ChunkTree

def Diagnostic.isSpanNotFound : Diagnostic → Bool
  | spanNotFound .. => true
  | _ => false

def Journal.AllFound (j l : Journal) : Prop :=
  ∃ new, l.stats.diagnostics = j.stats.diagnostics ++ new ∧ ∀ x ∈ new, x.isSpanNotFound = false

namespace Journal.AllFound

theorem refl (j : Journal) : j.AllFound j := ⟨[], (List.append_nil _).symm, List.forall_mem_nil _⟩

theorem record {j l : Journal} {x : Diagnostic} (hx : x.isSpanNotFound = false)
    (h : l.stats.diagnostics = j.stats.diagnostics ++ [x]) : j.AllFound l :=
  ⟨[x], h, by simpa using hx⟩

theorem trans {j k l : Journal} (hjk : j.AllFound k) (hkl : k.AllFound l) : j.AllFound l := by
  obtain ⟨new, hk, hnew⟩ := hjk
  obtain ⟨more, hl, hmore⟩ := hkl
  refine ⟨new ++ more, ?_, List.forall_mem_append.mpr ⟨hnew, hmore⟩⟩
  rw [hl, hk, List.append_assoc]

end Journal.AllFound

namespace Dissection

mutual

def nodes (depth : Nat) : Dissection → List (Nat × Dissection)
  | ⟨s, steps, rest⟩ => (depth, ⟨s, steps, rest⟩) :: nodesIn (depth + 1) steps

def nodesIn (depth : Nat) : List (Step Dissection) → List (Nat × Dissection)
  | [] => []
  | .note _ :: rest => nodesIn depth rest
  | .cut _ _ part :: rest => part.nodes depth ++ nodesIn depth rest

end

theorem nodesIn_append (depth : Nat) (steps more : List (Step Dissection)) :
    nodesIn depth (steps ++ more) = nodesIn depth steps ++ nodesIn depth more := by
  induction steps with
  | nil => rfl
  | cons step steps ih =>
    cases step with
    | note n => exact ih
    | cut gap stretch part =>
      rw [List.cons_append, nodesIn, nodesIn, ih, List.append_assoc]

theorem self_mem_nodes (depth : Nat) (d : Dissection) : (depth, d) ∈ d.nodes depth := by
  cases d
  exact List.mem_cons_self

end Dissection

namespace Splitter

variable {S : Splitter}

def cuts (S : Splitter) : Statement → Nat
  | .switch _ _ entries =>
    (entries.flatMap (·.statements)).countP (fun s => !S.oracle.fitsChunk (spanText s.render))
  | .conditional span condition thenBranch (some other) =>
    if S.splitsBoth condition thenBranch
      (spanText (Statement.conditional span condition thenBranch (some other)).render) then 2 else 1
  | _ => 1

def share (S : Splitter) (s : Statement) : Nat :=
  if S.oracle.fitsChunk (spanText s.render) then 0 else S.cuts s

def shares (S : Splitter) (s : Statement) : Nat := (s.children.map S.share).sum

/-- Nothing was missed in a dissection made at this depth, and if its children were gone over then it
has all the parts that they ask for, each of which settles to one chunk. -/
structure Answered (S : Splitter) (depth : Nat) (d : Dissection) : Prop where
  found : ∀ s, .note (.notFound s) ∉ d.steps
  parts : depth < S.maxDepth → S.oracle.fitsChunk d.text = false →
    d.frame.parts.length = S.shares d.statement
  chunks : depth < S.maxDepth → S.oracle.fitsChunk d.text = false →
    ∀ j chunks k, S.settleSteps d.steps j = .ok (chunks, k) → chunks.length = S.shares d.statement

structure Sound (S : Splitter) (depth n : Nat) (steps : List (Step Dissection)) : Prop where
  found : ∀ s, .note (.notFound s) ∉ steps
  nodes : ∀ p ∈ Dissection.nodesIn (depth + 1) steps, S.Answered p.1 p.2
  parts : (steps.filterMap Step.part?).length = n

namespace Sound

variable {depth n : Nat} {steps : List (Step Dissection)}

theorem nil (S : Splitter) (depth : Nat) : Sound S depth 0 [] :=
  ⟨fun _ => List.not_mem_nil, List.forall_mem_nil _, rfl⟩

theorem note (h : Sound S depth n steps) {r : Note} (hr : ∀ s, r ≠ .notFound s) :
    Sound S depth n (steps ++ [.note r]) where
  found s hs := by
    rcases List.mem_append.mp hs with hs | hs
    · exact h.found s hs
    · have hsame : Note.notFound s = r := by simpa using hs
      exact hr s hsame.symm
  nodes p hp := by
    rw [Dissection.nodesIn_append] at hp
    rcases List.mem_append.mp hp with hp | hp
    · exact h.nodes p hp
    · cases hp
  parts := by simp [List.filterMap_cons, Step.part?, h.parts]

theorem cut (h : Sound S depth n steps) (gap stretch : Text) {part : Dissection}
    (hpart : ∀ p ∈ part.nodes (depth + 1), S.Answered p.1 p.2) :
    Sound S depth (n + 1) (steps ++ [.cut gap stretch part]) where
  found s hs := by
    rcases List.mem_append.mp hs with hs | hs
    · exact h.found s hs
    · simp at hs
  nodes p hp := by
    rw [Dissection.nodesIn_append] at hp
    rcases List.mem_append.mp hp with hp | hp
    · exact h.nodes p hp
    · rw [Dissection.nodesIn, Dissection.nodesIn, List.append_nil] at hp
      exact hpart p hp
  parts := by simpa [Step.part?] using h.parts

end Sound

structure Advances (S : Splitter) (depth n : Nat) (r : Text) (f g : Frame Dissection) : Prop where
  sound : ∀ m, Sound S depth m f.steps → Sound S depth (m + n) g.steps
  rest : r <:+ g.rest

namespace Advances

variable {depth m n : Nat} {r u : Text} {f g h : Frame Dissection}

theorem refl (hr : r <:+ f.rest) : Advances S depth 0 r f f := ⟨fun _ hs => hs, hr⟩

theorem trans (hfg : Advances S depth m u f g) (hgh : Advances S depth n r g h) :
    Advances S depth (m + n) r f h := by
  refine ⟨fun k hs => ?_, hgh.rest⟩
  have hg := hfg.sound k hs
  rw [← Nat.add_assoc]
  exact hgh.sound (k + m) hg

theorem unhandled (s : Statement) (hr : r <:+ f.rest) :
    Advances S depth 0 r f (f.addNote (.unhandled s)) :=
  ⟨fun _ hs => hs.note (by simp), hr⟩

theorem cutPart {s : Statement} {stretch : Text} (hnil : stretch ≠ [])
    (hin : Text.InOrder [stretch] f.rest r)
    (hs : ∀ p ∈ (S.dissect s stretch (depth + 1)).nodes (depth + 1), S.Answered p.1 p.2) :
    Advances S depth 1 r f (S.cutPart s stretch depth f) := by
  obtain ⟨u, hu, hr⟩ := hin
  -- the stretch may be found at an earlier place, which leaves more of the text and not less
  obtain ⟨gap, rest, hcut, hrest⟩ := Text.cutAt?_of_suffix hnil hu
  rw [cutPart_some hcut]
  exact ⟨fun _ hf => hf.cut gap stretch hs, List.IsSuffix.trans hr hrest⟩

theorem foldl {move : Frame Dissection → Statement → Frame Dissection} {count : Statement → Nat}
    {statements : List Statement}
    (hmove : ∀ s ∈ statements, ∀ f r, Text.InOrder [spanText s.render] f.rest r →
      Advances S depth (count s) r f (move f s))
    (hin : Text.InOrder (statements.map fun s => spanText s.render) f.rest r) :
    Advances S depth (statements.map count).sum r f (statements.foldl move f) := by
  induction statements generalizing f with
  | nil => exact refl hin
  | cons s rest ih =>
    obtain ⟨hs, hrest⟩ := List.forall_mem_cons.mp hmove
    obtain ⟨u, hu, hwords⟩ := hin
    have hfirst := hs f u ⟨u, hu, List.suffix_refl u⟩
    have hothers := ih hrest (hwords.mono hfirst.rest)
    exact hfirst.trans hothers

end Advances

theorem ne_nil_of_oversized (hnil : S.oracle.measure [] = 0) {t : Text}
    (h : S.oracle.fitsChunk t = false) : t ≠ [] := by
  rintro rfl
  rw [Oracle.fitsChunk, hnil] at h
  simp at h

theorem statement_dissect (s : Statement) (text : Text) (depth : Nat) :
    (S.dissect s text depth).statement = s := by
  rw [dissect, dissectWith]
  split
  · rfl
  · split
    · split <;> rfl
    · rfl

theorem dissect_sound {s : Statement} {text : Text} {depth : Nat}
    (hwalk : ∀ f, f.rest = text → Advances S depth (S.shares s) [] f (S.cutChildren s depth f)) :
    ∃ n, Sound S depth n (S.dissect s text depth).steps ∧
      (depth < S.maxDepth → S.oracle.fitsChunk text = false → n = S.shares s) := by
  rw [dissect, dissectWith]
  split
  · rename_i hfit
    exact ⟨0, Sound.nil S depth, fun _ hover => absurd hfit (by simp [hover])⟩
  · split
    · rename_i hdeep
      refine ⟨0, ?_, fun hdepth => absurd hdepth (Nat.not_lt.mpr hdeep)⟩
      split
      · exact Sound.nil S depth
      · exact (Sound.nil S depth).note (by simp)
    · have hopened : Sound S depth 0 ((Frame.start text).addNote (.opened s depth)).steps :=
        (Sound.nil S depth).note (by simp)
      have hsound := (hwalk ((Frame.start text).addNote (.opened s depth)) rfl).sound 0 hopened
      exact ⟨0 + S.shares s, hsound, fun _ _ => Nat.zero_add _⟩

theorem dissect_answered {s : Statement} {text : Text} {depth : Nat}
    (hwalk : ∀ f, f.rest = text → Advances S depth (S.shares s) [] f (S.cutChildren s depth f)) :
    ∀ p ∈ (S.dissect s text depth).nodes depth, S.Answered p.1 p.2 := by
  obtain ⟨n, hsound, hshares⟩ := dissect_sound hwalk
  have htext := text_dissect (S := S) s text depth
  have hstatement := statement_dissect (S := S) s text depth
  generalize S.dissect s text depth = d at hsound htext hstatement ⊢
  obtain ⟨s', steps, rest⟩ := d
  subst hstatement htext
  rw [Dissection.nodes]
  refine List.forall_mem_cons.mpr ⟨⟨hsound.found, ?_, ?_⟩, hsound.nodes⟩
  · intro hdepth hover
    exact hsound.parts.trans (hshares hdepth hover)
  · intro hdepth hover j chunks k hsettled
    rw [length_of_settleSteps hsettled]
    exact hsound.parts.trans (hshares hdepth hover)

theorem sum_oversized (S : Splitter) (statements : List Statement) :
    (statements.map fun s => if S.oracle.fitsChunk (spanText s.render) then 0 else 1).sum =
      statements.countP (fun s => !S.oracle.fitsChunk (spanText s.render)) := by
  induction statements with
  | nil => rfl
  | cons s rest ih =>
    rw [List.map_cons, List.sum_cons, List.countP_cons, ih]
    cases S.oracle.fitsChunk (spanText s.render) <;> simp [Nat.add_comm]

def Complete (S : Splitter) (s : Statement) : Prop :=
  ∀ depth text, Text.InOrder (s.children.map fun c => spanText c.render) text [] →
    ∀ p ∈ (S.dissect s text depth).nodes depth, S.Answered p.1 p.2

theorem cutLarge_advances (hnil : S.oracle.measure [] = 0) {s : Statement}
    (hs : ∀ t ∈ s.texts, Text.SingleReturns t) (hcomplete : S.Complete s) {depth : Nat}
    {f : Frame Dissection} {r : Text} (hin : Text.InOrder [spanText s.render] f.rest r) :
    Advances S depth (if S.oracle.fitsChunk (spanText s.render) then 0 else 1) r f
      (S.cutLarge s depth f) := by
  rw [cutLarge]
  cases hfit : S.oracle.fitsChunk (spanText s.render) with
  | true => exact Advances.refl (hin.tail)
  | false =>
    exact Advances.cutPart (ne_nil_of_oversized hnil hfit) hin
      (hcomplete (depth + 1) _ (inOrder_children_span hs))

theorem branches_advance {span : Option Span} {condition : Text} {thenBranch other : Statement}
    {depth : Nat} {f : Frame Dissection} {r : Text}
    (hthen : ∀ p ∈ (S.dissect thenBranch (thenText condition thenBranch) (depth + 1)).nodes
      (depth + 1), S.Answered p.1 p.2)
    (helse : ∀ p ∈ (S.dissect other (elseText other) (depth + 1)).nodes (depth + 1),
      S.Answered p.1 p.2)
    (hin : Text.InOrder
      [spanText (Statement.conditional span condition thenBranch (some other)).render] f.rest r) :
    Advances S depth 2 r f (S.cutPart other (elseText other) depth
      (S.cutPart thenBranch (thenText condition thenBranch) depth f)) := by
  obtain ⟨u, hu, hother⟩ := (inOrder_branches span condition thenBranch other).within hin
  have hfirst := Advances.cutPart (thenText_ne_nil condition thenBranch)
    (show Text.InOrder [thenText condition thenBranch] f.rest u from ⟨u, hu, List.suffix_refl u⟩)
    hthen
  have hsecond := Advances.cutPart (elseText_ne_nil other) (hother.mono hfirst.rest) helse
  exact hfirst.trans hsecond

theorem cutChild_advances (hnil : S.oracle.measure [] = 0) {s : Statement}
    (hs : ∀ t ∈ s.texts, Text.SingleReturns t) (hself : S.Complete s)
    (hnested : ∀ c ∈ s.nested, S.Complete c) {depth : Nat} {f : Frame Dissection} {r : Text}
    (hin : Text.InOrder [spanText s.render] f.rest r) :
    Advances S depth (S.share s) r f (S.cutChild s depth f) := by
  have htexts : ∀ c ∈ s.nested, ∀ t ∈ c.texts, Text.SingleReturns t :=
    fun c hc t ht => hs t (Statement.texts_of_nested hc ht)
  rw [share]
  cases hfit : S.oracle.fitsChunk (spanText s.render) with
  | true =>
    rw [cutChild_fits hfit]
    exact Advances.refl hin.tail
  | false =>
    have hne := ne_nil_of_oversized hnil hfit
    have hown := hself (depth + 1) _ (inOrder_children_span hs)
    have hpart : ∀ c ∈ s.nested, ∀ t, c.render <:+: t →
        ∀ p ∈ (S.dissect c (spanText t) (depth + 1)).nodes (depth + 1), S.Answered p.1 p.2 :=
      fun c hc t ht => hnested c hc (depth + 1) _ (inOrder_children_of_isInfix (htexts c hc) ht)
    cases s with
    | plain span text =>
      rw [cutChild_plain depth f hfit]
      exact (Advances.unhandled _ (List.suffix_refl f.rest)).trans (Advances.cutPart hne hin hown)
    | block span statements =>
      rw [cutChild_block depth f hfit]
      exact Advances.cutPart hne hin hown
    | conditional span condition thenBranch elseBranch =>
      have hthen := hpart thenBranch List.mem_cons_self
      cases elseBranch with
      | none =>
        rw [cutChild_conditional_none depth f hfit, ← spanText_conditional_none]
        exact Advances.cutPart hne hin (hthen _ (isInfix_conditional span condition thenBranch none))
      | some other =>
        have helse := hpart other (by simp [Statement.nested])
        cases hboth : S.splitsBoth condition thenBranch
            (spanText (Statement.conditional span condition thenBranch (some other)).render) with
        | true =>
          rw [cutChild_conditional_both depth f hfit hboth, cuts, if_pos hboth]
          exact branches_advance (hthen _ (List.suffix_append _ _).isInfix)
            (helse _ (List.suffix_append _ _).isInfix) hin
        | false =>
          rw [cutChild_conditional_one depth f hfit hboth, cuts, hboth]
          exact Advances.cutPart hne hin
            (hthen _ (isInfix_conditional span condition thenBranch (some other)))
    | switch span selector entries =>
      rw [cutChild_switch depth f hfit, cuts, ← sum_oversized]
      refine Advances.foldl (fun c hc f r hc' => ?_) ((inOrder_entries hs).within hin)
      exact cutLarge_advances hnil (htexts c hc) (hnested c hc) hc'
    | guarded span resources body clauses cleanup =>
      rw [cutChild_guarded depth f hfit]
      exact Advances.cutPart hne hin
        (hpart body List.mem_cons_self _ (isInfix_guarded span resources body clauses cleanup))
    | headed span head body =>
      rw [cutChild_headed depth f hfit]
      exact Advances.cutPart hne hin
        (hpart body List.mem_cons_self _ (isInfix_headed span head body))
    | other span label header children =>
      rw [cutChild_other depth f hfit]
      exact (Advances.unhandled _ (List.suffix_refl f.rest)).trans (Advances.cutPart hne hin hown)

theorem cutChildren_advances {s : Statement}
    (hchildren : ∀ c ∈ s.children, ∀ depth f r, Text.InOrder [spanText c.render] f.rest r →
      Advances S depth (S.share c) r f (S.cutChild c depth f)) {depth : Nat} {f : Frame Dissection}
    {r : Text} (hin : Text.InOrder (s.children.map fun c => spanText c.render) f.rest r) :
    Advances S depth (S.shares s) r f (S.cutChildren s depth f) := by
  rw [cutChildren_eq_foldl, shares]
  exact Advances.foldl (fun c hc => hchildren c hc depth) hin

theorem complete_of_children {s : Statement}
    (hchildren : ∀ c ∈ s.children, ∀ depth f r, Text.InOrder [spanText c.render] f.rest r →
      Advances S depth (S.share c) r f (S.cutChild c depth f)) : S.Complete s := by
  intro depth text hin
  refine dissect_answered fun f hf => ?_
  rw [← hf] at hin
  exact cutChildren_advances hchildren hin

theorem complete_and_advances (hnil : S.oracle.measure [] = 0) {s : Statement}
    (hs : ∀ t ∈ s.texts, Text.SingleReturns t) :
    S.Complete s ∧ ∀ depth f r, Text.InOrder [spanText s.render] f.rest r →
      Advances S depth (S.share s) r f (S.cutChild s depth f) := by
  induction s using Statement.nestedInduction with
  | step s ih =>
    have hinner : ∀ c ∈ s.nested, S.Complete c ∧ ∀ depth f r,
        Text.InOrder [spanText c.render] f.rest r →
        Advances S depth (S.share c) r f (S.cutChild c depth f) :=
      fun c hc => ih c hc fun t ht => hs t (Statement.texts_of_nested hc ht)
    have hself : S.Complete s :=
      complete_of_children fun c hc => (hinner c (Statement.nested_of_mem_children hc)).2
    refine ⟨hself, fun depth f r hin => ?_⟩
    exact cutChild_advances hnil hs hself (fun c hc => (hinner c hc).1) hin

theorem allFound_noteInto (j : Journal) {n : Note} (h : ∀ s, n ≠ .notFound s) :
    j.AllFound (S.noteInto j n) := by
  cases n with
  | opened s depth => exact Journal.AllFound.refl j
  | tooDeep s depth => exact Journal.AllFound.record rfl rfl
  | unhandled s => exact Journal.AllFound.record rfl rfl
  | notFound s => exact absurd rfl (h s)

theorem allFound_enforce {s : Statement} {content : Text} {markers : List Nat}
    {children : List Chunk} {j k : Journal} {c : Chunk}
    (h : S.enforce s content markers children j = .ok (c, k)) : j.AllFound (countChunk k) := by
  rcases enforce_eq_ok h with ⟨-, -, rfl⟩ | ⟨cut, -, -, -, -, hstats⟩
  · exact Journal.AllFound.refl k
  · refine Journal.AllFound.record (x := .truncated (S.location s) content cut
      (S.oracle.measure content - S.oracle.measure cut)) rfl ?_
    change k.stats.diagnostics = _
    rw [hstats]
    rfl

theorem allFound_of_settle : Settles S
    (fun d j _ l => ∀ n, (∀ p ∈ d.nodes n, ∀ s, .note (.notFound s) ∉ p.2.steps) → j.AllFound l)
    (fun steps j _ l => (∀ s, .note (.notFound s) ∉ steps) → ∀ n,
      (∀ p ∈ Dissection.nodesIn n steps, ∀ s, .note (.notFound s) ∉ p.2.steps) → j.AllFound l) where
  nil j _ _ _ := Journal.AllFound.refl j
  note r rest j cs l ih hsteps n hnodes := by
    have hr : ∀ s, r ≠ .notFound s := fun s hs => hsteps s (by simp [hs])
    have hrest := ih (fun s hs => hsteps s (List.mem_cons_of_mem _ hs)) n hnodes
    exact (allFound_noteInto j hr).trans hrest
  cut gap stretch part rest j c k cs l hpart hrest hsteps n hnodes := by
    rw [Dissection.nodesIn] at hnodes
    obtain ⟨hin, hafter⟩ := List.forall_mem_append.mp hnodes
    exact (hpart n hin).trans (hrest (fun s hs => hsteps s (List.mem_cons_of_mem _ hs)) n hafter)
  node s steps rest j children k₁ c k₂ _ hsteps henforce n hnodes := by
    rw [Dissection.nodes] at hnodes
    obtain ⟨hroot, hin⟩ := List.forall_mem_cons.mp hnodes
    exact (hsteps hroot (n + 1) hin).trans (allFound_enforce henforce)

theorem texts_locatedBody (u : SourceUnit) : (locatedBody u).texts = u.body.texts := by
  rw [locatedBody]
  split
  · exact Statement.texts_withSpan _ _
  · rfl

theorem render_locatedBody (u : SourceUnit) : (locatedBody u).render = u.body.render := by
  rw [locatedBody]
  split
  · exact Statement.render_withSpan _ _
  · rfl

theorem splits_answered (S : Splitter) (hnil : S.oracle.measure [] = 0) :
    (∀ s : Statement, (∀ t ∈ s.texts, ¬ ['\r', '\r'] <:+: t) →
      (∀ p ∈ (S.dissect s (Text.flatten s.render) 0).nodes 0, S.Answered p.1 p.2) ∧
      ∀ (j l : Journal) (c : Chunk), S.decompose s s.render j = .ok (c, l) → j.AllFound l) ∧
    ∀ u : SourceUnit, (∀ t ∈ u.body.texts, ¬ ['\r', '\r'] <:+: t) →
      (∀ p ∈ (S.dissect (locatedBody u) (Text.flatten (Text.flatten u.body.render)) 0).nodes 0,
        S.Answered p.1 p.2) ∧
      ∀ (j l : Journal) (c : Chunk), S.splitUnit u j = .ok (c, l) → j.AllFound l := by
  have hdissect : ∀ s : Statement, (∀ t ∈ s.texts, ¬ ['\r', '\r'] <:+: t) →
      ∀ p ∈ (S.dissect s (Text.flatten s.render) 0).nodes 0, S.Answered p.1 p.2 := by
    intro s hs
    have htexts : ∀ t ∈ s.texts, Text.SingleReturns t :=
      fun t ht => Text.singleReturns_iff.mpr (hs t ht)
    exact (complete_and_advances hnil htexts).1 0 _ (inOrder_children htexts)
  have hsettle : ∀ (d : Dissection) (j l : Journal) (c : Chunk),
      (∀ p ∈ d.nodes 0, S.Answered p.1 p.2) → S.settle d j = .ok (c, l) → j.AllFound l :=
    fun d j l c hd hrun => allFound_of_settle.settle hrun 0 fun p hp => (hd p hp).found
  refine ⟨fun s hs => ⟨hdissect s hs, fun j l c => hsettle _ j l c (hdissect s hs)⟩, fun u hu => ?_⟩
  have hbody : ∀ p ∈
      (S.dissect (locatedBody u) (Text.flatten (Text.flatten u.body.render)) 0).nodes 0,
      S.Answered p.1 p.2 := by
    rw [← texts_locatedBody] at hu
    rw [Text.flatten_flatten, ← render_locatedBody]
    exact hdissect (locatedBody u) hu
  refine ⟨hbody, fun j l c hrun => ?_⟩
  rcases splitUnit_eq_ok hrun with ⟨-, -, rfl⟩ | ⟨-, hrun⟩
  · exact Journal.AllFound.refl j
  · have hlogged := hsettle _ _ l c hbody hrun
    exact hlogged

def branchSplitter : Splitter :=
  ⟨Oracle.ofMetric Metric.chars ⟨100, 12⟩ .hard, "<B>".toList, 4, none⟩

def branchBody : Statement :=
  .block none
    [.conditional none "ready()".toList (.block none [.plain none "advance();".toList])
        (some (.block none [.plain none "retreat();".toList])),
      .switch none "mode".toList
        [⟨["1".toList], [.plain none "first_step();".toList, .plain none "go();".toList]⟩,
          ⟨[], [.plain none "second_step();".toList]⟩]]

set_option maxRecDepth 4096 in
theorem splits_answered_branchBody :
    (∃ chunks k, branchSplitter.settleSteps
        (branchSplitter.dissect branchBody (Text.flatten branchBody.render) 0).steps Journal.empty =
          .ok (chunks, k) ∧
      chunks.length = branchSplitter.shares branchBody ∧ branchSplitter.shares branchBody = 4) ∧
    ∃ c l, branchSplitter.splitUnit ⟨"run".toList, "void run()".toList, branchBody, none⟩
        Journal.empty = .ok (c, l) ∧ c.nodeCount = 5 ∧ Journal.empty.AllFound l := by
  have hnil : branchSplitter.oracle.measure [] = 0 := rfl
  have htexts : ∀ t ∈ branchBody.texts, ¬ ['\r', '\r'] <:+: t := by decide +kernel
  obtain ⟨hdecompose, hunit⟩ := splits_answered branchSplitter hnil
  constructor
  · have hroot := (hdecompose branchBody htexts).1 _ (Dissection.self_mem_nodes 0 _)
    have hchunks := hroot.chunks (by decide) rfl Journal.empty _ _ rfl
    rw [statement_dissect] at hchunks
    exact ⟨_, _, rfl, hchunks, rfl⟩
  · exact ⟨_, _, rfl, rfl, (hunit ⟨"run".toList, "void run()".toList, branchBody, none⟩ htexts).2
      Journal.empty _ _ rfl⟩

end Splitter
end ChunkTree

import ChunkTree.Proofs.Split.Budget
import ChunkTree.Proofs.Split.Reports

/-!
Room for placeholders. What is over the chunk budget is longer than a placeholder within it, so a cut
takes characters away. Only the two branches of a conditional are cut out although each of them may
be shorter than the placeholder put in for it; with room for these no text that fits is truncated.
-/

namespace ChunkTree

def Step.surplus {δ : Type} (placeholder : Text) : Step δ → Nat
  | note _ => 0
  | cut _ stretch _ => placeholder.length - stretch.length

theorem Frame.length_content_le {δ : Type} (p : Text) (steps : List (Step δ)) (rest : Text) :
    (content p ⟨steps, rest⟩).length ≤
      (uncut ⟨steps, rest⟩).length + (steps.map (Step.surplus p)).sum := by
  induction steps with
  | nil => exact Nat.le_refl _
  | cons step steps ih =>
    rw [List.map_cons, List.sum_cons]
    cases step with
    | note n => simpa [Step.surplus] using ih
    | cut gap stretch part =>
      rw [content_cut, uncut_cut, Step.surplus]
      simp only [List.length_append]
      omega

def Errand.surplus (placeholder : Text) : Errand → Nat
  | unhandled _ => 0
  | cut _ stretch => placeholder.length - stretch.length

theorem Stats.Balanced.untruncated {s : Stats} (h : s.Balanced)
    (hnone : ∀ x ∈ s.diagnostics, x.isTruncation = false) :
    s.truncated = 0 ∧ s.truncatedLength = 0 := by
  have hlost : ∀ x ∈ s.diagnostics, x.lostLength = 0 := by
    intro x hx
    cases x with
    | truncated location full kept lost => cases hnone _ hx
    | _ => rfl
  constructor
  · rw [h.truncated, List.countP_eq_zero]
    intro x hx
    rw [hnone x hx]
    exact Bool.false_ne_true
  · rw [h.truncatedLength, List.sum_eq_zero_iff_forall_eq_nat]
    intro n hn
    obtain ⟨x, hx, rfl⟩ := List.mem_map.mp hn
    exact hlost x hx

namespace Splitter

variable {S : Splitter}

/-- By how much the text around a conditional can grow when both branches are cut out of it. -/
def growth (S : Splitter) : Statement → Nat
  | .conditional span condition thenBranch (some other) =>
    let text := spanText (Statement.conditional span condition thenBranch (some other)).render
    if S.oracle.fitsChunk text then 0
    else if S.splitsBoth condition thenBranch text then
      (S.placeholder.length - (thenText condition thenBranch).length) +
        (S.placeholder.length - (elseText other).length)
    else 0
  | _ => 0

theorem surplus_of_leads {depth : Nat} {text : Text} {errands : List Errand}
    {steps : List (Step Dissection)} (h : List.Forall₂ (S.Leads depth text) errands steps) :
    (steps.map (Step.surplus S.placeholder)).sum ≤
      (errands.map (Errand.surplus S.placeholder)).sum := by
  induction h with
  | nil => exact Nat.le_refl _
  | @cons e step errands steps hleads _ ih =>
    have hstep : step.surplus S.placeholder ≤ e.surplus S.placeholder := by
      cases hleads with
      | unhandled x => exact Nat.le_refl _
      | notFound x stretch => exact Nat.zero_le _
      | cut x gap hstretch => exact Nat.le_refl _
    simp only [List.map_cons, List.sum_cons]
    omega

section Characters

variable (hchars : S.oracle.measure = Metric.chars)
  (hplaceholder : S.placeholder.length ≤ S.oracle.budgets.chunk)

include hchars hplaceholder

theorem surplus_oversized {s : Statement} {t : Text} (h : S.oracle.fitsChunk t = false) :
    (Errand.cut s t).surplus S.placeholder = 0 := by
  rw [Oracle.fitsChunk, hchars, decide_eq_false_iff_not, Metric.chars, Nat.not_le] at h
  rw [Errand.surplus]
  omega

theorem surplus_errands (s : Statement) :
    ((S.errands s).map (Errand.surplus S.placeholder)).sum = S.growth s := by
  have hzero : ∀ {x : Statement} {t : Text}, S.oracle.fitsChunk t = false →
      (Errand.cut x t).surplus S.placeholder = 0 := surplus_oversized hchars hplaceholder
  have hnote : ∀ x, (Errand.unhandled x).surplus S.placeholder = 0 := fun _ => rfl
  rw [errands]
  cases hfit : S.oracle.fitsChunk (spanText s.render) with
  | true =>
    cases s with
    | conditional span condition thenBranch elseBranch =>
      cases elseBranch with
      | none => rfl
      | some other => simp [growth, hfit]
    | _ => rfl
  | false =>
    rw [if_neg Bool.false_ne_true]
    cases s with
    | plain span text => simp [oversizedErrands, growth, hnote, hzero hfit]
    | block span statements => simp [oversizedErrands, growth, hzero hfit]
    | conditional span condition thenBranch elseBranch =>
      cases elseBranch with
      | none =>
        rw [spanText_conditional_none] at hfit
        simp [oversizedErrands, growth, hzero hfit]
      | some other =>
        rw [oversizedErrands, growth]
        simp only [hfit, Bool.false_eq_true, if_false]
        split
        · rfl
        · simp [hzero hfit]
    | switch span selector entries =>
      show _ = 0
      rw [oversizedErrands, List.map_map, List.sum_eq_zero_iff_forall_eq_nat]
      intro n hn
      obtain ⟨x, hx, rfl⟩ := List.mem_map.mp hn
      have hover := (List.mem_filter.mp hx).2
      exact hzero (by simpa using hover)
    | guarded span resources body clauses cleanup => simp [oversizedErrands, growth, hzero hfit]
    | headed span head body => simp [oversizedErrands, growth, hzero hfit]
    | other span label header children =>
      simp [oversizedErrands, growth, hnote, hzero hfit]

theorem surplus_agenda (s : Statement) :
    ((S.agenda s).map (Errand.surplus S.placeholder)).sum = (s.children.map S.growth).sum := by
  rw [agenda]
  induction s.children with
  | nil => rfl
  | cons c rest ih =>
    rw [List.flatMap_cons, List.map_append, List.sum_append, ih, List.map_cons, List.sum_cons,
      surplus_errands hchars hplaceholder]

theorem length_content_dissect (s : Statement) (text : Text) (depth : Nat) :
    ((S.dissect s text depth).frame.content S.placeholder).length ≤
      text.length + (s.children.map S.growth).sum := by
  rw [← surplus_agenda hchars hplaceholder]
  have huncut := text_dissect (S := S) s text depth
  rcases S.dissect_cases s text depth with hd | ⟨-, hd⟩ | ⟨-, steps, rest, hd, hall⟩
  · rw [hd]
    exact Nat.le_add_right _ _
  · rw [hd]
    exact Nat.le_add_right _ _
  · rw [hd] at huncut ⊢
    rw [Dissection.text, Dissection.frame, Frame.uncut_note] at huncut
    show (Frame.content S.placeholder ⟨steps, rest⟩).length ≤ _
    have hlength := Frame.length_content_le S.placeholder steps rest
    have hsurplus := surplus_of_leads hall
    rw [huncut] at hlength
    omega

theorem contents_within {s : Statement} {text : Text}
    (hroom : ∀ x, s.Reaches x →
      text.length + (x.children.map S.growth).sum ≤ S.oracle.budgets.unit) :
    ∀ p ∈ (S.dissect s text 0).nodes 0,
      S.oracle.fitsUnit (p.2.frame.content S.placeholder) = true := by
  intro p hp
  obtain ⟨x, t, hx, hreaches, hlength⟩ := exists_statement_of_mem_nodes p hp
  have hcontent := length_content_dissect hchars hplaceholder x t p.1
  have hx' := hroom x hreaches
  rw [hx, Oracle.fitsUnit, hchars, decide_eq_true_eq, Metric.chars]
  omega

end Characters

theorem untruncated_of_decompose {s : Statement} {rendered : Text} {j l : Journal} {c : Chunk}
    (hfits : ∀ p ∈ (S.dissect s (Text.flatten rendered) 0).nodes 0,
      S.oracle.fitsUnit (p.2.frame.content S.placeholder) = true)
    (h : S.decompose s rendered j = .ok (c, l)) :
    l.stats.truncated = j.stats.truncated ∧ l.stats.truncatedLength = j.stats.truncatedLength ∧
      ∃ new, l.stats.diagnostics = j.stats.diagnostics ++ new ∧
        ∀ x ∈ new, x.isTruncation = false := by
  obtain ⟨more, hl, hbalanced, hreports⟩ := reports_of_decompose h
  have hnone : ∀ x ∈ more.diagnostics, x.isTruncation = false := by
    intro x hx
    obtain ⟨p, hp, hreport⟩ := hreports x hx
    cases hreport with
    | note hn hx =>
      rcases diagnostic?_cases hx with ⟨depth, rfl⟩ | rfl | rfl
      · rfl
      · rfl
      · rfl
    | truncated kept lost hover => simp [hfits p hp] at hover
  obtain ⟨htruncated, hlength⟩ := hbalanced.untruncated hnone
  rw [hl]
  refine ⟨?_, ?_, more.diagnostics, rfl, hnone⟩
  · rw [Stats.merge, htruncated]
    exact Nat.add_zero _
  · rw [Stats.merge, hlength]
    exact Nat.add_zero _

/-- The run comes to an end with every content as it was made, all of them within the unit budget,
and nothing is counted or reported as truncated. -/
structure Uncut (S : Splitter) (s : Statement) (rendered : Text) (j : Journal) : Prop where
  contents : ∀ p ∈ (S.dissect s (Text.flatten rendered) 0).nodes 0,
    S.oracle.fitsUnit (p.2.frame.content S.placeholder) = true
  run : ∃ c l, S.decompose s rendered j = .ok (c, l) ∧
    l.stats.truncated = j.stats.truncated ∧ l.stats.truncatedLength = j.stats.truncatedLength ∧
    ∃ new, l.stats.diagnostics = j.stats.diagnostics ++ new ∧ ∀ x ∈ new, x.isTruncation = false

theorem uncut_with_room (t : Tokenizer) (c : Config) (measure : Metric) (source : Option Text)
    (hload : c.metric.load t = .ok measure) (hmetric : c.metric = .chars)
    (hplaceholder : c.placeholder.length ≤ c.chunkBudget) (s : Statement) (rendered : Text)
    (j : Journal) :
    ((Text.flatten rendered).length ≤ c.unitBudget →
      (∀ x, s.Reaches x → ∀ child ∈ x.children,
        (ofConfig (c.oracle measure) c source).growth child = 0) →
      (ofConfig (c.oracle measure) c source).Uncut s rendered j) ∧
    ((∀ x, s.Reaches x → (Text.flatten rendered).length +
        (x.children.map (ofConfig (c.oracle measure) c source).growth).sum ≤ c.unitBudget) →
      (ofConfig (c.oracle measure) c source).Uncut s rendered j) := by
  obtain rfl : Metric.chars = measure := by
    rw [hmetric] at hload
    exact Except.ok.inj hload
  have hhonest : (ofConfig (c.oracle Metric.chars) c source).oracle.Honest :=
    Oracle.honest_ofMetric (Nat.zero_le _) c.truncation
  have hroom : (∀ x, s.Reaches x → (Text.flatten rendered).length +
      (x.children.map (ofConfig (c.oracle Metric.chars) c source).growth).sum ≤ c.unitBudget) →
      (ofConfig (c.oracle Metric.chars) c source).Uncut s rendered j := by
    intro hroom
    have hfits := contents_within rfl hplaceholder hroom
    obtain ⟨chunk, l, hrun⟩ := settle_returns hhonest Metric.chars_monotone _ j
    exact ⟨hfits, chunk, l, hrun, untruncated_of_decompose hfits hrun⟩
  constructor
  · intro hfit hgrowth
    apply hroom
    intro x hx
    have hnone : (x.children.map
        (ofConfig (c.oracle Metric.chars) c source).growth).sum = 0 := by
      rw [List.sum_eq_zero_iff_forall_eq_nat]
      intro n hn
      obtain ⟨child, hchild, rfl⟩ := List.mem_map.mp hn
      exact hgrowth x hx child hchild
    omega
  · exact hroom

def extractConfig (unit : Nat) : Config :=
  ⟨unit, 20, .chars, .hard, "<EXTRACTED_BLOCK>".toList, 64⟩

def branchingBody : Statement :=
  .block none [.conditional none ['a'] (.plain none "b();".toList) (some (.plain none "c();".toList))]

def byChars (c : Config) : Splitter := ofConfig (c.oracle Metric.chars) c none

/-- The text `{ if (a) b(); else c(); }` of 25 characters grows by 14 when its two branches, of 11
and 9 characters, are cut out. -/
theorem uncut_branchingBody :
    (Text.flatten branchingBody.render).length = 25 ∧
    (byChars (extractConfig 39)).Uncut branchingBody branchingBody.render Journal.empty ∧
    (byChars { extractConfig 25 with placeholder := "<BLOCK>".toList, chunkBudget := 12 }).Uncut
      branchingBody branchingBody.render Journal.empty := by
  refine ⟨by decide, ?_, ?_⟩
  · refine (uncut_with_room (.error []) (extractConfig 39) Metric.chars none rfl rfl (by decide)
      branchingBody branchingBody.render Journal.empty).2 fun x hx => ?_
    have hroom : ∀ x ∈ branchingBody.subtree, (Text.flatten branchingBody.render).length +
        (x.children.map (byChars (extractConfig 39)).growth).sum ≤ 39 := by decide
    exact hroom x hx.mem_subtree
  · refine (uncut_with_room (.error []) _ Metric.chars none rfl rfl (by decide) branchingBody
      branchingBody.render Journal.empty).1 (by decide) fun x hx => ?_
    have hnone : ∀ x ∈ branchingBody.subtree, ∀ child ∈ x.children, (byChars { extractConfig 25 with
        placeholder := "<BLOCK>".toList, chunkBudget := 12 }).growth child = 0 := by decide
    exact hnone x hx.mem_subtree

theorem fitting_text_cut :
    (extractConfig 25).Valid ∧ (extractConfig 25).metric = .chars ∧
    (extractConfig 25).placeholder.length ≤ (extractConfig 25).chunkBudget ∧
    (Text.flatten branchingBody.render).length ≤ (extractConfig 25).unitBudget ∧
    ∃ c l, (byChars (extractConfig 25)).decompose branchingBody branchingBody.render
        Journal.empty = .ok (c, l) ∧
      c.content = "\x7b <EXTRACTED_BLOCK> ".toList ∧ l.stats.truncated = 1 := by
  refine ⟨?_, rfl, by decide, by decide, _, _, rfl, rfl, rfl⟩
  exact (Config.flaw?_eq_none_iff _).mp (by decide)

end Splitter
end ChunkTree

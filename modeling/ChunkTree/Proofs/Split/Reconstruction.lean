import ChunkTree.Proofs.Oracle.Truncation
import ChunkTree.Proofs.Split.Exact
import ChunkTree.Proofs.Split.Front
import ChunkTree.Proofs.Text.Flat

/-!
Chunk trees against the text they were made from. Where the placeholder is unbordered and the text is
free of it, each content has one placeholder for each child, also after truncations, and the tree
expands to a part of the text in its order; without a truncation it expands to the text.
-/

namespace ChunkTree
namespace Splitter

variable {S : Splitter}

theorem expand_of_settle (hp : Text.Unbordered S.placeholder) :
    Settles S
      (fun d j c l => j.stats.truncated ≤ l.stats.truncated ∧
        (d.Exact → ¬ S.placeholder <:+: d.text → l.stats.truncated = j.stats.truncated →
          c.expand S.placeholder = d.text))
      (fun steps j cs l => j.stats.truncated ≤ l.stats.truncated ∧
        ∀ s rest, Dissection.Exact ⟨s, steps, rest⟩ →
          ¬ S.placeholder <:+: Frame.uncut ⟨steps, rest⟩ →
          l.stats.truncated = j.stats.truncated →
          Text.refill S.placeholder
            (Text.pieces S.placeholder (Frame.content S.placeholder ⟨steps, rest⟩))
            (Chunk.expandAll S.placeholder cs) = Frame.uncut ⟨steps, rest⟩) where
  nil j := ⟨Nat.le_refl _, fun _ rest _ hfree _ => Text.refill_free hfree []⟩
  note n rest j cs l ih := by
    rw [truncated_noteInto] at ih
    exact ⟨ih.1, fun s tail hexact hfree hsame => ih.2 s tail hexact.tail hfree hsame⟩
  cut gap stretch part rest j c k cs l hpart hrest := by
    refine ⟨hpart.1.trans hrest.1, fun s tail hexact hfree hsame => ?_⟩
    obtain ⟨rfl, hexactPart⟩ := hexact.head
    obtain ⟨hgap, hstretch, htail⟩ := Frame.free_cut hfree
    -- the counter only grows, so neither the part nor what follows it was truncated
    have hpartSame : k.stats.truncated = j.stats.truncated := by
      have := hpart.1
      have := hrest.1
      omega
    have hrestSame : l.stats.truncated = k.stats.truncated := by omega
    rw [Frame.content_cut, Frame.uncut_cut, Chunk.expandAll, Text.refill_gap hp hgap,
      hpart.2 hexactPart hstretch hpartSame, hrest.2 s tail hexact.tail htail hrestSame]
  node s steps rest j children k₁ c k₂ _ hsteps henforce := by
    rcases enforce_eq_ok henforce with ⟨-, rfl, rfl⟩ | ⟨cut, -, -, -, -, hstats⟩
    · exact ⟨hsteps.1, hsteps.2 s rest⟩
    · have hmore : k₂.stats.truncated = k₁.stats.truncated + 1 := by rw [hstats]; rfl
      have := hsteps.1
      refine ⟨?_, fun _ _ hsame => ?_⟩
      · rw [truncated_countChunk]
        omega
      · rw [truncated_countChunk] at hsame
        omega

theorem isConsistent_of_settle (hp : Text.Unbordered S.placeholder)
    (ho : ∀ t, S.oracle.truncate t <+: t) :
    Settles S
      (fun d _ c _ => d.Exact → ¬ S.placeholder <:+: d.text → c.isConsistent S.placeholder = true)
      (fun steps _ cs _ => ∀ s rest, Dissection.Exact ⟨s, steps, rest⟩ →
        ¬ S.placeholder <:+: Frame.uncut ⟨steps, rest⟩ →
        ∀ c ∈ cs, c.isConsistent S.placeholder = true) where
  nil j := fun _ _ _ _ => List.forall_mem_nil _
  note n rest j cs l ih := fun s tail hexact hfree => ih s tail hexact.tail hfree
  cut gap stretch part rest j c k cs l hpart hrest := by
    intro s tail hexact hfree
    obtain ⟨rfl, hexactPart⟩ := hexact.head
    obtain ⟨-, hstretch, htail⟩ := Frame.free_cut hfree
    exact List.forall_mem_cons.mpr
      ⟨hpart hexactPart hstretch, hrest s tail hexact.tail htail⟩
  node s steps rest j children k₁ c k₂ hrun hsteps henforce hexact hfree := by
    have hparts := length_of_settleSteps hrun
    obtain ⟨n, hfront, hchildren⟩ := enforce_front (f := ⟨steps, rest⟩) ho hparts henforce
    have hcount := hfront.occurrences hp hfree
    have hlength : c.children.length = n := by
      rw [hchildren, List.length_take, hparts]
      exact Nat.min_eq_left hfront.le_length
    have hall : ∀ x ∈ c.children, x.isConsistent S.placeholder = true := fun x hx =>
      hsteps s rest hexact hfree x (List.mem_of_mem_take (hchildren ▸ hx))
    obtain ⟨content, kept⟩ := c
    rw [Chunk.isConsistent, Chunk.allConsistent_eq_all, hcount, hlength]
    simpa using hall

theorem expand_sublist_of_settle (hp : Text.Unbordered S.placeholder)
    (ho : ∀ t, S.oracle.truncate t <+: t) :
    Settles S
      (fun d _ c _ => d.Exact → ¬ S.placeholder <:+: d.text →
        (c.expand S.placeholder).Sublist d.text)
      (fun steps _ cs _ => ∀ s rest, Dissection.Exact ⟨s, steps, rest⟩ →
        ¬ S.placeholder <:+: Frame.uncut ⟨steps, rest⟩ →
        ∀ n t, Frame.Front S.placeholder steps rest n t →
          (Text.refill S.placeholder (Text.pieces S.placeholder t)
            (Chunk.expandAll S.placeholder (cs.take n))).Sublist (Frame.uncut ⟨steps, rest⟩)) where
  nil j := by
    intro s tail _ hfree n t hfront
    cases hfront with
    | rest ht =>
      rw [Text.refill_free (Text.free_of_isInfix ht.isInfix hfree)]
      exact ht.sublist
  note k rest j cs l ih := by
    intro s tail hexact hfree n t hfront
    cases hfront with
    | note h => exact ih s tail hexact.tail hfree n t h
  cut gap stretch part rest j c k cs l hpart hrest := by
    intro s tail hexact hfree n t hfront
    obtain ⟨rfl, hexactPart⟩ := hexact.head
    obtain ⟨hgap, hstretch, htail⟩ := Frame.free_cut hfree
    rw [Frame.uncut_cut]
    cases hfront with
    | gap ht =>
      rw [Text.refill_free (Text.free_of_isInfix ht.isInfix hgap)]
      exact ht.sublist.trans (List.sublist_append_left gap _)
    | cut h =>
      rw [List.take_succ_cons, Chunk.expandAll, Text.refill_gap hp hgap]
      have hbehind := hrest s tail hexact.tail htail _ _ h
      exact (List.Sublist.refl gap).append ((hpart hexactPart hstretch).append hbehind)
  node s steps rest j children k₁ c k₂ hrun hsteps henforce hexact hfree := by
    have hparts := length_of_settleSteps hrun
    obtain ⟨n, hfront, hchildren⟩ := enforce_front (f := ⟨steps, rest⟩) ho hparts henforce
    obtain ⟨content, kept⟩ := c
    obtain rfl : kept = children.take n := hchildren
    exact hsteps s rest hexact hfree n content hfront

theorem expand_eq_flatten (S : Splitter) (hp : Text.Unbordered S.placeholder) :
    (∀ (s : Statement) (rendered : Text) (j l : Journal) (c : Chunk),
      ¬ S.placeholder <:+: Text.flatten rendered →
      S.decompose s rendered j = .ok (c, l) → l.stats.truncated = j.stats.truncated →
      c.expand S.placeholder = Text.flatten rendered) ∧
    ∀ (u : SourceUnit) (j l : Journal) (c : Chunk),
      ¬ S.placeholder <:+: Text.flatten u.body.render →
      S.splitUnit u j = .ok (c, l) → l.stats.truncated = j.stats.truncated →
      c.expand S.placeholder = Text.flatten u.body.render := by
  have hdecompose : ∀ (s : Statement) (rendered : Text) (j l : Journal) (c : Chunk),
      ¬ S.placeholder <:+: Text.flatten rendered →
      S.decompose s rendered j = .ok (c, l) → l.stats.truncated = j.stats.truncated →
      c.expand S.placeholder = Text.flatten rendered := by
    intro s rendered j l c hfree hrun hsame
    have hsettled := (expand_of_settle hp).settle hrun
    rw [text_dissect] at hsettled
    exact hsettled.2 (dissect_exact s _ 0) hfree hsame
  refine ⟨hdecompose, fun u j l c hfree hrun hsame => ?_⟩
  rcases splitUnit_eq_ok hrun with ⟨-, rfl, -⟩ | ⟨-, hrun⟩
  · exact Text.refill_free hfree []
  · rw [← Text.flatten_flatten] at hfree ⊢
    exact hdecompose (locatedBody u) _ _ l c hfree hrun hsame

def sampleSplitter (unit : Nat) : Splitter :=
  ⟨Oracle.ofMetric Metric.chars ⟨unit, 12⟩ .hard, "<B>".toList, 4, none⟩

def sampleBody : Statement :=
  .block none
    [.plain none "go();".toList,
      .headed none (.preTest "more()".toList)
        (.block none [.plain none "first_step();".toList, .plain none "go();".toList]),
      .plain none "first_step();".toList]

def sampleUnit : SourceUnit := ⟨"run".toList, "void run()".toList, sampleBody, none⟩

theorem expand_sampleBody :
    (∃ c l, (sampleSplitter 60).decompose sampleBody sampleBody.render Journal.empty = .ok (c, l) ∧
      c.nodeCount = 4 ∧ c.expand "<B>".toList = Text.flatten sampleBody.render) ∧
    ∃ c l, (sampleSplitter 60).splitUnit sampleUnit Journal.empty = .ok (c, l) ∧
      c.nodeCount = 4 ∧ c.expand "<B>".toList = Text.flatten sampleBody.render := by
  have hp : Text.Unbordered (sampleSplitter 60).placeholder := by decide
  have hfree : ¬ (sampleSplitter 60).placeholder <:+: Text.flatten sampleBody.render := by decide
  obtain ⟨hdecompose, hunit⟩ := expand_eq_flatten (sampleSplitter 60) hp
  constructor
  · exact ⟨_, _, rfl, rfl, hdecompose sampleBody _ Journal.empty _ _ hfree rfl rfl⟩
  · exact ⟨_, _, rfl, rfl, hunit sampleUnit Journal.empty _ _ hfree rfl rfl⟩

theorem isConsistent_of_run (S : Splitter) (metric : Metric) (budgets : Budgets)
    (strategy : Truncation) (ho : S.oracle = Oracle.ofMetric metric budgets strategy)
    (hp : Text.Unbordered S.placeholder) :
    (∀ (s : Statement) (rendered : Text) (j l : Journal) (c : Chunk),
      ¬ S.placeholder <:+: Text.flatten rendered → S.decompose s rendered j = .ok (c, l) →
      c.isConsistent S.placeholder = true) ∧
    ∀ (u : SourceUnit) (j l : Journal) (c : Chunk),
      ¬ S.placeholder <:+: Text.flatten u.body.render → S.splitUnit u j = .ok (c, l) →
      c.isConsistent S.placeholder = true := by
  have hprefix : ∀ t, S.oracle.truncate t <+: t := by
    rw [ho]
    exact Truncation.cut_isPrefix strategy metric budgets.unit
  have hdecompose : ∀ (s : Statement) (rendered : Text) (j l : Journal) (c : Chunk),
      ¬ S.placeholder <:+: Text.flatten rendered → S.decompose s rendered j = .ok (c, l) →
      c.isConsistent S.placeholder = true := by
    intro s rendered j l c hfree hrun
    have hsettled := (isConsistent_of_settle hp hprefix).settle hrun
    rw [text_dissect] at hsettled
    exact hsettled (dissect_exact s _ 0) hfree
  refine ⟨hdecompose, fun u j l c hfree hrun => ?_⟩
  rcases splitUnit_eq_ok hrun with ⟨-, rfl, -⟩ | ⟨-, hrun⟩
  · simp [Chunk.leaf, Chunk.isConsistent, Chunk.allConsistent, Text.occurrences_free hfree]
  · rw [← Text.flatten_flatten] at hfree
    exact hdecompose (locatedBody u) _ _ l c hfree hrun

theorem isConsistent_sampleBody :
    (∃ c l, (sampleSplitter 11).decompose sampleBody sampleBody.render Journal.empty = .ok (c, l) ∧
      l.stats.truncated = 4 ∧ c.nodeCount = 2 ∧ c.isConsistent "<B>".toList = true) ∧
    ∃ c l, (sampleSplitter 11).splitUnit sampleUnit Journal.empty = .ok (c, l) ∧
      l.stats.truncated = 4 ∧ c.nodeCount = 2 ∧ c.isConsistent "<B>".toList = true := by
  have hp : Text.Unbordered (sampleSplitter 11).placeholder := by decide
  have hfree : ¬ (sampleSplitter 11).placeholder <:+: Text.flatten sampleBody.render := by decide
  obtain ⟨hdecompose, hunit⟩ :=
    isConsistent_of_run (sampleSplitter 11) Metric.chars ⟨11, 12⟩ .hard rfl hp
  constructor
  · exact ⟨_, _, rfl, rfl, rfl, hdecompose sampleBody _ Journal.empty _ _ hfree rfl⟩
  · exact ⟨_, _, rfl, rfl, rfl, hunit sampleUnit Journal.empty _ _ hfree rfl⟩

theorem expand_sublist_flatten (S : Splitter) (metric : Metric) (budgets : Budgets)
    (strategy : Truncation) (ho : S.oracle = Oracle.ofMetric metric budgets strategy)
    (hp : Text.Unbordered S.placeholder) :
    (∀ (s : Statement) (rendered : Text) (j l : Journal) (c : Chunk),
      ¬ S.placeholder <:+: Text.flatten rendered → S.decompose s rendered j = .ok (c, l) →
      (c.expand S.placeholder).Sublist (Text.flatten rendered)) ∧
    ∀ (u : SourceUnit) (j l : Journal) (c : Chunk),
      ¬ S.placeholder <:+: Text.flatten u.body.render → S.splitUnit u j = .ok (c, l) →
      (c.expand S.placeholder).Sublist (Text.flatten u.body.render) := by
  have hprefix : ∀ t, S.oracle.truncate t <+: t := by
    rw [ho]
    exact Truncation.cut_isPrefix strategy metric budgets.unit
  have hdecompose : ∀ (s : Statement) (rendered : Text) (j l : Journal) (c : Chunk),
      ¬ S.placeholder <:+: Text.flatten rendered → S.decompose s rendered j = .ok (c, l) →
      (c.expand S.placeholder).Sublist (Text.flatten rendered) := by
    intro s rendered j l c hfree hrun
    have hsettled := (expand_sublist_of_settle hp hprefix).settle hrun
    rw [text_dissect] at hsettled
    exact hsettled (dissect_exact s _ 0) hfree
  refine ⟨hdecompose, fun u j l c hfree hrun => ?_⟩
  rcases splitUnit_eq_ok hrun with ⟨-, rfl, -⟩ | ⟨-, hrun⟩
  · have hleaf : (Chunk.leaf (Text.flatten u.body.render)).expand S.placeholder =
        Text.flatten u.body.render := Text.refill_free hfree []
    rw [hleaf]
  · rw [← Text.flatten_flatten] at hfree ⊢
    exact hdecompose (locatedBody u) _ _ l c hfree hrun

theorem expand_sublist_sampleBody :
    (∃ c l, (sampleSplitter 16).decompose sampleBody sampleBody.render Journal.empty = .ok (c, l) ∧
      l.stats.truncated = 2 ∧
      c.expand "<B>".toList = "\x7b go(); while (more()) \x7b first_step(); ".toList ∧
      (c.expand "<B>".toList).Sublist (Text.flatten sampleBody.render)) ∧
    ∃ c l, (sampleSplitter 16).splitUnit sampleUnit Journal.empty = .ok (c, l) ∧
      l.stats.truncated = 2 ∧ (c.expand "<B>".toList).Sublist (Text.flatten sampleBody.render) := by
  have hp : Text.Unbordered (sampleSplitter 16).placeholder := by decide
  have hfree : ¬ (sampleSplitter 16).placeholder <:+: Text.flatten sampleBody.render := by decide
  obtain ⟨hdecompose, hunit⟩ :=
    expand_sublist_flatten (sampleSplitter 16) Metric.chars ⟨16, 12⟩ .hard rfl hp
  constructor
  · exact ⟨_, _, rfl, rfl, rfl, hdecompose sampleBody _ Journal.empty _ _ hfree rfl⟩
  · exact ⟨_, _, rfl, rfl, hunit sampleUnit Journal.empty _ _ hfree rfl⟩

end Splitter
end ChunkTree

import ChunkTree.Proofs.Oracle.Truncation
import ChunkTree.Proofs.Split.Returning

namespace ChunkTree
namespace Splitter

variable {S : Splitter}

theorem fitsUnit_of_enforce {s : Statement} {content : Text} {markers : List Nat}
    {children : List Chunk} {j k : Journal} {c : Chunk}
    (h : S.enforce s content markers children j = .ok (c, k)) :
    S.oracle.fitsUnit c.content = true ∧ ∀ x ∈ c.children, x ∈ children := by
  rcases enforce_eq_ok h with ⟨hfits, rfl, -⟩ | ⟨cut, -, -, hfits, rfl, -⟩
  · exact ⟨hfits, fun x hx => hx⟩
  · exact ⟨hfits, fun x hx => List.mem_of_mem_take hx⟩

theorem fitsUnit_of_settle : Settles S
    (fun _ _ c _ => ∀ n, ∀ x ∈ c.preorder n, S.oracle.fitsUnit x.2 = true)
    (fun _ _ cs _ => ∀ c ∈ cs, ∀ n, ∀ x ∈ c.preorder n, S.oracle.fitsUnit x.2 = true) where
  nil j := List.forall_mem_nil _
  note n rest j cs l ih := ih
  cut gap stretch part rest j c k cs l hpart hrest := List.forall_mem_cons.mpr ⟨hpart, hrest⟩
  node s steps rest j children k₁ c k₂ _ hsteps henforce n x hx := by
    obtain ⟨hfits, hchildren⟩ := fitsUnit_of_enforce henforce
    obtain ⟨content, kept⟩ := c
    rw [Chunk.preorder, Chunk.preorderAll_eq_flatMap, List.mem_cons, List.mem_flatMap] at hx
    rcases hx with rfl | ⟨child, hchild, hx⟩
    · exact hfits
    · exact hsteps child (hchildren child hchild) (n + 1) x hx

theorem measure_le_of_isInfix {metric : Metric}
    (hm : metric = Metric.chars ∨ metric = Metric.approxTokens) {s t : Text} (h : s <:+: t) :
    metric s ≤ metric t := by
  rcases hm with rfl | rfl
  · exact h.length_le
  · obtain ⟨before, after, rfl⟩ := h
    simp only [Metric.approxTokens, Text.byteLength_append]
    omega

theorem contents_fit_unit :
    (∀ (S : Splitter) (s : Statement) (rendered : Text) (j l : Journal) (c : Chunk),
      S.decompose s rendered j = .ok (c, l) →
      ∀ x ∈ c.preorder 0, S.oracle.measure x.2 ≤ S.oracle.budgets.unit) ∧
    ∀ (S : Splitter) (metric : Metric) (budgets : Budgets) (strategy : Truncation),
      metric = Metric.chars ∨ metric = Metric.approxTokens →
      S.oracle = Oracle.ofMetric metric budgets strategy →
      (∀ (s : Statement) (rendered : Text) (j : Journal), ∃ c l,
        S.decompose s rendered j = .ok (c, l) ∧
          ∀ x ∈ c.preorder 0, metric x.2 ≤ budgets.unit) ∧
      ∀ (u : SourceUnit) (j : Journal), ∃ c l,
        S.splitUnit u j = .ok (c, l) ∧ ∀ x ∈ c.preorder 0, metric x.2 ≤ budgets.unit := by
  have hfit : ∀ (S : Splitter) (s : Statement) (rendered : Text) (j l : Journal) (c : Chunk),
      S.decompose s rendered j = .ok (c, l) →
      ∀ x ∈ c.preorder 0, S.oracle.measure x.2 ≤ S.oracle.budgets.unit :=
    fun S s rendered j l c hrun x hx => of_decide_eq_true (fitsUnit_of_settle.settle hrun 0 x hx)
  refine ⟨hfit, fun S metric budgets strategy hmetric horacle => ?_⟩
  have hnil : metric [] ≤ budgets.unit := by
    rcases hmetric with rfl | rfl <;> exact Nat.zero_le _
  have hhonest : S.oracle.Honest := horacle ▸ Oracle.honest_ofMetric hnil strategy
  have hmono : Metric.Monotone S.oracle.measure := by
    rw [horacle]
    exact fun s t => measure_le_of_isInfix hmetric (List.prefix_append s t).isInfix
  have hdecompose : ∀ (s : Statement) (rendered : Text) (j : Journal), ∃ c l,
      S.decompose s rendered j = .ok (c, l) ∧ ∀ x ∈ c.preorder 0, metric x.2 ≤ budgets.unit := by
    intro s rendered j
    obtain ⟨c, l, hrun⟩ := settle_returns hhonest hmono (S.dissect s (Text.flatten rendered) 0) j
    have hwithin := hfit S s rendered j l c hrun
    rw [horacle] at hwithin
    exact ⟨c, l, hrun, hwithin⟩
  refine ⟨hdecompose, fun u j => ?_⟩
  rw [splitUnit]
  split
  · rename_i hunit
    -- the body is returned, what was measured is the body behind its signature
    have hbody : Text.flatten u.body.render <:+:
        u.signature ++ ' ' :: Text.flatten u.body.render :=
      ((List.suffix_cons ' ' _).trans (List.suffix_append u.signature _)).isInfix
    rw [horacle, Oracle.fitsUnit, decide_eq_true_eq] at hunit
    refine ⟨_, _, rfl, fun x hx => ?_⟩
    obtain rfl : x = (0, Text.flatten u.body.render) := by
      simpa [Chunk.leaf, Chunk.preorder, Chunk.preorderAll] using hx
    exact (measure_le_of_isInfix hmetric hbody).trans hunit
  · exact hdecompose (locatedBody u) _ _

def dotsSplitter : Splitter :=
  ⟨⟨Metric.semicolonPenalty, ⟨10, 4⟩, fun _ => "...".toList⟩, [' '], 2, none⟩

def sampleSteps : Statement :=
  .block none [.plain none "advance();".toList, .plain none "go();".toList]

theorem contents_fit_sampleSteps :
    (∃ c l, dotsSplitter.decompose sampleSteps sampleSteps.render Journal.empty = .ok (c, l) ∧
      l.stats.truncated = 1 ∧ ∀ x ∈ c.preorder 0, dotsSplitter.oracle.measure x.2 ≤ 10) ∧
    (∃ c l, Splitter.decompose
        ⟨Oracle.ofMetric Metric.approxTokens ⟨1, 2⟩ .wordBoundary, [], 2, none⟩ sampleSteps
        sampleSteps.render Journal.empty = .ok (c, l) ∧
      ∀ x ∈ c.preorder 0, Metric.approxTokens x.2 ≤ 1) ∧
    ∃ c l, Splitter.splitUnit ⟨Oracle.ofMetric Metric.chars ⟨9, 4⟩ .hard, [' '], 2, none⟩
        ⟨"run".toList, "run()".toList, sampleSteps, none⟩ Journal.empty = .ok (c, l) ∧
      ∀ x ∈ c.preorder 0, Metric.chars x.2 ≤ 9 := by
  obtain ⟨hfit, hreturns⟩ := contents_fit_unit
  refine ⟨⟨_, _, rfl, rfl, ?_⟩, ?_, ?_⟩
  · exact hfit dotsSplitter sampleSteps sampleSteps.render Journal.empty _ _ rfl
  · exact (hreturns _ Metric.approxTokens ⟨1, 2⟩ .wordBoundary (.inr rfl) rfl).1 sampleSteps _ _
  · exact (hreturns _ Metric.chars ⟨9, 4⟩ .hard (.inl rfl) rfl).2
      ⟨"run".toList, "run()".toList, sampleSteps, none⟩ _

end Splitter
end ChunkTree

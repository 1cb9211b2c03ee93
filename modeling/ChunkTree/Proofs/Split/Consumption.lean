import ChunkTree.Proofs.Oracle.Truncation
import ChunkTree.Proofs.Split.Reconstruction
import ChunkTree.Proofs.Text.Greedy

/-!
No child without a marker. The placeholders in front of a cut stand apart from each other in the
content, whatever else stands in the text, so an expansion that takes the markers from the left has
one for every child.
-/

namespace ChunkTree

namespace Chunk

mutual

def nodes : Chunk → List Chunk
  | ⟨content, children⟩ => ⟨content, children⟩ :: nodesAll children

def nodesAll : List Chunk → List Chunk
  | [] => []
  | c :: rest => c.nodes ++ nodesAll rest

end

theorem nodesAll_eq_flatMap (chunks : List Chunk) : nodesAll chunks = chunks.flatMap nodes := by
  induction chunks with
  | nil => rfl
  | cons c rest ih => rw [nodesAll, ih, List.flatMap_cons]

/-- The content has a marker for every child, and the expansion puts the expansion of each child in
the place of one, behind the part of the content that lies before it. -/
structure Consumes (marker : Text) (c : Chunk) : Prop where
  enough : c.children.length ≤ c.markerCount marker
  filled : ∃ gaps rest, gaps.length = c.children.length ∧
    c.content = gaps.flatMap (· ++ marker) ++ rest ∧
    c.expand marker =
      (List.zipWith (· ++ ·) gaps (c.children.map (expand marker))).flatten ++ rest

theorem consumes_of_le {marker : Text} (hmarker : marker ≠ []) {c : Chunk}
    (h : c.children.length ≤ c.markerCount marker) : c.Consumes marker := by
  refine ⟨h, ?_⟩
  obtain ⟨content, children⟩ := c
  rw [expand, expandAll_eq_map]
  have henough : (children.map (expand marker)).length ≤ Text.occurrences marker content := by
    rw [List.length_map]
    exact h
  obtain ⟨gaps, rest, hlength, hcontent, hexpand⟩ := Text.refill_pieces hmarker henough
  rw [List.length_map] at hlength
  exact ⟨gaps, rest, hlength, hcontent, hexpand⟩

end Chunk

theorem Frame.Front.inOrder {δ : Type} {p : Text} {steps : List (Step δ)} {rest t : Text} {n : Nat}
    (h : Front p steps rest n t) : Text.InOrder (List.replicate n p) t [] := by
  induction h with
  | rest h => exact List.nil_suffix
  | note h ih => exact ih
  | gap h => exact List.nil_suffix
  | cut h ih => exact ⟨_, List.suffix_append _ _, ih⟩

namespace Splitter

variable {S : Splitter}

theorem children_of_enforce (hp : S.placeholder ≠ []) (ho : ∀ t, S.oracle.truncate t <+: t)
    {s : Statement} {f : Frame Dissection} {children : List Chunk} {j k : Journal} {c : Chunk}
    (hlength : children.length = (f.steps.filterMap Step.part?).length)
    (h : S.enforce s (f.content S.placeholder) (f.markers S.placeholder) children j = .ok (c, k)) :
    c.children.length ≤ c.markerCount S.placeholder ∧ ∀ x ∈ c.children, x ∈ children := by
  obtain ⟨n, hfront, hchildren⟩ := enforce_front ho hlength h
  have hmarkers : n ≤ c.markerCount S.placeholder :=
    (Text.le_occurrences_iff hp).mpr hfront.inOrder
  rw [hchildren]
  constructor
  · rw [List.length_take]
    omega
  · intro x hx
    exact List.mem_of_mem_take hx

theorem consumes_of_settle (hp : S.placeholder ≠ []) (ho : ∀ t, S.oracle.truncate t <+: t) :
    Settles S (fun _ _ c _ => ∀ x ∈ c.nodes, x.Consumes S.placeholder)
      (fun _ _ cs _ => ∀ c ∈ cs, ∀ x ∈ c.nodes, x.Consumes S.placeholder) where
  nil j := List.forall_mem_nil _
  note n rest j cs l ih := ih
  cut gap stretch part rest j c k cs l hpart hrest := List.forall_mem_cons.mpr ⟨hpart, hrest⟩
  node s steps rest j children k₁ c k₂ hrun hsteps henforce := by
    obtain ⟨henough, hkept⟩ :=
      children_of_enforce hp ho (f := ⟨steps, rest⟩) (length_of_settleSteps hrun) henforce
    have hroot := Chunk.consumes_of_le hp henough
    obtain ⟨content, kept⟩ := c
    rw [Chunk.nodes, Chunk.nodesAll_eq_flatMap]
    refine List.forall_mem_cons.mpr ⟨hroot, fun x hx => ?_⟩
    obtain ⟨child, hchild, hx⟩ := List.mem_flatMap.mp hx
    exact hsteps child (hkept child hchild) x hx

theorem children_consumed (S : Splitter) (metric : Metric) (budgets : Budgets)
    (strategy : Truncation) (ho : S.oracle = Oracle.ofMetric metric budgets strategy)
    (hp : S.placeholder ≠ []) (s : Statement) (rendered : Text) (j l : Journal) (c : Chunk)
    (h : S.decompose s rendered j = .ok (c, l)) : ∀ x ∈ c.nodes, x.Consumes S.placeholder := by
  have hprefix : ∀ t, S.oracle.truncate t <+: t := by
    rw [ho]
    exact Truncation.cut_isPrefix strategy metric budgets.unit
  exact (consumes_of_settle hp hprefix).settle h

def overlapSplitter : Splitter :=
  ⟨Oracle.ofMetric Metric.chars ⟨60, 12⟩ .hard, "aa".toList, 4, none⟩

/-- The marker put in between two letters of the text is not the one that the expansion takes. -/
theorem children_consumed_overlap :
    ∃ c l, overlapSplitter.decompose sampleBody "\x7b afirst_step();a \x7d".toList Journal.empty =
        .ok (c, l) ∧
      c.content = "\x7b aaaa \x7d".toList ∧ c.children.length = 1 ∧
      c.expand "aa".toList = "\x7b first_step();aa \x7d".toList ∧
      ∀ x ∈ c.nodes, x.Consumes "aa".toList :=
  ⟨_, _, rfl, rfl, rfl, rfl,
    children_consumed overlapSplitter Metric.chars ⟨60, 12⟩ .hard rfl (by decide) sampleBody
      "\x7b afirst_step();a \x7d".toList Journal.empty _ _ rfl⟩

end Splitter
end ChunkTree

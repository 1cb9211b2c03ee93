import ChunkTree.Proofs.Split.Reconstruction

/-!
What a run produces and what it keeps. Every dissected text yields one chunk, which is counted once;
those that are missing in the tree belong to children that went with their placeholders, or lie below
such children.
-/

namespace ChunkTree

/-- A chunk with all chunks made for its children, each at the offset of its placeholder. -/
structure Production where
  content : Text
  children : List (Nat × Production)

namespace Production

mutual

def count : Production → Nat
  | ⟨_, children⟩ => 1 + countAll children

def countAll : List (Nat × Production) → Nat
  | [] => 0
  | (_, child) :: rest => child.count + countAll rest

end

mutual

def tree (placeholder : Text) : Production → Chunk
  | ⟨content, children⟩ => ⟨content, survivors placeholder (Text.byteLength content) children⟩

def survivors (placeholder : Text) (size : Nat) : List (Nat × Production) → List Chunk
  | [] => []
  | (marker, child) :: rest =>
    if marker + Text.byteLength placeholder ≤ size then
      child.tree placeholder :: survivors placeholder size rest
    else survivors placeholder size rest

end

mutual

def dropped (placeholder : Text) : Production → Nat
  | ⟨content, children⟩ => droppedIn placeholder (Text.byteLength content) children

def droppedIn (placeholder : Text) (size : Nat) : List (Nat × Production) → Nat
  | [] => 0
  | (marker, child) :: rest =>
    (if marker + Text.byteLength placeholder ≤ size then child.dropped placeholder
      else child.count) + droppedIn placeholder size rest

end

mutual

theorem count_eq (placeholder : Text) :
    ∀ P : Production, P.count = (P.tree placeholder).nodeCount + P.dropped placeholder
  | ⟨content, children⟩ => by
    have h := countAll_eq placeholder (Text.byteLength content) children
    rw [count, tree, Chunk.nodeCount, dropped]
    omega

theorem countAll_eq (placeholder : Text) (size : Nat) :
    ∀ children : List (Nat × Production), countAll children =
      Chunk.nodeCounts (survivors placeholder size children) + droppedIn placeholder size children
  | [] => rfl
  | (marker, child) :: rest => by
    have hchild := count_eq placeholder child
    have hrest := countAll_eq placeholder size rest
    rw [countAll, survivors, droppedIn]
    split
    · rw [Chunk.nodeCounts]
      omega
    · omega

end

end Production

namespace Splitter

variable {S : Splitter}

def fitted {δ : Type} (S : Splitter) (f : Frame δ) : Text :=
  if S.oracle.fitsUnit (f.content S.placeholder) then f.content S.placeholder
  else
    match S.snap (f.markers S.placeholder) (S.oracle.truncate (f.content S.placeholder)) with
    | .ok cut => cut
    | .error _ => f.content S.placeholder

mutual

def production (S : Splitter) : Dissection → Production
  | ⟨_, steps, rest⟩ =>
    ⟨S.fitted (⟨steps, rest⟩ : Frame Dissection), S.productions 0 steps⟩

def productions (S : Splitter) (offset : Nat) : List (Step Dissection) → List (Nat × Production)
  | [] => []
  | .note _ :: rest => S.productions offset rest
  | .cut gap _ part :: rest =>
    let start := offset + Text.byteLength gap
    (start, S.production part) ::
      S.productions (start + Text.byteLength S.placeholder) rest

end

theorem survivors_eq_take (size offset : Nat) (steps : List (Step Dissection)) :
    Production.survivors S.placeholder size (S.productions offset steps) =
      ((S.productions offset steps).map (fun x => x.2.tree S.placeholder)).take
        (S.wholeMarkers (Frame.markersFrom S.placeholder offset steps) size) := by
  induction steps generalizing offset with
  | nil => rfl
  | cons step rest ih =>
    cases step with
    | note n => exact ih offset
    | cut gap stretch part =>
      simp only [productions, Frame.markersFrom, Production.survivors, wholeMarkers_cons,
        List.map_cons]
      by_cases hwhole : offset + Text.byteLength gap + Text.byteLength S.placeholder ≤ size
      · rw [if_pos hwhole, if_pos hwhole, List.take_succ_cons, ih]
      · -- later placeholders begin behind this one, so none of them lies inside
        have hnone : S.wholeMarkers (Frame.markersFrom S.placeholder
            (offset + Text.byteLength gap + Text.byteLength S.placeholder) rest) size = 0 := by
          refine wholeMarkers_beyond fun m hm => ?_
          have := Frame.le_of_mem_markersFrom hm
          omega
        rw [if_neg hwhole, if_neg hwhole, ih, hnone]
        rfl

theorem marker_end_le {steps : List (Step Dissection)} {offset m : Nat} (rest : Text)
    (h : m ∈ Frame.markersFrom S.placeholder offset steps) :
    m + Text.byteLength S.placeholder ≤
      offset + Text.byteLength (Frame.content S.placeholder ⟨steps, rest⟩) := by
  induction steps generalizing offset with
  | nil => simp [Frame.markersFrom] at h
  | cons step steps ih =>
    cases step with
    | note n => exact ih h
    | cut gap stretch part =>
      simp only [Frame.content_cut, Text.byteLength_append]
      rw [Frame.markersFrom, List.mem_cons] at h
      rcases h with rfl | h
      · omega
      · have := ih h
        omega

theorem wholeMarkers_content (f : Frame Dissection) :
    S.wholeMarkers (f.markers S.placeholder) (Text.byteLength (f.content S.placeholder)) =
      (f.steps.filterMap Step.part?).length := by
  rw [← Frame.length_markersFrom S.placeholder 0, wholeMarkers, Frame.markers]
  refine List.countP_eq_length.mpr fun m hm => ?_
  have hend := marker_end_le f.rest hm
  rw [decide_eq_true_eq]
  simpa using hend

theorem enforce_eq_tree {s : Statement} {f : Frame Dissection} {children : List Chunk}
    {j k : Journal} {c : Chunk}
    (hchildren : (S.productions 0 f.steps).map (fun x => x.2.tree S.placeholder) = children)
    (hlength : children.length = (f.steps.filterMap Step.part?).length)
    (h : S.enforce s (f.content S.placeholder) (f.markers S.placeholder) children j = .ok (c, k)) :
    c = Production.tree S.placeholder ⟨S.fitted f, S.productions 0 f.steps⟩ ∧
      k.stats.chunks = j.stats.chunks := by
  rw [Production.tree, survivors_eq_take, hchildren]
  rcases enforce_eq_ok h with ⟨hfits, rfl, rfl⟩ | ⟨cut, hover, hsnap, -, rfl, hstats⟩
  · have hall := wholeMarkers_content (S := S) f
    rw [Frame.markers, ← hlength] at hall
    rw [fitted, if_pos hfits, hall, List.take_length]
    exact ⟨rfl, rfl⟩
  · rw [fitted, hover, if_neg Bool.false_ne_true, hsnap, hstats]
    exact ⟨rfl, rfl⟩

theorem chunks_noteInto (j : Journal) (n : Note) :
    (S.noteInto j n).stats.chunks = j.stats.chunks := by
  cases n <;> rfl

theorem produced_of_settle : Settles S
    (fun d j c l => c = (S.production d).tree S.placeholder ∧
      l.stats.chunks = j.stats.chunks + (S.production d).count)
    (fun steps j cs l => ∀ offset,
      (S.productions offset steps).map (fun x => x.2.tree S.placeholder) = cs ∧
      l.stats.chunks = j.stats.chunks + Production.countAll (S.productions offset steps)) where
  nil _ := fun _ => ⟨rfl, rfl⟩
  note n rest j cs l ih := by
    intro offset
    rw [chunks_noteInto] at ih
    exact ih offset
  cut gap stretch part rest j c k cs l hpart hrest := by
    intro offset
    obtain ⟨htree, hcount⟩ := hpart
    obtain ⟨htrees, hcounts⟩ :=
      hrest (offset + Text.byteLength gap + Text.byteLength S.placeholder)
    constructor
    · rw [productions, List.map_cons, htrees, htree]
    · rw [productions, Production.countAll, hcounts, hcount, Nat.add_assoc]
  node s steps rest j children k₁ c k₂ hrun hsteps henforce := by
    obtain ⟨hchildren, hcounts⟩ := hsteps 0
    obtain ⟨htree, hsame⟩ :=
      enforce_eq_tree (f := ⟨steps, rest⟩) hchildren (length_of_settleSteps hrun) henforce
    refine ⟨htree, ?_⟩
    have hcounted : (countChunk k₂).stats.chunks = k₂.stats.chunks + 1 := rfl
    rw [production, Production.count]
    omega

theorem none_dropped_of_settle : Settles S
    (fun d j _ l => j.stats.truncated ≤ l.stats.truncated ∧
      (l.stats.truncated = j.stats.truncated → (S.production d).dropped S.placeholder = 0))
    (fun steps j _ l => j.stats.truncated ≤ l.stats.truncated ∧
      (l.stats.truncated = j.stats.truncated → ∀ offset size,
        (∀ m ∈ Frame.markersFrom S.placeholder offset steps,
          m + Text.byteLength S.placeholder ≤ size) →
        Production.droppedIn S.placeholder size (S.productions offset steps) = 0)) where
  nil _ := ⟨Nat.le_refl _, fun _ _ _ _ => rfl⟩
  note n rest j cs l ih := by
    rw [truncated_noteInto] at ih
    exact ih
  cut gap stretch part rest j c k cs l hpart hrest := by
    refine ⟨hpart.1.trans hrest.1, fun hsame offset size hwhole => ?_⟩
    -- the counter only grows, so neither the part nor what follows it was truncated
    have hpartSame : k.stats.truncated = j.stats.truncated := by
      have := hpart.1
      have := hrest.1
      omega
    have hrestSame : l.stats.truncated = k.stats.truncated := by omega
    rw [Frame.markersFrom, List.forall_mem_cons] at hwhole
    rw [productions, Production.droppedIn, if_pos hwhole.1, hpart.2 hpartSame,
      hrest.2 hrestSame _ size hwhole.2]
  node s steps rest j children k₁ c k₂ hrun hsteps henforce := by
    rw [truncated_countChunk]
    rcases enforce_eq_ok henforce with ⟨hfits, -, rfl⟩ | ⟨cut, -, -, -, -, hstats⟩
    · refine ⟨hsteps.1, fun hsame => ?_⟩
      rw [production, Production.dropped, fitted, if_pos hfits]
      refine hsteps.2 hsame 0 _ fun m hm => ?_
      simpa using marker_end_le rest hm
    · have hmore : k₂.stats.truncated = k₁.stats.truncated + 1 := by
        rw [hstats]
        rfl
      have := hsteps.1
      exact ⟨by omega, fun hsame => by omega⟩

def produced (S : Splitter) (s : Statement) (rendered : Text) : Production :=
  S.production (S.dissect s (Text.flatten rendered) 0)

def producedOfUnit (S : Splitter) (u : SourceUnit) : Production :=
  if S.oracle.fitsUnit (u.signature ++ ' ' :: Text.flatten u.body.render) then
    ⟨Text.flatten u.body.render, []⟩
  else S.produced (locatedBody u) (Text.flatten u.body.render)

/-- From `j` to `l` the chunks of the production were counted, and the tree is what is left of it. -/
structure Yields (S : Splitter) (P : Production) (j : Journal) (c : Chunk) (l : Journal) : Prop where
  tree : c = P.tree S.placeholder
  produced : l.stats.chunks = j.stats.chunks + P.count
  excess : l.stats.chunks = j.stats.chunks + c.nodeCount + P.dropped S.placeholder
  nodeCount_le : j.stats.chunks + c.nodeCount ≤ l.stats.chunks
  untruncated : l.stats.truncated = j.stats.truncated →
    l.stats.chunks = j.stats.chunks + c.nodeCount

theorem yields_of_decompose {s : Statement} {rendered : Text} {j l : Journal} {c : Chunk}
    (h : S.decompose s rendered j = .ok (c, l)) : S.Yields (S.produced s rendered) j c l := by
  obtain ⟨htree, hproduced⟩ := produced_of_settle.settle h
  have hdropped := (none_dropped_of_settle.settle h).2
  have hcount := Production.count_eq S.placeholder (S.produced s rendered)
  rw [← produced] at htree hproduced hdropped
  rw [← htree] at hcount
  refine ⟨htree, hproduced, by omega, by omega, fun hsame => ?_⟩
  have := hdropped hsame
  omega

theorem chunks_accounted (S : Splitter) :
    (∀ (s : Statement) (rendered : Text) (j l : Journal) (c : Chunk),
      S.decompose s rendered j = .ok (c, l) → S.Yields (S.produced s rendered) j c l) ∧
    ∀ (u : SourceUnit) (j l : Journal) (c : Chunk),
      S.splitUnit u j = .ok (c, l) → S.Yields (S.producedOfUnit u) j c l := by
  refine ⟨fun s rendered j l c h => yields_of_decompose h, fun u j l c h => ?_⟩
  rcases splitUnit_eq_ok h with ⟨hfits, rfl, rfl⟩ | ⟨hover, hrun⟩
  · rw [producedOfUnit, if_pos hfits]
    exact ⟨rfl, rfl, rfl, Nat.le_refl _, fun _ => rfl⟩
  · rw [producedOfUnit, hover, if_neg Bool.false_ne_true]
    obtain ⟨htree, hproduced, hexcess, hle, huntruncated⟩ := yields_of_decompose hrun
    exact ⟨htree, hproduced, hexcess, hle, huntruncated⟩

/-- The cut divides the first placeholder, so the loop is lost with its body, and what follows it. -/
theorem chunks_accounted_sampleBody :
    ∃ c l, (sampleSplitter 9).splitUnit sampleUnit Journal.empty = .ok (c, l) ∧
      c.nodeCount = 1 ∧ l.stats.chunks = 4 ∧
      ((sampleSplitter 9).producedOfUnit sampleUnit).dropped "<B>".toList = 3 ∧
      (sampleSplitter 9).Yields ((sampleSplitter 9).producedOfUnit sampleUnit) Journal.empty c l :=
  ⟨_, _, rfl, rfl, rfl, rfl,
    (chunks_accounted (sampleSplitter 9)).2 sampleUnit Journal.empty _ _ rfl⟩

end Splitter
end ChunkTree

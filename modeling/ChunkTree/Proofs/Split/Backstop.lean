import ChunkTree.Proofs.Split.Consumption
import ChunkTree.Proofs.Split.Production
import ChunkTree.Proofs.Split.Returning

/-!
What the backstop takes away. The placeholders put into a content are known by the steps that put them
in, whatever else looks like one, and a truncation takes off no more than the one that it divides.
-/

namespace ChunkTree

theorem filter_zip_eq_take {α β : Type} {q : α → Bool} {ms : List α}
    (hms : ms.Pairwise (fun m n => q n = true → q m = true)) (xs : List β) :
    ((ms.zip xs).filter (fun x => q x.1)).map Prod.snd = xs.take (ms.countP q) := by
  induction ms generalizing xs with
  | nil => rfl
  | cons m ms ih =>
    obtain ⟨hm, hms⟩ := List.pairwise_cons.mp hms
    cases xs with
    | nil => simp
    | cons x xs =>
      cases hq : q m with
      | true => simp [hq, ih hms]
      | false =>
        have hnone : ∀ n ∈ ms, ¬ q n = true := fun n hn hqn => by simp [hm n hn hqn] at hq
        have hcount : ms.countP q = 0 := List.countP_eq_zero.mpr hnone
        have hrest := ih hms xs
        rw [hcount] at hrest
        simp [hq, hcount, hrest]

namespace Frame

variable {δ : Type} {p : Text}

def insertedAfter (p front : Text) : List (Step δ) → List Text
  | [] => []
  | .note _ :: rest => insertedAfter p front rest
  | .cut gap _ _ :: rest => (front ++ gap) :: insertedAfter p (front ++ gap ++ p) rest

def inserted (p : Text) (f : Frame δ) : List Text := insertedAfter p [] f.steps

def Halved (p before cut : Text) : Prop :=
  ∃ half, cut = before ++ half ∧ half ≠ [] ∧ half <+: p ∧ half ≠ p

theorem map_byteLength_insertedAfter (front : Text) (steps : List (Step δ)) :
    (insertedAfter p front steps).map Text.byteLength =
      markersFrom p (Text.byteLength front) steps := by
  induction steps generalizing front with
  | nil => rfl
  | cons step steps ih =>
    cases step with
    | note n => exact ih front
    | cut gap stretch part =>
      rw [insertedAfter, markersFrom, List.map_cons, ih]
      simp only [Text.byteLength_append]

theorem isPrefix_of_mem_insertedAfter {front before : Text} {steps : List (Step δ)} (rest : Text)
    (h : before ∈ insertedAfter p front steps) :
    front <+: before ∧ before ++ p <+: front ++ content p ⟨steps, rest⟩ := by
  induction steps generalizing front with
  | nil => simp [insertedAfter] at h
  | cons step steps ih =>
    cases step with
    | note n => exact ih h
    | cut gap stretch part =>
      have hcontent : front ++ content p ⟨.cut gap stretch part :: steps, rest⟩ =
          front ++ gap ++ p ++ content p ⟨steps, rest⟩ := by
        simp
      rw [hcontent]
      rw [insertedAfter, List.mem_cons] at h
      rcases h with rfl | h
      · exact ⟨List.prefix_append _ _, List.prefix_append _ _⟩
      · obtain ⟨hfront, hcontent⟩ := ih h
        refine ⟨List.IsPrefix.trans ?_ hfront, hcontent⟩
        rw [List.append_assoc]
        exact List.prefix_append _ _

theorem pairwise_insertedAfter (front : Text) (steps : List (Step δ)) :
    (insertedAfter p front steps).Pairwise (fun before next => before ++ p <+: next) := by
  induction steps generalizing front with
  | nil => exact .nil
  | cons step steps ih =>
    cases step with
    | note n => exact ih front
    | cut gap stretch part =>
      refine List.pairwise_cons.mpr ⟨fun next hnext => ?_, ih _⟩
      exact (isPrefix_of_mem_insertedAfter [] hnext).1

theorem isPrefix_of_mem_inserted {f : Frame δ} {before : Text} (h : before ∈ f.inserted p) :
    before ++ p <+: f.content p :=
  (isPrefix_of_mem_insertedAfter f.rest h).2

theorem map_byteLength_inserted (f : Frame δ) :
    (f.inserted p).map Text.byteLength = f.markers p :=
  map_byteLength_insertedAfter [] f.steps

theorem mem_inserted_iff {f : Frame δ} {before : Text} (h : before <+: f.content p) :
    before ∈ f.inserted p ↔ Text.byteLength before ∈ f.markers p := by
  rw [← map_byteLength_inserted, List.mem_map]
  constructor
  · intro hbefore
    exact ⟨before, hbefore, rfl⟩
  · rintro ⟨x, hx, hlength⟩
    have hxContent := (List.prefix_append x p).trans (isPrefix_of_mem_inserted hx)
    have hxBefore := Text.isPrefix_of_byteLength_le hxContent h (Nat.le_of_eq hlength)
    have hbeforeX := Text.isPrefix_of_byteLength_le h hxContent (Nat.le_of_eq hlength.symm)
    rwa [← hxBefore.eq_of_length_le hbeforeX.length_le]

theorem divides_iff {f : Frame δ} {cut before : Text} (hcut : cut <+: f.content p) :
    f.Divides p cut before ↔ before ∈ f.inserted p ∧ Halved p before cut := by
  constructor
  · rintro ⟨hstart, hmarker, hbegins, hends⟩
    have hbefore := (mem_inserted_iff hstart).mpr hmarker
    refine ⟨hbefore, ?_⟩
    obtain ⟨half, rfl⟩ := Text.isPrefix_of_byteLength_le hstart hcut (Nat.le_of_lt hbegins)
    have hhalf : before ++ half <+: before ++ p := by
      apply Text.isPrefix_of_byteLength_le hcut (isPrefix_of_mem_inserted hbefore)
      rw [Text.byteLength_append before p]
      exact Nat.le_of_lt hends
    refine ⟨half, rfl, ?_, (List.prefix_append_right_inj before).mp hhalf, ?_⟩
    · rintro rfl
      simp at hbegins
    · rintro rfl
      simp at hends
  · rintro ⟨hbefore, half, rfl, hne, ⟨other, rfl⟩, hproper⟩
    have hstart := (List.prefix_append before (half ++ other)).trans (isPrefix_of_mem_inserted hbefore)
    have hhalf : Text.byteLength half ≠ 0 := fun h => hne (Text.byteLength_eq_zero h)
    have hother : Text.byteLength other ≠ 0 := by
      intro h
      simp [Text.byteLength_eq_zero h] at hproper
    refine ⟨hstart, (mem_inserted_iff hstart).mp hbefore, ?_, ?_⟩
    · rw [Text.byteLength_append]
      omega
    · simp only [Text.byteLength_append]
      omega

end Frame

namespace Splitter

variable {S : Splitter}

structure Backstopped {δ : Type} (S : Splitter) (f : Frame δ) (children : List Chunk) (c : Chunk) :
    Prop where
  fitting : S.oracle.fitsUnit (f.content S.placeholder) = true →
    c.content = f.content S.placeholder
  whole : S.oracle.fitsUnit (f.content S.placeholder) = false →
    (∀ before ∈ f.inserted S.placeholder,
      ¬ Frame.Halved S.placeholder before (S.oracle.truncate (f.content S.placeholder))) →
    c.content = S.oracle.truncate (f.content S.placeholder)
  halved : S.oracle.fitsUnit (f.content S.placeholder) = false →
    ∀ before ∈ f.inserted S.placeholder,
      Frame.Halved S.placeholder before (S.oracle.truncate (f.content S.placeholder)) →
      c.content = before
  lost : S.oracle.fitsUnit (f.content S.placeholder) = false →
    c.content = S.oracle.truncate (f.content S.placeholder) ∨
      c.content ∈ f.inserted S.placeholder ∧
      Frame.Halved S.placeholder c.content (S.oracle.truncate (f.content S.placeholder))
  kept : c.children = (((f.inserted S.placeholder).zip children).filter fun x =>
    x.1 ++ S.placeholder <+: c.content).map Prod.snd

/-- The chunk comes from the dissection: the children are made of the parts, and the backstop has left
it of the content and of these children. -/
inductive Backs (S : Splitter) : Dissection → Chunk → Prop where
  | intro {d : Dissection} {children : List Chunk} {c : Chunk}
      (parts : List.Forall₂ (Backs S) d.frame.parts children)
      (left : S.Backstopped d.frame children c) : Backs S d c

theorem wholeMarkers_eq_countP {δ : Type} {f : Frame δ} {t : Text}
    (ht : t <+: f.content S.placeholder) :
    S.wholeMarkers (f.markers S.placeholder) (Text.byteLength t) =
      (f.inserted S.placeholder).countP (fun before => before ++ S.placeholder <+: t) := by
  rw [wholeMarkers, ← Frame.map_byteLength_inserted, List.countP_map]
  refine List.countP_congr fun before hbefore => ?_
  have hmarker := Frame.isPrefix_of_mem_inserted hbefore
  simp only [Function.comp_apply, decide_eq_true_eq, ← Text.byteLength_append]
  constructor
  · exact Text.isPrefix_of_byteLength_le hmarker ht
  · exact Text.byteLength_le_of_isPrefix

theorem kept_eq_take {δ : Type} {f : Frame δ} {t : Text} (ht : t <+: f.content S.placeholder)
    (children : List Chunk) :
    (((f.inserted S.placeholder).zip children).filter fun x =>
        x.1 ++ S.placeholder <+: t).map Prod.snd =
      children.take (S.wholeMarkers (f.markers S.placeholder) (Text.byteLength t)) := by
  rw [wholeMarkers_eq_countP ht]
  apply filter_zip_eq_take (q := fun before => before ++ S.placeholder <+: t)
  -- a placeholder that lies in the text has all those before it in the text
  refine (Frame.pairwise_insertedAfter [] f.steps).imp fun {before next} hnext hinside => ?_
  rw [decide_eq_true_eq] at hinside ⊢
  exact hnext.trans ((List.prefix_append next _).trans hinside)

theorem backstopped_of_enforce (ho : ∀ t, S.oracle.truncate t <+: t) {s : Statement}
    {f : Frame Dissection} {children : List Chunk} {j k : Journal} {c : Chunk}
    (hlength : children.length = f.parts.length)
    (h : S.enforce s (f.content S.placeholder) (f.markers S.placeholder) children j = .ok (c, k)) :
    S.Backstopped f children c := by
  rcases enforce_eq_ok h with ⟨hfits, rfl, -⟩ | ⟨out, hover, hsnap, -, rfl, -⟩
  · refine ⟨fun _ => rfl, ?_, ?_, ?_, ?_⟩
    · simp [hfits]
    · simp [hfits]
    · simp [hfits]
    · have hall : S.wholeMarkers (f.markers S.placeholder)
          (Text.byteLength (f.content S.placeholder)) = children.length :=
        (wholeMarkers_content f).trans hlength.symm
      rw [kept_eq_take (List.prefix_refl _), hall, List.take_length]
  · have hcut := ho (f.content S.placeholder)
    obtain ⟨hout, honly⟩ := snap_divides hcut hsnap
    simp only [Frame.divides_iff hcut] at hout honly
    refine ⟨by simp [hover], fun _ hwhole => ?_, fun _ before hbefore hhalved => ?_, fun _ => hout, ?_⟩
    · rcases hout with hout | ⟨hinserted, hhalved⟩
      · exact hout
      · exact absurd hhalved (hwhole out hinserted)
    · exact (honly before ⟨hbefore, hhalved⟩).symm
    · have hstart : out <+: f.content S.placeholder := by
        rcases hout with rfl | ⟨hinserted, -⟩
        · exact hcut
        · exact (List.prefix_append out _).trans (Frame.isPrefix_of_mem_inserted hinserted)
      exact (kept_eq_take hstart children).symm

theorem backs_of_settle (ho : ∀ t, S.oracle.truncate t <+: t) :
    Settles S (fun d _ c _ => S.Backs d c)
      (fun steps _ cs _ => List.Forall₂ S.Backs (steps.filterMap Step.part?) cs) where
  nil _ := .nil
  note _ _ _ _ _ ih := ih
  cut _ _ _ _ _ _ _ _ _ hpart hrest := .cons hpart hrest
  node s steps rest j children k₁ c k₂ hrun hsteps henforce := by
    apply Backs.intro hsteps
    exact backstopped_of_enforce ho (length_of_settleSteps hrun) henforce

theorem Backstopped.mem_children {δ : Type} {f : Frame δ} {children : List Chunk} {c x : Chunk}
    (h : S.Backstopped f children c) (hx : x ∈ c.children) : x ∈ children := by
  rw [h.kept, List.mem_map] at hx
  obtain ⟨y, hy, rfl⟩ := hx
  exact (List.of_mem_zip (List.mem_of_mem_filter hy)).2

mutual

theorem Backs.nodes : ∀ (d : Dissection) (depth : Nat) {c : Chunk}, S.Backs d c →
    ∀ y ∈ c.nodes, ∃ n ∈ d.nodes depth, S.Backs n.2 y
  | ⟨s, steps, rest⟩, depth, ⟨content, kept⟩, h => by
    rw [Chunk.nodes, Chunk.nodesAll_eq_flatMap]
    refine List.forall_mem_cons.mpr ⟨⟨_, Dissection.self_mem_nodes depth _, h⟩, fun y hy => ?_⟩
    obtain ⟨x, hx, hy⟩ := List.mem_flatMap.mp hy
    cases h with
    | intro parts left =>
      obtain ⟨n, hn, hback⟩ := Backs.nodesIn steps (depth + 1) parts x (left.mem_children hx) y hy
      exact ⟨n, List.mem_cons_of_mem _ hn, hback⟩

theorem Backs.nodesIn : ∀ (steps : List (Step Dissection)) (depth : Nat) {cs : List Chunk},
    List.Forall₂ S.Backs (steps.filterMap Step.part?) cs →
    ∀ x ∈ cs, ∀ y ∈ x.nodes, ∃ n ∈ Dissection.nodesIn depth steps, S.Backs n.2 y
  | [], depth, cs, h, x, hx, y, hy => by
    cases h
    simp at hx
  | .note n :: rest, depth, cs, h, x, hx, y, hy => Backs.nodesIn rest depth h x hx y hy
  | .cut gap stretch part :: rest, depth, cs, h, x, hx, y, hy => by
    rw [Dissection.nodesIn]
    cases h with
    | cons hpart hrest =>
      rcases List.mem_cons.mp hx with rfl | hx
      · obtain ⟨n, hn, hback⟩ := Backs.nodes part depth hpart y hy
        exact ⟨n, List.mem_append_left _ hn, hback⟩
      · obtain ⟨n, hn, hback⟩ := Backs.nodesIn rest depth hrest x hx y hy
        exact ⟨n, List.mem_append_right _ hn, hback⟩

end

theorem backstop_drops_cut_markers (S : Splitter) (ho : ∀ t, S.oracle.truncate t <+: t) :
    (∀ (s : Statement) (rendered : Text) (j l : Journal) (c : Chunk),
      S.decompose s rendered j = .ok (c, l) →
      S.Backs (S.dissect s (Text.flatten rendered) 0) c ∧
      ∀ y ∈ c.nodes, ∃ n ∈ (S.dissect s (Text.flatten rendered) 0).nodes 0, S.Backs n.2 y) ∧
    ∀ (u : SourceUnit) (j l : Journal) (c : Chunk), S.splitUnit u j = .ok (c, l) →
      S.oracle.fitsUnit (u.signature ++ ' ' :: Text.flatten u.body.render) = true ∧
        c = Chunk.leaf (Text.flatten u.body.render) ∨
      S.Backs (S.dissect (locatedBody u) (Text.flatten (Text.flatten u.body.render)) 0) c ∧
      ∀ y ∈ c.nodes, ∃ n ∈
        (S.dissect (locatedBody u) (Text.flatten (Text.flatten u.body.render)) 0).nodes 0,
        S.Backs n.2 y := by
  have hdecompose : ∀ (s : Statement) (rendered : Text) (j l : Journal) (c : Chunk),
      S.decompose s rendered j = .ok (c, l) →
      S.Backs (S.dissect s (Text.flatten rendered) 0) c ∧
      ∀ y ∈ c.nodes, ∃ n ∈ (S.dissect s (Text.flatten rendered) 0).nodes 0, S.Backs n.2 y := by
    intro s rendered j l c hrun
    have hbacks := (backs_of_settle ho).settle hrun
    exact ⟨hbacks, Backs.nodes _ 0 hbacks⟩
  refine ⟨hdecompose, fun u j l c hrun => ?_⟩
  rcases splitUnit_eq_ok hrun with ⟨hfits, rfl, -⟩ | ⟨-, hrun⟩
  · exact .inl ⟨hfits, rfl⟩
  · exact .inr (hdecompose (locatedBody u) _ _ l c hrun)

/-- The first statement has the look of a placeholder and of a half of one. -/
def markedBody : Statement :=
  .block none
    [.plain none "a <B> b <B;".toList, .plain none "first_step();".toList,
      .plain none "second_step();".toList]

theorem backstop_drops_cut_markers_markedBody :
    (∃ c l, (sampleSplitter 20).decompose markedBody markedBody.render Journal.empty = .ok (c, l) ∧
      c.content = "\x7b a <B> b <B; <B> ".toList ∧ c.children.length = 1 ∧
      (sampleSplitter 20).Backs
        ((sampleSplitter 20).dissect markedBody (Text.flatten markedBody.render) 0) c) ∧
    ∃ c l, (sampleSplitter 12).decompose markedBody markedBody.render Journal.empty = .ok (c, l) ∧
      c.content = "\x7b a <B> b <B".toList ∧ c.children.length = 0 ∧
      (sampleSplitter 12).Backs
        ((sampleSplitter 12).dissect markedBody (Text.flatten markedBody.render) 0) c := by
  have ho : ∀ unit t, (sampleSplitter unit).oracle.truncate t <+: t :=
    fun unit => Truncation.cut_isPrefix .hard Metric.chars unit
  constructor
  · exact ⟨_, _, rfl, rfl, rfl, ((backstop_drops_cut_markers (sampleSplitter 20) (ho 20)).1 markedBody _
      Journal.empty _ _ rfl).1⟩
  · exact ⟨_, _, rfl, rfl, rfl, ((backstop_drops_cut_markers (sampleSplitter 12) (ho 12)).1 markedBody _
      Journal.empty _ _ rfl).1⟩

end Splitter
end ChunkTree

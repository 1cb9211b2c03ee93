import ChunkTree.Proofs.Split.Settling
import ChunkTree.Proofs.Text.Bytes
import ChunkTree.Proofs.Text.Markers

/-!
Front parts of a content that end inside no placeholder. The backstop always leaves one of these, and
it keeps as many children as the front part has placeholders.
-/

namespace ChunkTree

namespace Frame

variable {δ : Type} {p : Text}

@[simp] theorem content_note (n : Note) (steps : List (Step δ)) (rest : Text) :
    content p ⟨.note n :: steps, rest⟩ = content p ⟨steps, rest⟩ := by
  simp [content, Step.replaced]

@[simp] theorem content_cut (gap stretch : Text) (part : δ) (steps : List (Step δ)) (rest : Text) :
    content p ⟨.cut gap stretch part :: steps, rest⟩ = gap ++ (p ++ content p ⟨steps, rest⟩) := by
  simp [content, Step.replaced]

@[simp] theorem uncut_note (n : Note) (steps : List (Step δ)) (rest : Text) :
    uncut ⟨.note n :: steps, rest⟩ = uncut ⟨steps, rest⟩ := by
  simp [uncut, Step.uncut]

@[simp] theorem uncut_cut (gap stretch : Text) (part : δ) (steps : List (Step δ)) (rest : Text) :
    uncut ⟨.cut gap stretch part :: steps, rest⟩ = gap ++ (stretch ++ uncut ⟨steps, rest⟩) := by
  simp [uncut, Step.uncut]

theorem free_cut {gap stretch rest : Text} {part : δ} {steps : List (Step δ)}
    (h : ¬ p <:+: uncut ⟨.cut gap stretch part :: steps, rest⟩) :
    ¬ p <:+: gap ∧ ¬ p <:+: stretch ∧ ¬ p <:+: uncut ⟨steps, rest⟩ := by
  rw [uncut_cut] at h
  have hbehind : ¬ p <:+: stretch ++ uncut ⟨steps, rest⟩ :=
    Text.free_of_isInfix (List.suffix_append gap _).isInfix h
  exact ⟨Text.free_of_isInfix (List.prefix_append gap _).isInfix h,
    Text.free_of_isInfix (List.prefix_append stretch _).isInfix hbehind,
    Text.free_of_isInfix (List.suffix_append stretch _).isInfix hbehind⟩

inductive Front (p : Text) : List (Step δ) → Text → Nat → Text → Prop where
  | rest {rest t : Text} (h : t <+: rest) : Front p [] rest 0 t
  | note {k : Note} {steps : List (Step δ)} {rest t : Text} {n : Nat}
      (h : Front p steps rest n t) : Front p (.note k :: steps) rest n t
  | gap {gap stretch rest t : Text} {part : δ} {steps : List (Step δ)} (h : t <+: gap) :
      Front p (.cut gap stretch part :: steps) rest 0 t
  | cut {gap stretch rest t : Text} {part : δ} {steps : List (Step δ)} {n : Nat}
      (h : Front p steps rest n t) :
      Front p (.cut gap stretch part :: steps) rest (n + 1) (gap ++ (p ++ t))

theorem front_content (p : Text) (steps : List (Step δ)) (rest : Text) :
    Front p steps rest (steps.filterMap Step.part?).length (content p ⟨steps, rest⟩) := by
  induction steps with
  | nil => exact .rest (List.prefix_refl rest)
  | cons step steps ih =>
    cases step with
    | note n => exact .note ih
    | cut gap stretch part =>
      rw [content_cut]
      exact .cut ih

theorem Front.le_length {steps : List (Step δ)} {rest t : Text} {n : Nat}
    (h : Front p steps rest n t) : n ≤ (steps.filterMap Step.part?).length := by
  induction h with
  | rest h => simp
  | note h ih => simpa [List.filterMap_cons, Step.part?] using ih
  | gap h => simp
  | cut h ih => simpa [List.filterMap_cons, Step.part?] using ih

theorem Front.occurrences {steps : List (Step δ)} {rest t : Text} {n : Nat}
    (h : Front p steps rest n t) (hp : Text.Unbordered p) (hfree : ¬ p <:+: uncut ⟨steps, rest⟩) :
    Text.occurrences p t = n := by
  induction h with
  | rest h => exact Text.occurrences_free (Text.free_of_isInfix h.isInfix hfree)
  | note h ih => exact ih hfree
  | gap h => exact Text.occurrences_free (Text.free_of_isInfix h.isInfix (free_cut hfree).1)
  | cut h ih =>
    obtain ⟨hgap, -, htail⟩ := free_cut hfree
    rw [Text.occurrences_gap hp hgap, ih htail]

theorem le_of_mem_markersFrom {offset m : Nat} {steps : List (Step δ)}
    (h : m ∈ markersFrom p offset steps) : offset ≤ m := by
  induction steps generalizing offset with
  | nil => simp [markersFrom] at h
  | cons step steps ih =>
    cases step with
    | note n => exact ih h
    | cut gap stretch part =>
      rw [markersFrom, List.mem_cons] at h
      rcases h with rfl | h
      · omega
      · have := ih h
        omega

theorem Front.apart {steps : List (Step δ)} {rest t : Text} {n : Nat} (h : Front p steps rest n t)
    {offset m : Nat} (hm : m ∈ markersFrom p offset steps) :
    offset + Text.byteLength t ≤ m ∨ m + Text.byteLength p ≤ offset + Text.byteLength t := by
  induction h generalizing offset with
  | rest h => simp [markersFrom] at hm
  | note h ih => exact ih hm
  | gap h =>
    have hle := Text.byteLength_le_of_isPrefix h
    rw [markersFrom, List.mem_cons] at hm
    rcases hm with rfl | hm
    · omega
    · have := le_of_mem_markersFrom hm
      omega
  | cut h ih =>
    rw [markersFrom, List.mem_cons] at hm
    simp only [Text.byteLength_append]
    rcases hm with rfl | hm
    · omega
    · have := ih hm
      omega

end Frame

namespace Splitter

variable {S : Splitter} {δ : Type}

theorem dividedMarker?_cons (m : Nat) (ms : List Nat) (size : Nat) :
    S.dividedMarker? (m :: ms) size =
      if m < size ∧ size < m + Text.byteLength S.placeholder then some m
      else S.dividedMarker? ms size := by
  rw [dividedMarker?, List.find?_cons]
  by_cases h : m < size ∧ size < m + Text.byteLength S.placeholder
  · simp [h]
  · rw [if_neg h]
    have hm : (decide (m < size) && decide (size < m + Text.byteLength S.placeholder)) = false := by
      simpa using h
    rw [hm, dividedMarker?]

theorem wholeMarkers_cons (m : Nat) (ms : List Nat) (size : Nat) :
    S.wholeMarkers (m :: ms) size =
      S.wholeMarkers ms size + if m + Text.byteLength S.placeholder ≤ size then 1 else 0 := by
  simp [wholeMarkers, List.countP_cons]

theorem dividedMarker?_beyond {ms : List Nat} {size : Nat} (h : ∀ m ∈ ms, size ≤ m) :
    S.dividedMarker? ms size = none := by
  refine List.find?_eq_none.mpr fun m hm => ?_
  have := h m hm
  simp only [Bool.and_eq_true, decide_eq_true_eq]
  omega

theorem wholeMarkers_beyond {ms : List Nat} {size : Nat} (h : ∀ m ∈ ms, size < m) :
    S.wholeMarkers ms size = 0 := by
  refine List.countP_eq_zero.mpr fun m hm => ?_
  have := h m hm
  simp only [decide_eq_true_eq]
  omega

theorem front_gap {gap stretch rest out : Text} {part : δ} {steps : List (Step δ)} (offset : Nat)
    (hout : out <+: gap)
    (hshort : Text.byteLength out < Text.byteLength gap + Text.byteLength S.placeholder) :
    Frame.Front S.placeholder (.cut gap stretch part :: steps) rest
      (S.wholeMarkers (Frame.markersFrom S.placeholder offset (.cut gap stretch part :: steps))
        (offset + Text.byteLength out)) out := by
  have hbeyond : ∀ m ∈ Frame.markersFrom S.placeholder
      (offset + Text.byteLength gap + Text.byteLength S.placeholder) steps,
      offset + Text.byteLength out < m := by
    intro m hm
    have := Frame.le_of_mem_markersFrom hm
    omega
  simp only [Frame.markersFrom, wholeMarkers_cons]
  rw [if_neg (by omega), wholeMarkers_beyond hbeyond]
  exact .gap hout

theorem front_of_markersFrom {steps : List (Step δ)} {rest cut : Text} (offset : Nat)
    (h : cut <+: Frame.content S.placeholder ⟨steps, rest⟩) :
    ∃ out, out <+: cut ∧
      Frame.Front S.placeholder steps rest
        (S.wholeMarkers (Frame.markersFrom S.placeholder offset steps)
          (offset + Text.byteLength out)) out ∧
      (S.dividedMarker? (Frame.markersFrom S.placeholder offset steps)
          (offset + Text.byteLength cut) = none ∧ out = cut ∨
        S.dividedMarker? (Frame.markersFrom S.placeholder offset steps)
          (offset + Text.byteLength cut) = some (offset + Text.byteLength out)) := by
  -- the markers are those behind an offset, as the induction goes from the steps to their tail
  induction steps generalizing offset cut with
  | nil => exact ⟨cut, List.prefix_refl cut, .rest h, .inl ⟨rfl, rfl⟩⟩
  | cons step steps ih =>
    cases step with
    | note n =>
      obtain ⟨out, hout, hfront, hdivided⟩ := ih offset h
      exact ⟨out, hout, .note hfront, hdivided⟩
    | cut gap stretch part =>
      rw [Frame.content_cut] at h
      have hgap : gap <+: gap ++ (S.placeholder ++ Frame.content S.placeholder ⟨steps, rest⟩) :=
        List.prefix_append _ _
      by_cases hwhole : Text.byteLength gap + Text.byteLength S.placeholder ≤ Text.byteLength cut
      · -- the first placeholder lies in the cut, which goes on behind it
        have hfirst : gap ++ S.placeholder <+:
            gap ++ (S.placeholder ++ Frame.content S.placeholder ⟨steps, rest⟩) := by
          rw [← List.append_assoc]
          exact List.prefix_append _ _
        obtain ⟨cut', rfl⟩ := Text.isPrefix_of_byteLength_le hfirst h (by simpa using hwhole)
        rw [List.append_assoc, List.prefix_append_right_inj, List.prefix_append_right_inj] at h
        obtain ⟨out, hout, hfront, hdivided⟩ :=
          ih (offset + Text.byteLength gap + Text.byteLength S.placeholder) h
        simp only [Frame.markersFrom, dividedMarker?_cons, wholeMarkers_cons]
        refine ⟨gap ++ (S.placeholder ++ out), ?_, ?_, ?_⟩
        · simpa using hout
        · rw [if_pos (by simp; omega)]
          simp only [Text.byteLength_append, ← Nat.add_assoc] at hfront ⊢
          exact .cut hfront
        · rw [if_neg (by simp; omega)]
          simpa [Nat.add_assoc] using hdivided
      · by_cases hinside : Text.byteLength cut ≤ Text.byteLength gap
        · -- the cut ends before the first placeholder
          have hcut := Text.isPrefix_of_byteLength_le h hgap hinside
          refine ⟨cut, List.prefix_refl cut, front_gap offset hcut (by omega), .inl ⟨?_, rfl⟩⟩
          refine dividedMarker?_beyond fun m hm => ?_
          rw [Frame.markersFrom, List.mem_cons] at hm
          rcases hm with rfl | hm
          · omega
          · have := Frame.le_of_mem_markersFrom hm
            omega
        · -- the cut divides the first placeholder
          have hout := Text.isPrefix_of_byteLength_le hgap h (by omega)
          refine ⟨gap, hout, front_gap offset (List.prefix_refl gap) (by omega), .inr ?_⟩
          rw [Frame.markersFrom, dividedMarker?_cons, if_pos (by omega)]

theorem snap_front {f : Frame δ} {cut : Text} (h : cut <+: f.content S.placeholder) :
    ∃ out, S.snap (f.markers S.placeholder) cut = .ok out ∧ out <+: cut ∧
      Frame.Front S.placeholder f.steps f.rest
        (S.wholeMarkers (f.markers S.placeholder) (Text.byteLength out)) out := by
  obtain ⟨out, hout, hfront, hdivided⟩ := front_of_markersFrom 0 h
  simp only [Nat.zero_add] at hfront hdivided
  refine ⟨out, ?_, hout, hfront⟩
  rw [snap, Frame.markers]
  rcases hdivided with ⟨hnone, rfl⟩ | hsome
  · simp [hnone]
  · obtain ⟨r, hr⟩ := Text.splitAtByte?_of_isPrefix hout
    simp [hsome, hr]

theorem snap_eq_ok {markers : List Nat} {cut out : Text} (h : S.snap markers cut = .ok out) :
    out = cut ∨ out <+: cut ∧ Text.byteLength out ∈ markers ∧
      Text.byteLength out < Text.byteLength cut ∧
      Text.byteLength cut < Text.byteLength out + Text.byteLength S.placeholder := by
  rw [snap] at h
  cases hdivided : S.dividedMarker? markers (Text.byteLength cut) with
  | none =>
    simp only [hdivided, Except.ok.injEq] at h
    exact .inl h.symm
  | some start =>
    simp only [hdivided] at h
    cases hsplit : Text.splitAtByte? start cut with
    | none => simp [hsplit] at h
    | some r =>
      obtain ⟨before, after⟩ := r
      simp only [hsplit, Except.ok.injEq] at h
      subst h
      obtain ⟨hcut, rfl⟩ := Text.splitAtByte?_eq_some hsplit
      have hinside := List.find?_some hdivided
      simp only [Bool.and_eq_true, decide_eq_true_eq] at hinside
      exact .inr ⟨⟨after, hcut.symm⟩, List.mem_of_find?_eq_some hdivided, hinside⟩

theorem isPrefix_of_snap {f : Frame δ} {cut out t : Text} {n : Nat}
    (hsnap : S.snap (f.markers S.placeholder) cut = .ok out)
    (hfront : Frame.Front S.placeholder f.steps f.rest n t) (ht : t <+: cut) : t <+: out := by
  rcases snap_eq_ok hsnap with rfl | ⟨hout, hmarker, -, hends⟩
  · exact ht
  · have hshort := Text.byteLength_le_of_isPrefix ht
    have hbefore : Text.byteLength t ≤ Text.byteLength out := by
      rcases hfront.apart hmarker with h | h <;> omega
    exact Text.isPrefix_of_byteLength_le ht hout hbefore

theorem snap_mono {f : Frame δ} {cut longer out outLonger : Text} (hcut : cut <+: longer)
    (hlonger : longer <+: f.content S.placeholder)
    (hout : S.snap (f.markers S.placeholder) cut = .ok out)
    (houtLonger : S.snap (f.markers S.placeholder) longer = .ok outLonger) : out <+: outLonger := by
  obtain ⟨out', hout', hle, hfront⟩ := snap_front (hcut.trans hlonger)
  obtain rfl : out = out' := by simpa [hout] using hout'
  exact isPrefix_of_snap houtLonger hfront (hle.trans hcut)

theorem wholeMarkers_mono {markers : List Nat} {size larger : Nat} (h : size ≤ larger) :
    S.wholeMarkers markers size ≤ S.wholeMarkers markers larger := by
  refine List.countP_mono_left fun m _ hm => ?_
  simp only [decide_eq_true_eq] at hm ⊢
  omega

theorem enforce_front (ho : ∀ t, S.oracle.truncate t <+: t) {s : Statement} {f : Frame δ}
    {children : List Chunk} {j k : Journal} {c : Chunk}
    (hlength : children.length = (f.steps.filterMap Step.part?).length)
    (h : S.enforce s (f.content S.placeholder) (f.markers S.placeholder) children j = .ok (c, k)) :
    ∃ n, Frame.Front S.placeholder f.steps f.rest n c.content ∧ c.children = children.take n := by
  rcases enforce_eq_ok h with ⟨-, rfl, -⟩ | ⟨cut, -, hsnap, -, rfl, -⟩
  · refine ⟨children.length, ?_, (List.take_length).symm⟩
    rw [hlength]
    exact Frame.front_content S.placeholder f.steps f.rest
  · obtain ⟨out, hout, -, hfront⟩ := snap_front (ho (f.content S.placeholder))
    rw [hsnap, Except.ok.injEq] at hout
    exact ⟨_, hout ▸ hfront, rfl⟩

end Splitter
end ChunkTree

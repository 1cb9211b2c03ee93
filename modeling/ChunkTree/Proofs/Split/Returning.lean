import ChunkTree.Proofs.Oracle.Loops
import ChunkTree.Proofs.Split.Completeness
import ChunkTree.Proofs.Split.Front

/-!
When a run comes to an end. An oracle that keeps to its contract is blamed all the same where its cut
divides a placeholder and the text before the placeholder measures more than the cut.
-/

namespace ChunkTree

namespace Frame

variable {δ : Type} {p : Text}

structure Divides (p : Text) (f : Frame δ) (cut before : Text) : Prop where
  isPrefix : before <+: f.content p
  marker : Text.byteLength before ∈ f.markers p
  begins : Text.byteLength before < Text.byteLength cut
  ends : Text.byteLength cut < Text.byteLength before + Text.byteLength p

theorem front_of_mem_markersFrom {steps : List (Step δ)} {rest t : Text} (offset : Nat)
    (ht : t <+: content p ⟨steps, rest⟩)
    (hm : offset + Text.byteLength t ∈ markersFrom p offset steps) : ∃ n, Front p steps rest n t := by
  induction steps generalizing offset t with
  | nil => simp [markersFrom] at hm
  | cons step steps ih =>
    cases step with
    | note k =>
      obtain ⟨n, hn⟩ := ih offset ht hm
      exact ⟨n, .note hn⟩
    | cut gap stretch part =>
      rw [content_cut] at ht
      rw [markersFrom, List.mem_cons] at hm
      rcases hm with hm | hm
      · exact ⟨0, .gap (Text.isPrefix_of_byteLength_le ht (List.prefix_append _ _) (by omega))⟩
      · have hbehind := le_of_mem_markersFrom hm
        have hfirst : gap ++ p <+: gap ++ (p ++ content p ⟨steps, rest⟩) := by
          rw [← List.append_assoc]
          exact List.prefix_append _ _
        obtain ⟨t', rfl⟩ := Text.isPrefix_of_byteLength_le hfirst ht
          (by rw [Text.byteLength_append]; omega)
        rw [List.append_assoc, List.prefix_append_right_inj, List.prefix_append_right_inj] at ht
        simp only [Text.byteLength_append, ← Nat.add_assoc] at hm
        obtain ⟨n, hn⟩ := ih _ ht hm
        rw [List.append_assoc]
        exact ⟨n + 1, .cut hn⟩

end Frame

namespace Splitter

variable {S : Splitter} {δ : Type}

theorem snap_divides {f : Frame δ} {cut out : Text} (hcut : cut <+: f.content S.placeholder)
    (hsnap : S.snap (f.markers S.placeholder) cut = .ok out) :
    (out = cut ∨ f.Divides S.placeholder cut out) ∧
      ∀ before, f.Divides S.placeholder cut before → before = out := by
  obtain ⟨out', hout', hle, hfront⟩ := snap_front hcut
  obtain rfl : out = out' := by simpa [hsnap] using hout'
  constructor
  · rcases snap_eq_ok hsnap with rfl | ⟨-, hmarker, hbegins, hends⟩
    · exact .inl rfl
    · exact .inr ⟨hle.trans hcut, hmarker, hbegins, hends⟩
  · intro before hbefore
    have hmarker : 0 + Text.byteLength before ∈ Frame.markersFrom S.placeholder 0 f.steps := by
      rw [Nat.zero_add]
      exact hbefore.marker
    obtain ⟨n, hn⟩ := Frame.front_of_mem_markersFrom 0 hbefore.isPrefix hmarker
    have hwithin := Text.isPrefix_of_byteLength_le hbefore.isPrefix hcut (Nat.le_of_lt hbefore.begins)
    have hbeforeOut : before <+: out := isPrefix_of_snap hsnap hn hwithin
    -- a front part reaches no further than the placeholder that the cut divides
    have hshort : Text.byteLength out ≤ Text.byteLength before := by
      have hends := hbefore.ends
      have houtCut := Text.byteLength_le_of_isPrefix hle
      rcases hfront.apart hmarker with h | h <;> omega
    have houtBefore := Text.isPrefix_of_byteLength_le (hle.trans hcut) hbefore.isPrefix hshort
    exact hbeforeOut.eq_of_length_le houtBefore.length_le

/-- The content fits the unit budget, or what its truncation is taken back to does. -/
def Spares (S : Splitter) (f : Frame δ) : Prop :=
  S.oracle.fitsUnit (f.content S.placeholder) = false →
    ∀ before, f.Divides S.placeholder (S.oracle.truncate (f.content S.placeholder)) before →
      S.oracle.fitsUnit before = true

theorem enforce_returns_iff (ho : S.oracle.Honest) (s : Statement) (f : Frame δ)
    (children : List Chunk) (j : Journal) :
    (∃ c k, S.enforce s (f.content S.placeholder) (f.markers S.placeholder) children j =
      .ok (c, k)) ↔ S.Spares f := by
  have hprefix := ho.isPrefix (f.content S.placeholder)
  constructor
  · rintro ⟨c, k, h⟩ hover before hbefore
    rcases enforce_eq_ok h with ⟨hfits, -⟩ | ⟨cut, -, hsnap, hfits, -⟩
    · simp [hfits] at hover
    · rwa [(snap_divides hprefix hsnap).2 before hbefore]
  · intro hspares
    rw [enforce]
    cases hfits : S.oracle.fitsUnit (f.content S.placeholder) with
    | true => exact ⟨_, _, rfl⟩
    | false =>
      obtain ⟨out, hsnap, -⟩ := snap_front hprefix
      have hout : S.oracle.fitsUnit out = true := by
        rcases (snap_divides hprefix hsnap).1 with rfl | hdivides
        · exact ho.fits _
        · exact hspares hfits out hdivides
      simp [hsnap, hout]

mutual

theorem settle_returns_iff (ho : S.oracle.Honest) :
    ∀ (d : Dissection) (depth : Nat) (j : Journal),
      (∃ c l, S.settle d j = .ok (c, l)) ↔ ∀ p ∈ d.nodes depth, S.Spares p.2.frame
  | ⟨s, steps, rest⟩, depth, j => by
    rw [Dissection.nodes, List.forall_mem_cons]
    constructor
    · rintro ⟨c, l, h⟩
      obtain ⟨children, k, k', hsteps, henforce, -⟩ := settle_eq_ok h
      exact ⟨(enforce_returns_iff ho s ⟨steps, rest⟩ children k).mp ⟨c, k', henforce⟩,
        (settleSteps_returns_iff ho steps (depth + 1) j).mp ⟨children, k, hsteps⟩⟩
    · rintro ⟨hroot, hin⟩
      obtain ⟨children, k, hsteps⟩ := (settleSteps_returns_iff ho steps (depth + 1) j).mpr hin
      obtain ⟨c, k', henforce⟩ := (enforce_returns_iff ho s ⟨steps, rest⟩ children k).mpr hroot
      exact ⟨c, countChunk k', by simp [settle, hsteps, henforce]⟩

theorem settleSteps_returns_iff (ho : S.oracle.Honest) :
    ∀ (steps : List (Step Dissection)) (depth : Nat) (j : Journal),
      (∃ cs l, S.settleSteps steps j = .ok (cs, l)) ↔
        ∀ p ∈ Dissection.nodesIn depth steps, S.Spares p.2.frame
  | [], depth, j => by simp [settleSteps, Dissection.nodesIn]
  | .note n :: rest, depth, j => by
    rw [settleSteps, Dissection.nodesIn]
    exact settleSteps_returns_iff ho rest depth (S.noteInto j n)
  | .cut gap stretch part :: rest, depth, j => by
    rw [Dissection.nodesIn, List.forall_mem_append]
    constructor
    · rintro ⟨cs, l, h⟩
      obtain ⟨c, cs, k, hpart, hrest, -⟩ := settleSteps_cut_eq_ok h
      exact ⟨(settle_returns_iff ho part depth j).mp ⟨c, k, hpart⟩,
        (settleSteps_returns_iff ho rest depth k).mp ⟨cs, l, hrest⟩⟩
    · rintro ⟨hin, hafter⟩
      obtain ⟨c, k, hpart⟩ := (settle_returns_iff ho part depth j).mpr hin
      obtain ⟨cs, l, hrest⟩ := (settleSteps_returns_iff ho rest depth k).mpr hafter
      exact ⟨c :: cs, l, by simp [settleSteps, hpart, hrest]⟩

end

theorem enforce_eq_error (ho : ∀ t, S.oracle.truncate t <+: t) {s : Statement} {f : Frame δ}
    {children : List Chunk} {j : Journal} {fault : Fault}
    (h : S.enforce s (f.content S.placeholder) (f.markers S.placeholder) children j =
      .error fault) :
    ∃ n, S.oracle.budgets.unit < n ∧ fault = .overBudget n S.oracle.budgets.unit := by
  rw [enforce] at h
  split at h
  · simp at h
  · obtain ⟨out, hsnap, -⟩ := snap_front (ho (f.content S.placeholder))
    simp only [hsnap] at h
    split at h
    · simp at h
    · rename_i hover
      rw [Oracle.fitsUnit, decide_eq_true_eq, Nat.not_le] at hover
      exact ⟨S.oracle.measure out, hover, (Except.error.inj h).symm⟩

mutual

theorem settle_eq_error : ∀ (d : Dissection) (depth : Nat) {j : Journal} {fault : Fault},
    S.settle d j = .error fault → ∃ p ∈ d.nodes depth, ∃ children k,
      S.enforce p.2.statement (p.2.frame.content S.placeholder) (p.2.frame.markers S.placeholder)
        children k = .error fault
  | ⟨s, steps, rest⟩, depth, j, fault, h => by
    rw [settle] at h
    cases hsteps : S.settleSteps steps j with
    | error fault' =>
      simp only [hsteps, Except.error.injEq] at h
      obtain ⟨p, hp, hfault⟩ := settleSteps_eq_error steps (depth + 1) (h ▸ hsteps)
      exact ⟨p, List.mem_cons_of_mem _ hp, hfault⟩
    | ok x =>
      obtain ⟨children, k⟩ := x
      simp only [hsteps] at h
      refine ⟨(depth, ⟨s, steps, rest⟩), Dissection.self_mem_nodes depth _, children, k, ?_⟩
      split at h
      · rename_i henforce
        exact henforce.trans h
      · simp at h

theorem settleSteps_eq_error : ∀ (steps : List (Step Dissection)) (depth : Nat) {j : Journal}
    {fault : Fault}, S.settleSteps steps j = .error fault →
      ∃ p ∈ Dissection.nodesIn depth steps, ∃ children k,
        S.enforce p.2.statement (p.2.frame.content S.placeholder)
          (p.2.frame.markers S.placeholder) children k = .error fault
  | [], depth, j, fault, h => by simp [settleSteps] at h
  | .note n :: rest, depth, j, fault, h => by
    rw [settleSteps] at h
    exact settleSteps_eq_error rest depth h
  | .cut gap stretch part :: rest, depth, j, fault, h => by
    rw [settleSteps] at h
    rw [Dissection.nodesIn]
    cases hpart : S.settle part j with
    | error fault' =>
      simp only [hpart, Except.error.injEq] at h
      obtain ⟨p, hp, hfault⟩ := settle_eq_error part depth (h ▸ hpart)
      exact ⟨p, List.mem_append_left _ hp, hfault⟩
    | ok x =>
      obtain ⟨c, k⟩ := x
      simp only [hpart] at h
      cases hrest : S.settleSteps rest k with
      | error fault' =>
        simp only [hrest, Except.error.injEq] at h
        obtain ⟨p, hp, hfault⟩ := settleSteps_eq_error rest depth (h ▸ hrest)
        exact ⟨p, List.mem_append_right _ hp, hfault⟩
      | ok y => simp [hrest] at h

end

theorem spares_of_monotone (ho : S.oracle.Honest) (hm : Metric.Monotone S.oracle.measure)
    (f : Frame δ) : S.Spares f := by
  intro _ before hbefore
  have hprefix := ho.isPrefix (f.content S.placeholder)
  obtain ⟨lost, hlost⟩ :=
    Text.isPrefix_of_byteLength_le hbefore.isPrefix hprefix (Nat.le_of_lt hbefore.begins)
  have hcut := ho.fits (f.content S.placeholder)
  rw [Oracle.fitsUnit, decide_eq_true_eq] at hcut ⊢
  exact (hm before lost).trans (hlost ▸ hcut)

theorem settle_returns (ho : S.oracle.Honest) (hm : Metric.Monotone S.oracle.measure)
    (d : Dissection) (j : Journal) : ∃ c l, S.settle d j = .ok (c, l) :=
  (settle_returns_iff ho d 0 j).mpr fun p _ => spares_of_monotone ho hm p.2.frame

theorem decompose_returns_iff (S : Splitter) (ho : S.oracle.Honest) (s : Statement)
    (rendered : Text) (j : Journal) :
    ((∃ c l, S.decompose s rendered j = .ok (c, l)) ↔
      ∀ p ∈ (S.dissect s (Text.flatten rendered) 0).nodes 0, S.Spares p.2.frame) ∧
    (∀ fault, S.decompose s rendered j = .error fault →
      ∃ n, S.oracle.budgets.unit < n ∧ fault = .overBudget n S.oracle.budgets.unit) ∧
    (Metric.Monotone S.oracle.measure → ∃ c l, S.decompose s rendered j = .ok (c, l)) := by
  refine ⟨settle_returns_iff ho _ 0 j, fun fault h => ?_, fun hm => settle_returns ho hm _ j⟩
  obtain ⟨p, -, children, k, henforce⟩ := settle_eq_error _ 0 h
  exact enforce_eq_error ho.isPrefix henforce

def penaltySplitter (unit : Nat) : Splitter :=
  ⟨Oracle.ofMetric Metric.semicolonPenalty ⟨unit, 6⟩ .hard, "<BLOCK>".toList, 64, none⟩

/-- The text of the third statement is found within the second one. -/
def penaltyBody : Statement :=
  .block none
    [.plain none "go()".toList, .plain none ";bbb;c".toList, .plain none "bbb;".toList,
      .plain none "stop()".toList, .plain none "next()".toList]

theorem decompose_returns_iff_penaltyBody :
    ((∃ c l, (penaltySplitter 12).decompose penaltyBody penaltyBody.render Journal.empty =
        .ok (c, l) ∧ l.stats.truncated = 1 ∧ c.content = "\x7b go() ;".toList) ∧
      ∀ p ∈ ((penaltySplitter 12).dissect penaltyBody (Text.flatten penaltyBody.render) 0).nodes 0,
        (penaltySplitter 12).Spares p.2.frame) ∧
    ∃ c l, decompose ⟨Oracle.ofMetric Metric.chars ⟨9, 6⟩ .hard, "<BLOCK>".toList, 64, none⟩
      penaltyBody penaltyBody.render Journal.empty = .ok (c, l) := by
  have ho : (penaltySplitter 12).oracle.Honest := Oracle.honest_ofMetric (by decide) .hard
  have hchars : (Oracle.ofMetric Metric.chars ⟨9, 6⟩ .hard).Honest :=
    Oracle.honest_ofMetric (by decide) .hard
  refine ⟨⟨⟨_, _, rfl, rfl, rfl⟩, ?_⟩, ?_⟩
  · exact (decompose_returns_iff (penaltySplitter 12) ho penaltyBody penaltyBody.render
      Journal.empty).1.mp ⟨_, _, rfl⟩
  · exact (decompose_returns_iff ⟨_, "<BLOCK>".toList, 64, none⟩ hchars penaltyBody penaltyBody.render
      Journal.empty).2.2 Metric.chars_monotone

theorem honest_oracle_blamed :
    (penaltySplitter 9).oracle.Honest ∧ (penaltySplitter 9).oracle.measure [] = 0 ∧
    (penaltySplitter 9).decompose penaltyBody penaltyBody.render Journal.empty =
      .error (.overBudget 11 9) ∧
    (Fault.overBudget 11 9).message =
      "length oracle contract violated: truncate() returned 11 for a unit budget of 9".toList :=
  ⟨Oracle.honest_ofMetric (by decide) .hard, rfl, rfl, by decide⟩

end Splitter
end ChunkTree

import ChunkTree.Proofs.Oracle.Longest
import ChunkTree.Proofs.Split.Batches
import ChunkTree.Proofs.Split.Budget
import ChunkTree.Proofs.Split.Decisions
import ChunkTree.Proofs.Split.Reconstruction
import Mathlib.Data.List.Forall2

namespace ChunkTree

inductive Chunk.CutOf : Chunk → Chunk → Prop where
  | intro {content whole : Text} {children kept siblings : List Chunk} (hcontent : content <+: whole)
      (hkept : kept <+: siblings) (hchildren : List.Forall₂ CutOf children kept) :
      CutOf ⟨content, children⟩ ⟨whole, siblings⟩

def Stats.splitDiagnostics (s : Stats) : List Diagnostic :=
  s.diagnostics.filter (fun d => !d.isTruncation)

theorem Stats.splitDiagnostics_recordTruncation (s : Stats) (location : Location) (full kept : Text)
    (lost : Nat) :
    (s.recordTruncation location full kept lost).splitDiagnostics = s.splitDiagnostics := by
  simp only [splitDiagnostics, recordTruncation, record, List.filter_append]
  exact List.append_nil _

/-- The journal `j` tells of the same splits as `k`, and perhaps of more truncations. -/
structure Journal.Trims (j k : Journal) : Prop where
  chunks : j.stats.chunks = k.stats.chunks
  diagnostics : j.stats.splitDiagnostics = k.stats.splitDiagnostics
  truncated : k.stats.truncated ≤ j.stats.truncated
  same : j.stats.truncated = 0 → j = k

namespace Journal

theorem Trims.refl (j : Journal) : j.Trims j := ⟨rfl, rfl, Nat.le_refl _, fun _ => rfl⟩

theorem Trims.countChunk {j k : Journal} (h : j.Trims k) :
    (Splitter.countChunk j).Trims (Splitter.countChunk k) where
  chunks := congrArg (· + 1) h.chunks
  diagnostics := h.diagnostics
  truncated := h.truncated
  same hnone := congrArg Splitter.countChunk (h.same hnone)

theorem Trims.noteInto {j k : Journal} (h : j.Trims k) (S : Splitter) (n : Note) :
    (S.noteInto j n).Trims (S.noteInto k n) where
  chunks := by cases n <;> exact h.chunks
  diagnostics := by
    have hsplit := h.diagnostics
    simp only [Stats.splitDiagnostics] at hsplit ⊢
    cases n <;>
      simp [Splitter.noteInto, log, Stats.recordDepthLimit, Stats.recordUnhandledKind,
        Stats.recordSpanNotFound, Stats.record, hsplit]
  truncated := by
    rw [Splitter.truncated_noteInto, Splitter.truncated_noteInto]
    exact h.truncated
  same hnone := by
    rw [Splitter.truncated_noteInto] at hnone
    rw [h.same hnone]

theorem Trims.truncation_left {j k l : Journal} (h : j.Trims k) {location : Location}
    {full kept : Text} {lost : Nat}
    (hl : l.stats = j.stats.recordTruncation location full kept lost) : l.Trims k where
  chunks := by
    rw [hl]
    exact h.chunks
  diagnostics := by
    rw [hl, Stats.splitDiagnostics_recordTruncation]
    exact h.diagnostics
  truncated := by
    rw [hl]
    exact h.truncated.trans (Nat.le_succ _)
  same hnone := by
    rw [hl] at hnone
    exact absurd hnone (Nat.succ_ne_zero _)

theorem Trims.truncation_both {j k l m : Journal} (h : j.Trims k) {location : Location}
    {full kept fullLonger keptLonger : Text} {lost lostLonger : Nat}
    (hl : l.stats = j.stats.recordTruncation location full kept lost)
    (hm : m.stats = k.stats.recordTruncation location fullLonger keptLonger lostLonger) :
    l.Trims m where
  chunks := by
    rw [hl, hm]
    exact h.chunks
  diagnostics := by
    rw [hl, hm, Stats.splitDiagnostics_recordTruncation, Stats.splitDiagnostics_recordTruncation]
    exact h.diagnostics
  truncated := by
    rw [hl, hm]
    exact Nat.succ_le_succ h.truncated
  same hnone := by
    rw [hl] at hnone
    exact absurd hnone (Nat.succ_ne_zero _)

end Journal

structure Oracle.Narrower (o q : Oracle) : Prop where
  measure : o.measure = q.measure
  chunk : o.budgets.chunk = q.budgets.chunk
  unit : o.budgets.unit ≤ q.budgets.unit
  truncate : ∀ t, o.truncate t <+: q.truncate t
  isPrefix : ∀ t, q.truncate t <+: t

namespace Oracle.Narrower

variable {o q : Oracle}

theorem fitsUnit (h : o.Narrower q) {t : Text} (ht : o.fitsUnit t = true) : q.fitsUnit t = true := by
  simp only [Oracle.fitsUnit, decide_eq_true_eq] at ht ⊢
  rw [← h.measure]
  exact ht.trans h.unit

theorem fitsChunk (h : o.Narrower q) : o.fitsChunk = q.fitsChunk := by
  funext t
  simp only [Oracle.fitsChunk, h.measure, h.chunk]

theorem of_hard {metric : Metric} (hm : metric.Monotone) {unit larger : Nat}
    (hnil : metric [] ≤ unit) (h : unit ≤ larger) (chunk : Nat) :
    (Oracle.ofMetric metric ⟨unit, chunk⟩ .hard).Narrower
      (Oracle.ofMetric metric ⟨larger, chunk⟩ .hard) where
  measure := rfl
  chunk := rfl
  unit := h
  truncate := Truncation.cut_hard_isPrefix_cut_hard hm hnil h
  isPrefix := Truncation.cut_isPrefix .hard metric larger

end Oracle.Narrower

namespace Splitter

open Journal (Trims)

variable {S : Splitter} {q : Oracle} {δ : Type}

theorem enforce_trims (h : S.oracle.Narrower q) {s : Statement} {f : Frame δ}
    {children siblings : List Chunk} {j k l m : Journal} {c d : Chunk}
    (hchildren : List.Forall₂ Chunk.CutOf children siblings) (hjk : j.Trims k)
    (hsame : j.stats.truncated = 0 → children = siblings)
    (hnarrow : S.enforce s (f.content S.placeholder) (f.markers S.placeholder) children j =
      .ok (c, l))
    (hwide : enforce { S with oracle := q } s (f.content S.placeholder) (f.markers S.placeholder)
      siblings k = .ok (d, m)) :
    c.CutOf d ∧ l.Trims m ∧ (l.stats.truncated = 0 → c = d) := by
  rcases enforce_eq_ok hnarrow with ⟨hfits, rfl, rfl⟩ | ⟨cut, -, hcut, -, rfl, hl⟩
  · rcases enforce_eq_ok hwide with ⟨-, rfl, rfl⟩ | ⟨cut', hover, -, -, -, -⟩
    · refine ⟨.intro (List.prefix_refl _) (List.prefix_refl _) hchildren, hjk, fun hnone => ?_⟩
      rw [hsame hnone]
    · simp [h.fitsUnit hfits] at hover
  · have hmore : l.stats.truncated ≠ 0 := by
      rw [hl]
      exact Nat.succ_ne_zero _
    have hprefix := (h.truncate (f.content S.placeholder)).trans (h.isPrefix _)
    rcases enforce_eq_ok hwide with ⟨-, rfl, rfl⟩ | ⟨cut', -, hcut', -, rfl, hm⟩
    · obtain ⟨out, hout, hle, -⟩ := snap_front hprefix
      obtain rfl : cut = out := by simpa [hcut] using hout
      exact ⟨.intro (hle.trans hprefix) (List.take_prefix _ siblings)
        (List.forall₂_take _ hchildren), hjk.truncation_left hl, fun hnone => absurd hnone hmore⟩
    · have hcuts : cut <+: cut' := snap_mono (h.truncate _) (h.isPrefix _) hcut hcut'
      have hkept : S.wholeMarkers (f.markers S.placeholder) (Text.byteLength cut) ≤
          S.wholeMarkers (f.markers S.placeholder) (Text.byteLength cut') :=
        wholeMarkers_mono (Text.byteLength_le_of_isPrefix hcuts)
      exact ⟨.intro hcuts (List.take_prefix_take_left hkept) (List.forall₂_take _ hchildren),
        hjk.truncation_both hl hm, fun hnone => absurd hnone hmore⟩

mutual

theorem settle_trims (h : S.oracle.Narrower q) :
    ∀ {d : Dissection} {j k l m : Journal} {c c' : Chunk}, S.settle d j = .ok (c, l) →
      settle { S with oracle := q } d k = .ok (c', m) → j.Trims k →
      c.CutOf c' ∧ l.Trims m ∧ (l.stats.truncated = 0 → c = c')
  | ⟨s, steps, rest⟩, j, k, l, m, c, c', hnarrow, hwide, hjk => by
    obtain ⟨children, j₁, l₁, hsteps, henforce, rfl⟩ := settle_eq_ok hnarrow
    obtain ⟨siblings, k₁, m₁, hsteps', henforce', rfl⟩ := settle_eq_ok hwide
    obtain ⟨hchildren, hmid, hsame⟩ := settleSteps_trims h hsteps hsteps' hjk
    obtain ⟨hcut, hend, hequal⟩ := enforce_trims h hchildren hmid hsame henforce henforce'
    exact ⟨hcut, hend.countChunk, hequal⟩

theorem settleSteps_trims (h : S.oracle.Narrower q) :
    ∀ {steps : List (Step Dissection)} {j k l m : Journal} {cs cs' : List Chunk},
      S.settleSteps steps j = .ok (cs, l) →
      settleSteps { S with oracle := q } steps k = .ok (cs', m) → j.Trims k →
      List.Forall₂ Chunk.CutOf cs cs' ∧ l.Trims m ∧ (l.stats.truncated = 0 → cs = cs')
  | [], j, k, l, m, cs, cs', hnarrow, hwide, hjk => by
    simp only [settleSteps, Except.ok.injEq, Prod.mk.injEq] at hnarrow hwide
    obtain ⟨rfl, rfl⟩ := hnarrow
    obtain ⟨rfl, rfl⟩ := hwide
    exact ⟨.nil, hjk, fun _ => rfl⟩
  | .note n :: rest, j, k, l, m, cs, cs', hnarrow, hwide, hjk => by
    rw [settleSteps] at hnarrow hwide
    exact settleSteps_trims h hnarrow hwide (hjk.noteInto S n)
  | .cut gap stretch part :: rest, j, k, l, m, cs, cs', hnarrow, hwide, hjk => by
    obtain ⟨c, cs, j₁, hpart, hrest, rfl⟩ := settleSteps_cut_eq_ok hnarrow
    obtain ⟨c', cs', k₁, hpart', hrest', rfl⟩ := settleSteps_cut_eq_ok hwide
    obtain ⟨hcut, hmid, hsame⟩ := settle_trims h hpart hpart' hjk
    obtain ⟨hcuts, hend, hequal⟩ := settleSteps_trims h hrest hrest' hmid
    refine ⟨.cons hcut hcuts, hend, fun hnone => ?_⟩
    -- the counter only grows, so the part was not truncated either
    have hmore := (appends_settleSteps rest).truncated_le hrest
    rw [hsame (by omega), hequal hnone]

end

theorem decompose_trims (h : S.oracle.Narrower q) (ho : S.oracle.Honest) (hq : q.Honest)
    (hm : Metric.Monotone q.measure) (s : Statement) (rendered : Text) :
    ∃ c k c' k', (∀ j, S.decompose s rendered j = .ok (c, j.append k)) ∧
      (∀ j, decompose { S with oracle := q } s rendered j = .ok (c', j.append k')) ∧
      k.Trims k' ∧ c.CutOf c' ∧ (k.stats.truncated = 0 → c = c') := by
  have hdissects : DissectsAs S { S with oracle := q } := ⟨h.fitsChunk, rfl, rfl⟩
  obtain ⟨c, k, hnarrow⟩ := settle_returns ho (h.measure ▸ hm)
    (S.dissect s (Text.flatten rendered) 0) Journal.empty
  obtain ⟨c', k', hwide⟩ := settle_returns (S := { S with oracle := q }) hq hm
    (S.dissect s (Text.flatten rendered) 0) Journal.empty
  obtain ⟨hcut, htrims, hsame⟩ := settle_trims h hnarrow hwide (Trims.refl Journal.empty)
  refine ⟨c, k, c', k', fun j => ?_, fun j => ?_, htrims, hcut, hsame⟩
  · rw [decompose, appends_settle, hnarrow]
    rfl
  · rw [decompose, ← hdissects.dissect, appends_settle, hwide]
    rfl

theorem smaller_unit_trims (S : Splitter) (metric : Metric) (unit larger chunk : Nat)
    (hmetric : metric = Metric.chars ∨ metric = Metric.approxTokens)
    (hS : S.oracle = Oracle.ofMetric metric ⟨unit, chunk⟩ .hard) (hunit : unit ≤ larger)
    (s : Statement) (rendered : Text) :
    ∃ c k c' k', (∀ j, S.decompose s rendered j = .ok (c, j.append k)) ∧
      (∀ j, decompose { S with oracle := Oracle.ofMetric metric ⟨larger, chunk⟩ .hard } s rendered j =
        .ok (c', j.append k')) ∧
      k.stats.chunks = k'.stats.chunks ∧ k.stats.splitDiagnostics = k'.stats.splitDiagnostics ∧
      k'.stats.truncated ≤ k.stats.truncated ∧ c.CutOf c' ∧
      (k.stats.truncated = 0 → c = c' ∧ k = k') := by
  have hmono : metric.Monotone := by
    rcases hmetric with rfl | rfl
    · exact Metric.chars_monotone
    · exact Metric.approxTokens_monotone
  have hnil : metric [] ≤ unit := by
    rcases hmetric with rfl | rfl <;> exact Nat.zero_le _
  have hnarrower := Oracle.Narrower.of_hard hmono hnil hunit chunk
  rw [← hS] at hnarrower
  have hhonest : S.oracle.Honest := hS ▸ Oracle.honest_ofMetric hnil .hard
  have hlarger : (Oracle.ofMetric metric ⟨larger, chunk⟩ .hard).Honest :=
    Oracle.honest_ofMetric (hnil.trans hunit) .hard
  obtain ⟨c, k, c', k', hnarrow, hwide, htrims, hcut, hsame⟩ :=
    decompose_trims hnarrower hhonest hlarger hmono s rendered
  exact ⟨c, k, c', k', hnarrow, hwide, htrims.chunks, htrims.diagnostics, htrims.truncated, hcut,
    fun hnone => ⟨hsame hnone, htrims.same hnone⟩⟩

theorem smaller_unit_trims_sampleBody :
    16 ≤ 20 ∧ ∃ c k c' k',
      (sampleSplitter 16).decompose sampleBody sampleBody.render Journal.empty = .ok (c, k) ∧
      (sampleSplitter 20).decompose sampleBody sampleBody.render Journal.empty = .ok (c', k') ∧
      c.nodeCount = 3 ∧ k.stats.truncated = 2 ∧ c'.nodeCount = 4 ∧ k'.stats.truncated = 1 ∧
      k.stats.chunks = k'.stats.chunks ∧ k.stats.splitDiagnostics = k'.stats.splitDiagnostics ∧
      c.CutOf c' := by
  obtain ⟨c, k, c', k', hnarrow, hwide, hchunks, hdiagnostics, -, hcut, -⟩ :=
    smaller_unit_trims (sampleSplitter 16) Metric.chars 16 20 12 (.inl rfl) rfl (by decide) sampleBody
      sampleBody.render
  have hrun := hnarrow Journal.empty
  have hrun' := hwide Journal.empty
  rw [Journal.empty_append] at hrun hrun'
  refine ⟨by decide, c, k, c', k', hrun, hrun', ?_, ?_, ?_, ?_, hchunks, hdiagnostics, hcut⟩
  · exact Except.ok.inj ((congrArg (·.map (·.1.nodeCount)) hrun).symm.trans rfl)
  · exact Except.ok.inj ((congrArg (·.map (·.2.stats.truncated)) hrun).symm.trans rfl)
  · exact Except.ok.inj ((congrArg (·.map (·.1.nodeCount)) hrun').symm.trans rfl)
  · exact Except.ok.inj ((congrArg (·.map (·.2.stats.truncated)) hrun').symm.trans rfl)

end Splitter
end ChunkTree

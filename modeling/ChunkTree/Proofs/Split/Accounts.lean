import ChunkTree.Proofs.Split.Reconstruction
import Mathlib.Algebra.GroupWithZero.Nat

/-!
Accounts that balance. However accounts came about, by entries, by runs and by merging, their counters
tell what their diagnostics list, and a run reports each truncation as it was made.
-/

namespace ChunkTree

/-- A truncation is reported with a text over the budget, with a proper first part of it within the
budget, and with the difference of their lengths. -/
def Diagnostic.Faithful (measure : Metric) (budget : Nat) : Diagnostic → Prop
  | truncated _ full kept lost =>
    kept <+: full ∧ kept ≠ full ∧ budget < measure full ∧ measure kept ≤ budget ∧
      measure kept + lost = measure full ∧ 1 ≤ lost
  | _ => True

namespace Stats

variable {s t u : Stats} {admitted weaker : Diagnostic → Prop}

structure Balanced (s : Stats) : Prop where
  truncated : s.truncated = s.diagnostics.countP Diagnostic.isTruncation
  truncatedLength : s.truncatedLength = (s.diagnostics.map Diagnostic.lostLength).sum
  failedInputs : s.failedInputs = s.diagnostics.countP Diagnostic.isFailedInput

theorem balanced_empty : empty.Balanced := ⟨rfl, rfl, rfl⟩

theorem Balanced.merge (hs : s.Balanced) (ht : t.Balanced) : (s.merge t).Balanced where
  truncated := by simp [Stats.merge, hs.truncated, ht.truncated]
  truncatedLength := by simp [Stats.merge, hs.truncatedLength, ht.truncatedLength]
  failedInputs := by simp [Stats.merge, hs.failedInputs, ht.failedInputs]

/-- What `t` has beyond `s` are balanced accounts with diagnostics that are all `admitted`. -/
def Grows (admitted : Diagnostic → Prop) (s t : Stats) : Prop :=
  ∃ more : Stats, t = s.merge more ∧ more.Balanced ∧ ∀ x ∈ more.diagnostics, admitted x

namespace Grows

theorem refl (admitted : Diagnostic → Prop) (s : Stats) : Grows admitted s s :=
  ⟨empty, (merge_empty s).symm, balanced_empty, List.forall_mem_nil _⟩

theorem trans (hst : Grows admitted s t) (htu : Grows admitted t u) : Grows admitted s u := by
  obtain ⟨more, rfl, hmore, hadmitted⟩ := hst
  obtain ⟨rest, rfl, hrest, hadmittedRest⟩ := htu
  refine ⟨more.merge rest, merge_assoc s more rest, hmore.merge hrest, ?_⟩
  exact List.forall_mem_append.mpr ⟨hadmitted, hadmittedRest⟩

theorem mono (h : Grows admitted s t) (hw : ∀ x, admitted x → weaker x) : Grows weaker s t := by
  obtain ⟨more, ht, hmore, hadmitted⟩ := h
  exact ⟨more, ht, hmore, fun x hx => hw x (hadmitted x hx)⟩

theorem balanced (h : Grows admitted s t) (hs : s.Balanced) : t.Balanced := by
  obtain ⟨more, rfl, hmore, -⟩ := h
  exact hs.merge hmore

theorem appends (h : Grows admitted s t) :
    ∃ new, t.diagnostics = s.diagnostics ++ new ∧ ∀ x ∈ new, admitted x := by
  obtain ⟨more, rfl, -, hadmitted⟩ := h
  exact ⟨more.diagnostics, rfl, hadmitted⟩

theorem recordChunk (admitted : Diagnostic → Prop) (s : Stats) :
    Grows admitted s s.recordChunk := by
  refine ⟨empty.recordChunk, ?_, ⟨rfl, rfl, rfl⟩, List.forall_mem_nil _⟩
  rw [merge_recordChunk, merge_empty]

theorem recordTruncation (s : Stats) {location : Location} {full kept : Text} {lost : Nat}
    (h : admitted (.truncated location full kept lost)) :
    Grows admitted s (s.recordTruncation location full kept lost) := by
  refine ⟨empty.recordTruncation location full kept lost, ?_, ⟨rfl, ?_, rfl⟩, ?_⟩
  · rw [merge_recordTruncation, merge_empty]
  · simp [Stats.recordTruncation, record, empty, Diagnostic.lostLength]
  · simpa [Stats.recordTruncation, record, empty] using h

theorem record (s : Stats) {x : Diagnostic} (ht : x.isTruncation = false)
    (hf : x.isFailedInput = false) (h : admitted x) : Grows admitted s (s.record x) := by
  have hlost : x.lostLength = 0 := by
    cases x with
    | truncated location full kept lost => cases ht
    | _ => rfl
  refine ⟨empty.record x, ?_, ⟨?_, ?_, ?_⟩, ?_⟩
  · rw [merge_record, merge_empty]
  · simp [Stats.record, empty, ht]
  · simp [Stats.record, empty, hlost]
  · simp [Stats.record, empty, hf]
  · simpa [Stats.record, empty] using h

theorem recordFailedInput (s : Stats) {source reason : Text}
    (h : admitted (.failedInput source reason)) :
    Grows admitted s (s.recordFailedInput source reason) := by
  refine ⟨empty.recordFailedInput source reason, ?_, ⟨rfl, rfl, rfl⟩, ?_⟩
  · simp [Stats.recordFailedInput, merge, Stats.record, empty]
  · simpa [Stats.recordFailedInput, Stats.record, empty] using h

end Grows
end Stats

namespace Splitter

open Stats (Grows)

variable {S : Splitter}

/-- A diagnostic that a run can raise. The text that a truncation keeps is what the oracle cut off, or
less of it where the cut divides a placeholder. -/
def Raises (S : Splitter) : Diagnostic → Prop
  | .truncated _ full kept lost =>
    S.oracle.fitsUnit full = false ∧ S.oracle.fitsUnit kept = true ∧ kept <+: S.oracle.truncate full ∧
      lost = S.oracle.measure full - S.oracle.measure kept
  | .failedInput .. => False
  | _ => True

theorem faithful_of_raises (ho : ∀ t, S.oracle.truncate t <+: t) {x : Diagnostic}
    (hx : S.Raises x) : x.Faithful S.oracle.measure S.oracle.budgets.unit := by
  cases x with
  | truncated location full kept lost =>
    obtain ⟨hfull, hkept, hcut, rfl⟩ := hx
    rw [Oracle.fitsUnit, decide_eq_false_iff_not, Nat.not_le] at hfull
    rw [Oracle.fitsUnit, decide_eq_true_eq] at hkept
    refine ⟨hcut.trans (ho full), ?_, hfull, hkept, by omega, by omega⟩
    rintro rfl
    omega
  | _ => trivial

theorem grows_noteInto (j : Journal) (n : Note) :
    Grows S.Raises j.stats (S.noteInto j n).stats := by
  cases n with
  | opened s depth => exact Grows.refl _ _
  | tooDeep s depth => exact Grows.record _ rfl rfl trivial
  | unhandled s => exact Grows.record _ rfl rfl trivial
  | notFound s => exact Grows.record _ rfl rfl trivial

theorem grows_enforce {s : Statement} {content : Text} {markers : List Nat} {children : List Chunk}
    {j k : Journal} {c : Chunk} (h : S.enforce s content markers children j = .ok (c, k)) :
    Grows S.Raises j.stats k.stats := by
  rcases enforce_eq_ok h with ⟨-, -, rfl⟩ | ⟨cut, hover, hsnap, hfits, -, hstats⟩
  · exact Grows.refl _ _
  · have hcut : cut <+: S.oracle.truncate content := by
      rcases snap_eq_ok hsnap with rfl | ⟨hcut, -⟩
      · exact List.prefix_refl _
      · exact hcut
    rw [hstats]
    exact Grows.recordTruncation _ ⟨hover, hfits, hcut, rfl⟩

theorem grows_of_settle : Settles S (fun _ j _ l => Grows S.Raises j.stats l.stats)
    (fun _ j _ l => Grows S.Raises j.stats l.stats) where
  nil _ := Grows.refl _ _
  note n _ j _ _ ih := (grows_noteInto j n).trans ih
  cut _ _ _ _ _ _ _ _ _ hpart hrest := hpart.trans hrest
  node _ _ _ _ _ _ _ _ _ hsteps henforce :=
    (hsteps.trans (grows_enforce henforce)).trans (Grows.recordChunk _ _)

theorem grows_of_decompose {s : Statement} {rendered : Text} {j l : Journal} {c : Chunk}
    (h : S.decompose s rendered j = .ok (c, l)) : Grows S.Raises j.stats l.stats :=
  grows_of_settle.settle h

theorem grows_of_splitUnit {u : SourceUnit} {j l : Journal} {c : Chunk}
    (h : S.splitUnit u j = .ok (c, l)) : Grows S.Raises j.stats l.stats := by
  rcases splitUnit_eq_ok h with ⟨-, -, rfl⟩ | ⟨-, hrun⟩
  · exact Grows.recordChunk _ _
  · have hgrows := grows_of_decompose hrun
    exact hgrows

end Splitter

namespace Stats

mutual

/-- What one operation makes of accounts; only accounts that were come by in this way are merged in. -/
inductive Operation : Stats → Stats → Prop where
  | recordChunk (s : Stats) : Operation s s.recordChunk
  | recordTruncation (s : Stats) (location : Location) (full kept : Text) (lost : Nat) :
      Operation s (s.recordTruncation location full kept lost)
  | recordUnhandledKind (s : Stats) (location : Location) (label : Text) :
      Operation s (s.recordUnhandledKind location label)
  | recordDepthLimit (s : Stats) (location : Location) (depth : Nat) :
      Operation s (s.recordDepthLimit location depth)
  | recordSpanNotFound (s : Stats) (location : Location) (label : Text) :
      Operation s (s.recordSpanNotFound location label)
  | recordFailedInput (s : Stats) (source reason : Text) :
      Operation s (s.recordFailedInput source reason)
  | splitUnit (S : Splitter) {u : SourceUnit} {j l : Journal} {c : Chunk}
      (h : S.splitUnit u j = .ok (c, l)) : Operation j.stats l.stats
  | decompose (S : Splitter) {s : Statement} {rendered : Text} {j l : Journal} {c : Chunk}
      (h : S.decompose s rendered j = .ok (c, l)) : Operation j.stats l.stats
  | merge (s : Stats) {t : Stats} (h : Reachable t) : Operation s (s.merge t)

inductive Reachable : Stats → Prop where
  | empty : Reachable .empty
  | operation {s t : Stats} (hs : Reachable s) (h : Operation s t) : Reachable t

end

mutual

theorem Operation.grows {s t : Stats} : Operation s t → Grows (fun _ => True) s t
  | .recordChunk s => Grows.recordChunk _ s
  | .recordTruncation s .. => Grows.recordTruncation s trivial
  | .recordUnhandledKind s .. => Grows.record s rfl rfl trivial
  | .recordDepthLimit s .. => Grows.record s rfl rfl trivial
  | .recordSpanNotFound s .. => Grows.record s rfl rfl trivial
  | .recordFailedInput s .. => Grows.recordFailedInput s trivial
  | .splitUnit _ h => (Splitter.grows_of_splitUnit h).mono fun _ _ => trivial
  | .decompose _ h => (Splitter.grows_of_decompose h).mono fun _ _ => trivial
  | .merge s h => ⟨_, rfl, h.balanced, fun _ _ => trivial⟩

theorem Reachable.balanced {s : Stats} : Reachable s → s.Balanced
  | .empty => balanced_empty
  | .operation hs h => h.grows.balanced hs.balanced

end

theorem accounts_balance :
    (∀ s : Stats, s.Reachable → s.Balanced) ∧
    (∀ s t : Stats, Operation s t → s.diagnostics <+: t.diagnostics) ∧
    ∀ (S : Splitter) (metric : Metric) (budgets : Budgets) (strategy : Truncation),
      S.oracle = Oracle.ofMetric metric budgets strategy →
      (∀ (s : Statement) (rendered : Text) (j l : Journal) (c : Chunk),
        S.decompose s rendered j = .ok (c, l) →
        ∃ new, l.stats.diagnostics = j.stats.diagnostics ++ new ∧
          ∀ x ∈ new, x.Faithful metric budgets.unit) ∧
      ∀ (u : SourceUnit) (j l : Journal) (c : Chunk), S.splitUnit u j = .ok (c, l) →
        ∃ new, l.stats.diagnostics = j.stats.diagnostics ++ new ∧
          ∀ x ∈ new, x.Faithful metric budgets.unit := by
  refine ⟨fun s hs => hs.balanced, fun s t h => ?_, fun S metric budgets strategy ho => ?_⟩
  · obtain ⟨new, hnew, -⟩ := h.grows.appends
    exact ⟨new, hnew.symm⟩
  · have hprefix : ∀ t, S.oracle.truncate t <+: t := by
      rw [ho]
      exact Truncation.cut_isPrefix strategy metric budgets.unit
    have hfaithful : ∀ x, S.Raises x → x.Faithful metric budgets.unit := by
      intro x hx
      have hx := Splitter.faithful_of_raises hprefix hx
      rwa [ho] at hx
    refine ⟨fun s rendered j l c h => ?_, fun u j l c h => ?_⟩
    · exact ((Splitter.grows_of_decompose h).mono hfaithful).appends
    · exact ((Splitter.grows_of_splitUnit h).mono hfaithful).appends

theorem accounts_balance_sampleBody :
    ∃ c l, (Splitter.sampleSplitter 11).splitUnit Splitter.sampleUnit
        ⟨empty.recordFailedInput "a.json".toList "no units".toList, []⟩ = .ok (c, l) ∧
      (l.stats.merge empty.recordChunk).Balanced ∧ l.stats.truncated = 4 ∧
      l.stats.truncatedLength = 27 ∧ l.stats.failedInputs = 1 ∧
      [.failedInput "a.json".toList "no units".toList] <+: l.stats.diagnostics ∧
      ∃ new, l.stats.diagnostics = [.failedInput "a.json".toList "no units".toList] ++ new ∧
        ∀ x ∈ new, x.Faithful Metric.chars 11 := by
  obtain ⟨hbalanced, hprefix, hfaithful⟩ := accounts_balance
  have hother : Reachable empty.recordChunk := .operation .empty (.recordChunk empty)
  have hstart : Reachable (empty.recordFailedInput "a.json".toList "no units".toList) :=
    .operation .empty (.recordFailedInput empty _ _)
  have hrun : Operation (empty.recordFailedInput "a.json".toList "no units".toList) _ :=
    .splitUnit (Splitter.sampleSplitter 11) (u := Splitter.sampleUnit)
      (j := ⟨empty.recordFailedInput "a.json".toList "no units".toList, []⟩) rfl
  refine ⟨_, _, rfl, ?_, rfl, rfl, rfl, ?_, ?_⟩
  · exact hbalanced _ (.operation (.operation hstart hrun) (.merge _ hother))
  · exact hprefix _ _ hrun
  · exact (hfaithful (Splitter.sampleSplitter 11) Metric.chars ⟨11, 12⟩ .hard rfl).2
      Splitter.sampleUnit ⟨empty.recordFailedInput "a.json".toList "no units".toList, []⟩ _ _ rfl

end Stats
end ChunkTree

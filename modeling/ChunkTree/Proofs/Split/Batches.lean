import ChunkTree.Split.Settle

/-!
Runs apart and runs in a row. No run looks at what its journal holds already, so batches of units that
are split apart merge into the run over all of them.
-/

namespace ChunkTree

namespace Run

variable {α β : Type}

def Appends (r : Run α) : Prop :=
  ∀ j, r j = (r Journal.empty).map (fun x => (x.1, j.append x.2))

def andThen (r : Run α) (f : α → Run β) : Run β := fun j =>
  match r j with
  | .error fault => .error fault
  | .ok (a, j) => f a j

def mark (g : Journal → Journal) : Run Unit := fun j => .ok ((), g j)

theorem appends_pure (a : α) : Appends (fun j => .ok (a, j)) := by
  intro j
  simp [Except.map]

theorem appends_mark {g : Journal → Journal} (h : ∀ j, g j = j.append (g Journal.empty)) :
    Appends (mark g) := by
  intro j
  simp [mark, Except.map, ← h j]

theorem Appends.andThen {r : Run α} {f : α → Run β} (hr : Appends r) (hf : ∀ a, Appends (f a)) :
    Appends (r.andThen f) := by
  intro j
  simp only [Run.andThen]
  rw [hr j]
  cases hempty : r Journal.empty with
  | error fault => rfl
  | ok x =>
    obtain ⟨a, k⟩ := x
    simp only [Except.map]
    rw [hf a (j.append k), hf a k]
    cases f a Journal.empty with
    | error fault => rfl
    | ok y => simp [Except.map, Journal.append_assoc]

theorem Appends.eq_append {r : Run α} (h : Appends r) {j l : Journal} {a : α}
    (hrun : r j = .ok (a, l)) : ∃ k, r Journal.empty = .ok (a, k) ∧ l = j.append k := by
  rw [h j] at hrun
  cases hempty : r Journal.empty with
  | error fault => simp [hempty, Except.map] at hrun
  | ok x =>
    obtain ⟨b, k⟩ := x
    simp only [hempty, Except.map, Except.ok.injEq, Prod.mk.injEq] at hrun
    obtain ⟨rfl, rfl⟩ := hrun
    exact ⟨k, rfl, rfl⟩

theorem Appends.truncated_le {r : Run α} (h : Appends r) {j l : Journal} {a : α}
    (hrun : r j = .ok (a, l)) : j.stats.truncated ≤ l.stats.truncated := by
  obtain ⟨k, -, rfl⟩ := h.eq_append hrun
  exact Nat.le_add_right _ _

end Run

namespace Splitter

open Run (Appends mark)

variable {S : Splitter}

theorem noteInto_eq_append (n : Note) (j : Journal) :
    S.noteInto j n = j.append (S.noteInto Journal.empty n) := by
  cases n <;>
    simp [noteInto, Journal.log, Journal.append, Journal.empty, Stats.recordDepthLimit,
      Stats.recordUnhandledKind, Stats.recordSpanNotFound, Stats.merge_record]

theorem countChunk_eq_append (j : Journal) : countChunk j = j.append (countChunk Journal.empty) := by
  simp [countChunk, Journal.append, Journal.empty, Stats.merge_recordChunk]

theorem appends_enforce (s : Statement) (content : Text) (markers : List Nat)
    (children : List Chunk) : Appends (S.enforce s content markers children) := by
  intro j
  simp only [enforce]
  split
  · simp [Except.map]
  · cases S.snap markers (S.oracle.truncate content) with
    | error fault => rfl
    | ok cut =>
      simp only
      split
      · simp [Except.map, Journal.log, Journal.append, Journal.empty, Stats.merge_recordTruncation]
      · rfl

theorem settle_eq_andThen (s : Statement) (steps : List (Step Dissection)) (rest : Text) :
    S.settle ⟨s, steps, rest⟩ =
      (S.settleSteps steps).andThen (fun children =>
        (S.enforce s (Frame.content S.placeholder ⟨steps, rest⟩)
          (Frame.markers S.placeholder ⟨steps, rest⟩) children).andThen (fun chunk =>
            (mark countChunk).andThen (fun _ j => .ok (chunk, j)))) := by
  funext j
  rw [settle]
  simp only [Run.andThen, mark]
  cases S.settleSteps steps j with
  | error fault => rfl
  | ok x =>
    simp only
    cases S.enforce s (Frame.content S.placeholder ⟨steps, rest⟩)
        (Frame.markers S.placeholder ⟨steps, rest⟩) x.1 x.2 <;> rfl

theorem settleSteps_note_eq_andThen (n : Note) (rest : List (Step Dissection)) :
    S.settleSteps (.note n :: rest) =
      (mark (fun j => S.noteInto j n)).andThen (fun _ => S.settleSteps rest) := rfl

theorem settleSteps_cut_eq_andThen (gap stretch : Text) (part : Dissection)
    (rest : List (Step Dissection)) :
    S.settleSteps (.cut gap stretch part :: rest) =
      (S.settle part).andThen (fun chunk =>
        (S.settleSteps rest).andThen (fun chunks j => .ok (chunk :: chunks, j))) := by
  funext j
  rw [settleSteps]
  simp only [Run.andThen]
  cases S.settle part j with
  | error fault => rfl
  | ok x =>
    simp only
    cases S.settleSteps rest x.2 <;> rfl

mutual

theorem appends_settle : ∀ d : Dissection, Appends (S.settle d)
  | ⟨s, steps, rest⟩ => by
    rw [settle_eq_andThen]
    refine (appends_settleSteps steps).andThen fun children => ?_
    refine (appends_enforce s _ _ children).andThen fun chunk => ?_
    exact (Run.appends_mark countChunk_eq_append).andThen fun _ => Run.appends_pure chunk

theorem appends_settleSteps : ∀ steps : List (Step Dissection), Appends (S.settleSteps steps)
  | [] => Run.appends_pure []
  | .note n :: rest => by
    rw [settleSteps_note_eq_andThen]
    exact (Run.appends_mark (noteInto_eq_append n)).andThen fun _ => appends_settleSteps rest
  | .cut gap stretch part :: rest => by
    rw [settleSteps_cut_eq_andThen]
    refine (appends_settle part).andThen fun chunk => ?_
    exact (appends_settleSteps rest).andThen fun chunks => Run.appends_pure (chunk :: chunks)

end

theorem appends_splitUnit (u : SourceUnit) : Appends (S.splitUnit u) := by
  intro j
  simp only [splitUnit]
  split
  · rw [countChunk_eq_append]
    rfl
  · have hdecompose : Appends (S.decompose (locatedBody u) (Text.flatten u.body.render)) :=
      appends_settle _
    rw [hdecompose, hdecompose (Journal.log _ _ Journal.empty)]
    cases S.decompose (locatedBody u) (Text.flatten u.body.render) Journal.empty with
    | error fault => rfl
    | ok x => simp [Except.map, Journal.log, Journal.append, Journal.empty]

theorem splitUnits_cons_eq_andThen (u : SourceUnit) (rest : List SourceUnit) :
    S.splitUnits (u :: rest) =
      (S.splitUnit u).andThen (fun chunk =>
        (S.splitUnits rest).andThen (fun chunks j => .ok (chunk :: chunks, j))) := by
  funext j
  rw [splitUnits]
  simp only [Run.andThen]
  cases S.splitUnit u j with
  | error fault => rfl
  | ok x =>
    simp only
    cases S.splitUnits rest x.2 <;> rfl

theorem appends_splitUnits (units : List SourceUnit) : Appends (S.splitUnits units) := by
  induction units with
  | nil => exact Run.appends_pure []
  | cons u rest ih =>
    rw [splitUnits_cons_eq_andThen]
    refine (appends_splitUnit u).andThen fun chunk => ?_
    exact ih.andThen fun chunks => Run.appends_pure (chunk :: chunks)

theorem splitUnits_append (first second : List SourceUnit) (j : Journal) :
    S.splitUnits (first ++ second) j =
      (S.splitUnits first).andThen (fun chunks =>
        (S.splitUnits second).andThen (fun more j => .ok (chunks ++ more, j))) j := by
  induction first generalizing j with
  | nil =>
    simp only [List.nil_append, splitUnits, Run.andThen]
    cases S.splitUnits second j <;> rfl
  | cons u rest ih =>
    simp only [List.cons_append, splitUnits, Run.andThen]
    cases S.splitUnit u j with
    | error fault => rfl
    | ok x =>
      simp only [ih x.2, Run.andThen]
      cases S.splitUnits rest x.2 with
      | error fault => rfl
      | ok y =>
        simp only
        cases S.splitUnits second y.2 <;> rfl

def splitApart (S : Splitter) (batches : List (List SourceUnit)) :
    Except Fault (List (List Chunk × Journal)) :=
  batches.mapM (fun units => S.splitUnits units Journal.empty)

theorem splitUnits_flatten (batches : List (List SourceUnit)) (j : Journal) :
    S.splitUnits batches.flatten j =
      (S.splitApart batches).map (fun parts =>
        (parts.flatMap (·.1), (parts.map (·.2)).foldl Journal.append j)) := by
  induction batches generalizing j with
  | nil => rfl
  | cons units rest ih =>
    rw [List.flatten_cons, splitUnits_append, splitApart, List.mapM_cons, ← splitApart, Run.andThen,
      appends_splitUnits units j]
    cases S.splitUnits units Journal.empty with
    | error fault => rfl
    | ok x =>
      obtain ⟨chunks, k⟩ := x
      simp only [Except.map, Run.andThen, ih (j.append k), bind, Except.bind]
      cases S.splitApart rest with
      | error fault => rfl
      | ok parts => simp [pure, Except.pure]

theorem batches_merge :
    (∀ (S : Splitter) (batches : List (List SourceUnit)) (j : Journal),
      S.splitUnits batches.flatten j =
        (S.splitApart batches).map (fun parts =>
          (parts.flatMap (·.1), (parts.map (·.2)).foldl Journal.append j))) ∧
    (∀ (S : Splitter) (u : SourceUnit) (j : Journal),
      S.splitUnit u j =
        (S.splitUnit u Journal.empty).map (fun x => (x.1, j.append x.2))) ∧
    (∀ (S : Splitter) (s : Statement) (rendered : Text) (j : Journal),
      S.decompose s rendered j =
        (S.decompose s rendered Journal.empty).map (fun x => (x.1, j.append x.2))) ∧
    (∀ j k : Journal, (j.append k).stats = j.stats.merge k.stats) ∧
    (∀ s t u : Stats, (s.merge t).merge u = s.merge (t.merge u)) ∧
    ∀ s : Stats, s.merge Stats.empty = s ∧ Stats.empty.merge s = s := by
  refine ⟨fun S => splitUnits_flatten, fun S => appends_splitUnit, fun S s rendered => ?_, ?_,
    Stats.merge_assoc, fun s => ⟨Stats.merge_empty s, Stats.empty_merge s⟩⟩
  · exact appends_settle (S.dissect s (Text.flatten rendered) 0)
  · intro j k
    rfl

end Splitter
end ChunkTree

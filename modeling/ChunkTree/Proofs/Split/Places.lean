import ChunkTree.Proofs.Split.Bare
import ChunkTree.Proofs.Split.Batches
import ChunkTree.Proofs.Split.Decisions
import ChunkTree.Proofs.Split.Reconstruction
import ChunkTree.Proofs.Split.Reports

namespace ChunkTree

def SourceUnit.bare (u : SourceUnit) : SourceUnit := ⟨u.name, u.signature, u.body.bare, none⟩

namespace Diagnostic

def location? : Diagnostic → Option Location
  | truncated location .. => some location
  | unhandledKind location _ => some location
  | depthLimit location _ => some location
  | spanNotFound location _ => some location
  | failedInput .. => none

def unlocated : Diagnostic → Diagnostic
  | truncated _ full kept lost => truncated ⟨none, none⟩ full kept lost
  | unhandledKind _ label => unhandledKind ⟨none, none⟩ label
  | depthLimit _ depth => depthLimit ⟨none, none⟩ depth
  | spanNotFound _ label => spanNotFound ⟨none, none⟩ label
  | failedInput source reason => failedInput source reason

end Diagnostic

namespace Stats

def unlocated (s : Stats) : Stats := { s with diagnostics := s.diagnostics.map Diagnostic.unlocated }

theorem unlocated_record (s : Stats) (x : Diagnostic) :
    (s.record x).unlocated = s.unlocated.record x.unlocated := by
  simp [unlocated, record]

theorem unlocated_recordChunk (s : Stats) : s.recordChunk.unlocated = s.unlocated.recordChunk := rfl

theorem unlocated_recordTruncation (s : Stats) (location : Location) (full kept : Text)
    (lost : Nat) :
    (s.recordTruncation location full kept lost).unlocated =
      s.unlocated.recordTruncation ⟨none, none⟩ full kept lost := by
  simp [unlocated, recordTruncation, record, Diagnostic.unlocated]

end Stats

namespace Run

variable {α β : Type}

def outcome (r : Except Fault (α × Journal)) : Except Fault (α × Stats) :=
  r.map fun x => (x.1, x.2.stats.unlocated)

def Alike (r q : Run α) : Prop :=
  ∀ j k : Journal, j.stats.unlocated = k.stats.unlocated → outcome (r j) = outcome (q k)

theorem alike_pure (a : α) : Alike (fun j => .ok (a, j)) (fun j => .ok (a, j)) := by
  intro j k h
  simp [outcome, Except.map, h]

theorem alike_mark {g g' : Journal → Journal}
    (h : ∀ j k : Journal, j.stats.unlocated = k.stats.unlocated →
      (g j).stats.unlocated = (g' k).stats.unlocated) : Alike (mark g) (mark g') := by
  intro j k hjk
  simp [outcome, mark, Except.map, h j k hjk]

theorem Alike.andThen {r q : Run α} {f g : α → Run β} (hr : Alike r q)
    (hf : ∀ a, Alike (f a) (g a)) : Alike (r.andThen f) (q.andThen g) := by
  intro j k hjk
  have hfirst := hr j k hjk
  simp only [Run.andThen]
  cases hj : r j with
  | error fault =>
    cases hk : q k with
    | error fault' => simpa [hj, hk, outcome, Except.map] using hfirst
    | ok y => simp [hj, hk, outcome, Except.map] at hfirst
  | ok x =>
    obtain ⟨a, j'⟩ := x
    cases hk : q k with
    | error fault' => simp [hj, hk, outcome, Except.map] at hfirst
    | ok y =>
      obtain ⟨b, k'⟩ := y
      simp only [hj, hk, outcome, Except.map, Except.ok.injEq, Prod.mk.injEq] at hfirst
      obtain ⟨rfl, hstats⟩ := hfirst
      exact hf a j' k' hstats

theorem Alike.join {r q p : Run α} (hr : Alike r p) (hq : Alike q p) : Alike r q := by
  intro j k hjk
  rw [hr j k hjk, hq k k rfl]

end Run

namespace Splitter

open Run (Alike mark outcome)
open Stats (Grows)

variable {S : Splitter} {source : Option Text}

def withSource (S : Splitter) (source : Option Text) : Splitter := { S with source := source }

theorem alike_noteInto (n : Note) :
    Alike (mark fun j => S.noteInto j n) (mark fun j => (S.withSource source).noteInto j n.bare) := by
  refine Run.alike_mark fun j k h => ?_
  cases n with
  | opened s depth => exact h
  | tooDeep s depth =>
    show (j.stats.record _).unlocated = (k.stats.record _).unlocated
    rw [Stats.unlocated_record, Stats.unlocated_record, h]
    rfl
  | unhandled s =>
    show (j.stats.record _).unlocated = (k.stats.record _).unlocated
    rw [Stats.unlocated_record, Stats.unlocated_record, h, Statement.label_bare]
    rfl
  | notFound s =>
    show (j.stats.record _).unlocated = (k.stats.record _).unlocated
    rw [Stats.unlocated_record, Stats.unlocated_record, h, Statement.label_bare]
    rfl

theorem alike_enforce (s : Statement) (content : Text) (markers : List Nat)
    (children : List Chunk) :
    Alike (S.enforce s content markers children)
      ((S.withSource source).enforce s.bare content markers children) := by
  intro j k h
  have hsnap : (S.withSource source).snap = S.snap := rfl
  have horacle : (S.withSource source).oracle = S.oracle := rfl
  have hwhole : (S.withSource source).wholeMarkers = S.wholeMarkers := rfl
  simp only [enforce, hsnap, horacle, hwhole]
  split
  · simp [outcome, Except.map, h]
  · cases S.snap markers (S.oracle.truncate content) with
    | error fault => rfl
    | ok cut =>
      simp only
      split
      · simp [outcome, Except.map, Journal.log, Stats.unlocated_recordTruncation, h]
      · rfl

mutual

theorem alike_settle : ∀ d : Dissection, Alike (S.settle d) ((S.withSource source).settle d.bare)
  | ⟨s, steps, rest⟩ => by
    rw [Dissection.bare, settle_eq_andThen, settle_eq_andThen, Frame.markers, Frame.markers,
      Dissection.content_bareSteps, Dissection.markersFrom_bareSteps]
    refine (alike_settleSteps steps).andThen fun children => ?_
    refine (alike_enforce s _ _ children).andThen fun chunk => ?_
    refine Alike.andThen (Run.alike_mark fun j k h => ?_) fun _ => Run.alike_pure chunk
    exact congrArg Stats.recordChunk h

theorem alike_settleSteps : ∀ steps : List (Step Dissection),
    Alike (S.settleSteps steps) ((S.withSource source).settleSteps (Dissection.bareSteps steps))
  | [] => Run.alike_pure []
  | .note n :: rest => by
    rw [Dissection.bareSteps, settleSteps_note_eq_andThen, settleSteps_note_eq_andThen]
    exact (alike_noteInto n).andThen fun _ => alike_settleSteps rest
  | .cut gap stretch part :: rest => by
    rw [Dissection.bareSteps, settleSteps_cut_eq_andThen, settleSteps_cut_eq_andThen]
    refine (alike_settle part).andThen fun chunk => ?_
    exact (alike_settleSteps rest).andThen fun chunks => Run.alike_pure (chunk :: chunks)

end

theorem alike_decompose {s s' : Statement} (h : s.bare = s'.bare) (rendered : Text) :
    Alike (S.decompose s rendered) ((S.withSource source).decompose s' rendered) := by
  have hdissects : DissectsAs (S.withSource source) S := ⟨rfl, rfl, rfl⟩
  have hfirst : Alike (S.settle (S.dissect s (Text.flatten rendered) 0))
      ((S.withSource none).settle (S.dissect s.bare (Text.flatten rendered) 0)) := by
    rw [← dissect_bare]
    exact alike_settle _
  have hsecond : Alike ((S.withSource source).settle (S.dissect s' (Text.flatten rendered) 0))
      ((S.withSource none).settle (S.dissect s.bare (Text.flatten rendered) 0)) := by
    rw [h, ← dissect_bare]
    exact alike_settle _
  rw [decompose, decompose, hdissects.dissect]
  exact hfirst.join hsecond

theorem bare_locatedBody (u : SourceUnit) : (locatedBody u).bare = u.body.bare := by
  rw [locatedBody]
  split
  · exact Statement.bare_withSpan _ _
  · rfl

theorem alike_splitUnit {u u' : SourceUnit} (h : u.bare = u'.bare) :
    Alike (S.splitUnit u) ((S.withSource source).splitUnit u') := by
  obtain ⟨-, hsignature, hbody, -⟩ := SourceUnit.mk.inj h
  have hrender : u.body.render = u'.body.render := by
    rw [← Statement.render_bare, hbody, Statement.render_bare]
  have horacle : (S.withSource source).oracle = S.oracle := rfl
  have hlocated : (locatedBody u).bare = (locatedBody u').bare := by
    rw [bare_locatedBody, bare_locatedBody, hbody]
  intro j k hjk
  rw [splitUnit, splitUnit, horacle, hsignature, hrender]
  split
  · simp [outcome, Except.map, countChunk, Stats.unlocated_recordChunk, hjk]
  · exact alike_decompose hlocated _ _ _ hjk

theorem location_of_diagnostic {n : Note} {x : Diagnostic} (h : S.diagnostic? n = some x) :
    x.location? = some (S.location n.statement) := by
  rcases diagnostic?_cases h with ⟨depth, rfl⟩ | rfl | rfl
  · rfl
  · rfl
  · rfl

theorem location_of_reports {s : Statement} {text : Text} {depth : Nat} {x : Diagnostic}
    (h : S.Reports (S.dissect s text depth) x) :
    ∃ t, s.Reaches t ∧ x.location? = some (S.location t) := by
  cases h with
  | note hn hx =>
    rw [location_of_diagnostic hx]
    rcases statement_of_note hn with rfl | ⟨rfl, -⟩ | ⟨e, he, rfl | rfl⟩
    · exact ⟨s, .self s, rfl⟩
    · exact ⟨s, .self s, rfl⟩
    · exact ⟨e.statement, reaches_of_mem_agenda he, rfl⟩
    · exact ⟨e.statement, reaches_of_mem_agenda he, rfl⟩
  | truncated kept lost hover =>
    rw [statement_dissect]
    exact ⟨s, .self s, rfl⟩

theorem reached_of_decompose {s : Statement} {rendered : Text} {j l : Journal} {c : Chunk}
    (h : S.decompose s rendered j = .ok (c, l)) :
    Grows (fun x => ∃ t, s.Reaches t ∧ x.location? = some (S.location t)) j.stats l.stats := by
  refine (reports_of_decompose h).mono ?_
  rintro x ⟨p, hp, hreport⟩
  obtain ⟨y, text, hy, hreaches, -⟩ := exists_statement_of_mem_nodes p hp
  rw [hy] at hreport
  obtain ⟨t, ht, hx⟩ := location_of_reports hreport
  exact ⟨t, hreaches.trans ht, hx⟩

theorem located_of_decompose {s : Statement} {rendered : Text} {j l : Journal} {c : Chunk}
    (h : S.decompose s rendered j = .ok (c, l)) :
    Grows (fun x => ∃ t ∈ s.subtree, x.location? = some (S.location t)) j.stats l.stats := by
  refine (reached_of_decompose h).mono ?_
  rintro x ⟨t, hreaches, hx⟩
  exact ⟨t, hreaches.mem_subtree, hx⟩

theorem span_of_locatedBody {u : SourceUnit} {t : Statement} (h : t ∈ (locatedBody u).subtree) :
    t.span = u.body.span.or u.span ∨ t ∈ u.body.nested.flatMap Statement.subtree := by
  have hspan : (locatedBody u).span = u.body.span.or u.span := by
    rw [locatedBody]
    cases hbody : u.body.span <;> cases hunit : u.span <;> simp [hbody]
  have hnested : (locatedBody u).nested = u.body.nested := by
    rw [locatedBody]
    split
    · exact Statement.nested_withSpan _ _
    · rfl
  rw [Statement.subtree_eq, List.mem_cons, hnested] at h
  rcases h with rfl | h
  · exact .inl hspan
  · exact .inr h

theorem places_for_reports_only (S : Splitter) :
    (∀ (source : Option Text) (s s' : Statement) (rendered : Text) (j k : Journal),
      s.bare = s'.bare → j.stats.unlocated = k.stats.unlocated →
      outcome (S.decompose s rendered j) =
        outcome ((S.withSource source).decompose s' rendered k)) ∧
    (∀ (source : Option Text) (u u' : SourceUnit) (j k : Journal),
      u.bare = u'.bare → j.stats.unlocated = k.stats.unlocated →
      outcome (S.splitUnit u j) = outcome ((S.withSource source).splitUnit u' k)) ∧
    (∀ (s : Statement) (rendered : Text) (j l : Journal) (c : Chunk),
      S.decompose s rendered j = .ok (c, l) →
      ∃ new, l.stats.diagnostics = j.stats.diagnostics ++ new ∧
        ∀ x ∈ new, ∃ t ∈ s.subtree, x.location? = some ⟨S.source, t.span⟩) ∧
    ∀ (u : SourceUnit) (j l : Journal) (c : Chunk), S.splitUnit u j = .ok (c, l) →
      ∃ new, l.stats.diagnostics = j.stats.diagnostics ++ new ∧
        ∀ x ∈ new, x.location? = some ⟨S.source, u.body.span.or u.span⟩ ∨
          ∃ t ∈ u.body.nested.flatMap Statement.subtree,
            x.location? = some ⟨S.source, t.span⟩ := by
  refine ⟨?_, ?_, ?_, ?_⟩
  · intro source s s' rendered j k hbare hjk
    exact alike_decompose hbare rendered j k hjk
  · intro source u u' j k hbare hjk
    exact alike_splitUnit hbare j k hjk
  · intro s rendered j l c h
    exact (located_of_decompose h).appends
  · intro u j l c h
    rcases splitUnit_eq_ok h with ⟨-, -, rfl⟩ | ⟨-, hrun⟩
    · exact ⟨[], (List.append_nil _).symm, List.forall_mem_nil _⟩
    · obtain ⟨new, hnew, hlocated⟩ := (located_of_decompose hrun).appends
      refine ⟨new, hnew, ?_⟩
      intro x hx
      obtain ⟨t, ht, hx⟩ := hlocated x hx
      rcases span_of_locatedBody ht with hspan | hinner
      · rw [location, hspan] at hx
        exact .inl hx
      · exact .inr ⟨t, hinner, hx⟩

def lineSpan (line : UInt64) : Span := ⟨⟨line, 1⟩, ⟨line, 20⟩⟩

def placedUnit : SourceUnit :=
  ⟨"run".toList, "void run()".toList,
    .block none
      [.plain (some (lineSpan 2)) "go();".toList,
        .headed (some (lineSpan 3)) (.preTest "more()".toList)
          (.block (some (lineSpan 4))
            [.plain none "first_step();".toList, .plain (some (lineSpan 5)) "go();".toList]),
        .plain (some (lineSpan 6)) "first_step();".toList],
    some (lineSpan 1)⟩

def placedSplitter : Splitter := (sampleSplitter 16).withSource (some "run".toList)

theorem places_placedUnit :
    outcome ((sampleSplitter 16).splitUnit sampleUnit Journal.empty) =
      outcome (placedSplitter.splitUnit placedUnit Journal.empty) ∧
    outcome ((sampleSplitter 16).decompose sampleBody sampleBody.render Journal.empty) =
      outcome (placedSplitter.decompose placedUnit.body sampleBody.render Journal.empty) ∧
    (∃ c l new, placedSplitter.splitUnit placedUnit Journal.empty = .ok (c, l) ∧
      l.stats.diagnostics.map Diagnostic.location? =
        [none, some (lineSpan 4), some (lineSpan 6), some (lineSpan 1)].map
          (fun span => some ⟨some "run".toList, span⟩) ∧
      l.stats.diagnostics = new ∧
      ∀ x ∈ new, x.location? = some ⟨some "run".toList, some (lineSpan 1)⟩ ∨
        ∃ t ∈ placedUnit.body.nested.flatMap Statement.subtree,
          x.location? = some ⟨some "run".toList, t.span⟩) ∧
    ∃ c l new, placedSplitter.decompose placedUnit.body sampleBody.render Journal.empty =
        .ok (c, l) ∧ l.stats.diagnostics = new ∧
      ∀ x ∈ new, ∃ t ∈ placedUnit.body.subtree,
        x.location? = some ⟨some "run".toList, t.span⟩ := by
  obtain ⟨hdecompose, hunit, -, -⟩ := places_for_reports_only (sampleSplitter 16)
  obtain ⟨-, -, hlocated, hlocatedUnit⟩ := places_for_reports_only placedSplitter
  obtain ⟨new, hnew, hplaces⟩ := hlocatedUnit placedUnit Journal.empty _ _ rfl
  obtain ⟨newBody, hnewBody, hplacesBody⟩ :=
    hlocated placedUnit.body sampleBody.render Journal.empty _ _ rfl
  refine ⟨?_, ?_, ⟨_, _, new, rfl, rfl, hnew, hplaces⟩, _, _, newBody, rfl, hnewBody, hplacesBody⟩
  · exact hunit (some "run".toList) sampleUnit placedUnit Journal.empty Journal.empty rfl rfl
  · exact hdecompose (some "run".toList) sampleBody placedUnit.body sampleBody.render Journal.empty
      Journal.empty rfl rfl

end Splitter
end ChunkTree

import ChunkTree.Proofs.Split.Accounts
import ChunkTree.Proofs.Split.Agenda

namespace ChunkTree

def Note.statement : Note → Statement
  | opened s _ => s
  | tooDeep s _ => s
  | unhandled s => s
  | notFound s => s

namespace Splitter

open Stats (Grows)

variable {S : Splitter}

def diagnostic? (S : Splitter) : Note → Option Diagnostic
  | .opened .. => none
  | .tooDeep s depth => some (.depthLimit (S.location s) depth)
  | .unhandled s => some (.unhandledKind (S.location s) s.label)
  | .notFound s => some (.spanNotFound (S.location s) s.label)

theorem diagnostic?_cases {n : Note} {x : Diagnostic} (h : S.diagnostic? n = some x) :
    (∃ depth, x = .depthLimit (S.location n.statement) depth) ∨
    x = .unhandledKind (S.location n.statement) n.statement.label ∨
    x = .spanNotFound (S.location n.statement) n.statement.label := by
  cases n with
  | opened s depth => cases h
  | tooDeep s depth => exact .inl ⟨depth, (Option.some.inj h).symm⟩
  | unhandled s => exact .inr (.inl (Option.some.inj h).symm)
  | notFound s => exact .inr (.inr (Option.some.inj h).symm)

inductive Reports (S : Splitter) (d : Dissection) : Diagnostic → Prop where
  | note {n : Note} {x : Diagnostic} (hn : .note n ∈ d.steps) (hx : S.diagnostic? n = some x) :
      Reports S d x
  | truncated (kept : Text) (lost : Nat)
      (hover : S.oracle.fitsUnit (d.frame.content S.placeholder) = false) :
      Reports S d (.truncated (S.location d.statement) (d.frame.content S.placeholder) kept lost)

theorem grows_diagnostic (j : Journal) (n : Note) :
    Grows (fun x => S.diagnostic? n = some x) j.stats (S.noteInto j n).stats := by
  cases n with
  | opened s depth => exact Grows.refl _ _
  | tooDeep s depth => exact Grows.record _ rfl rfl rfl
  | unhandled s => exact Grows.record _ rfl rfl rfl
  | notFound s => exact Grows.record _ rfl rfl rfl

theorem reports_of_settle : Settles S
    (fun d j _ l => ∀ depth,
      Grows (fun x => ∃ p ∈ d.nodes depth, S.Reports p.2 x) j.stats l.stats)
    (fun steps j _ l => ∀ depth,
      Grows (fun x => (∃ n, .note n ∈ steps ∧ S.diagnostic? n = some x) ∨
        ∃ p ∈ Dissection.nodesIn depth steps, S.Reports p.2 x) j.stats l.stats) where
  nil j _ := Grows.refl _ _
  note n rest j cs l ih depth := by
    refine ((grows_diagnostic j n).mono fun x hx => ?_).trans ((ih depth).mono fun x hx => ?_)
    · exact .inl ⟨n, List.mem_cons_self, hx⟩
    · rcases hx with ⟨m, hm, hx⟩ | hp
      · exact .inl ⟨m, List.mem_cons_of_mem _ hm, hx⟩
      · exact .inr hp
  cut gap stretch part rest j c k cs l hpart hrest depth := by
    refine ((hpart depth).mono fun x hx => ?_).trans ((hrest depth).mono fun x hx => ?_)
    · obtain ⟨p, hp, hx⟩ := hx
      exact .inr ⟨p, List.mem_append_left _ hp, hx⟩
    · rcases hx with ⟨m, hm, hx⟩ | ⟨p, hp, hx⟩
      · exact .inl ⟨m, List.mem_cons_of_mem _ hm, hx⟩
      · exact .inr ⟨p, List.mem_append_right _ hp, hx⟩
  node s steps rest j children k₁ c k₂ _ hsteps henforce depth := by
    have hroot : (depth, ⟨s, steps, rest⟩) ∈ Dissection.nodes depth ⟨s, steps, rest⟩ :=
      List.mem_cons_self
    have hbefore : Grows (fun x => ∃ p ∈ Dissection.nodes depth ⟨s, steps, rest⟩, S.Reports p.2 x)
        j.stats k₁.stats := by
      refine (hsteps (depth + 1)).mono ?_
      rintro x (⟨n, hn, hx⟩ | ⟨p, hp, hx⟩)
      · exact ⟨_, hroot, .note hn hx⟩
      · exact ⟨p, List.mem_cons_of_mem _ hp, hx⟩
    refine hbefore.trans ?_
    rcases enforce_eq_ok henforce with ⟨-, -, rfl⟩ | ⟨cut, hover, -, -, -, hstats⟩
    · exact Grows.recordChunk _ _
    · refine Grows.trans ?_ (Grows.recordChunk _ _)
      rw [hstats]
      exact Grows.recordTruncation _ ⟨_, hroot, .truncated cut _ hover⟩

theorem reports_of_decompose {s : Statement} {rendered : Text} {j l : Journal} {c : Chunk}
    (h : S.decompose s rendered j = .ok (c, l)) :
    Grows (fun x => ∃ p ∈ (S.dissect s (Text.flatten rendered) 0).nodes 0, S.Reports p.2 x)
      j.stats l.stats :=
  reports_of_settle.settle h 0

theorem statement_of_note {s : Statement} {text : Text} {depth : Nat} {n : Note}
    (h : .note n ∈ (S.dissect s text depth).steps) :
    n = .opened s depth ∨ n = .tooDeep s depth ∧ S.maxDepth ≤ depth ∨
      ∃ e ∈ S.agenda s, n = .unhandled e.statement ∨ n = .notFound e.statement := by
  rcases S.dissect_cases s text depth with hd | ⟨hdeep, hd⟩ | ⟨-, steps, rest, hd, hall⟩
  · simp [hd] at h
  · have hn : n = .tooDeep s depth := by simpa [hd] using h
    exact .inr (.inl ⟨hn, hdeep⟩)
  · rw [hd] at h
    rcases List.mem_cons.mp h with hn | h
    · have hn : n = .opened s depth := by simpa using hn
      exact .inl hn
    · obtain ⟨e, he, hleads⟩ := exists_mem_of_forall₂ hall h
      refine .inr (.inr ⟨e, he, ?_⟩)
      cases hleads with
      | unhandled s => exact .inl rfl
      | notFound s stretch => exact .inr rfl

end Splitter
end ChunkTree

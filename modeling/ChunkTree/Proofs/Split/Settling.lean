import ChunkTree.Split.Settle
import Mathlib.Data.List.Forall2

namespace ChunkTree
namespace Splitter

variable {S : Splitter}

theorem settle_eq_ok {s : Statement} {steps : List (Step Dissection)} {rest : Text} {j l : Journal}
    {c : Chunk} (h : S.settle ⟨s, steps, rest⟩ j = .ok (c, l)) :
    ∃ children k₁ k₂, S.settleSteps steps j = .ok (children, k₁) ∧
      S.enforce s (Frame.content S.placeholder ⟨steps, rest⟩)
        (Frame.markers S.placeholder ⟨steps, rest⟩) children k₁ = .ok (c, k₂) ∧
      l = countChunk k₂ := by
  rw [settle] at h
  cases hs : S.settleSteps steps j with
  | error fault => simp [hs] at h
  | ok r =>
    obtain ⟨children, k₁⟩ := r
    simp only [hs] at h
    cases he : S.enforce s (Frame.content S.placeholder ⟨steps, rest⟩)
        (Frame.markers S.placeholder ⟨steps, rest⟩) children k₁ with
    | error fault => simp [he] at h
    | ok r =>
      obtain ⟨c', k₂⟩ := r
      simp only [he, Except.ok.injEq, Prod.mk.injEq] at h
      obtain ⟨rfl, rfl⟩ := h
      exact ⟨children, k₁, k₂, rfl, he, rfl⟩

theorem settleSteps_cut_eq_ok {gap stretch : Text} {part : Dissection}
    {rest : List (Step Dissection)} {j l : Journal} {chunks : List Chunk}
    (h : S.settleSteps (.cut gap stretch part :: rest) j = .ok (chunks, l)) :
    ∃ c cs k, S.settle part j = .ok (c, k) ∧ S.settleSteps rest k = .ok (cs, l) ∧
      chunks = c :: cs := by
  rw [settleSteps] at h
  cases hp : S.settle part j with
  | error fault => simp [hp] at h
  | ok r =>
    obtain ⟨c, k⟩ := r
    simp only [hp] at h
    cases hr : S.settleSteps rest k with
    | error fault => simp [hr] at h
    | ok r =>
      obtain ⟨cs, l'⟩ := r
      simp only [hr, Except.ok.injEq, Prod.mk.injEq] at h
      obtain ⟨rfl, rfl⟩ := h
      exact ⟨c, cs, k, rfl, hr, rfl⟩

theorem forall₂_of_settleSteps {steps : List (Step Dissection)} {j l : Journal}
    {chunks : List Chunk} (h : S.settleSteps steps j = .ok (chunks, l)) :
    List.Forall₂ (fun part c => ∃ k k', S.settle part k = .ok (c, k'))
      (steps.filterMap Step.part?) chunks := by
  induction steps generalizing j chunks with
  | nil =>
    simp only [settleSteps, Except.ok.injEq, Prod.mk.injEq] at h
    rw [← h.1]
    exact .nil
  | cons step rest ih =>
    cases step with
    | note n => exact ih h
    | cut gap stretch part =>
      obtain ⟨c, cs, k, hpart, hrest, rfl⟩ := settleSteps_cut_eq_ok h
      exact .cons ⟨j, k, hpart⟩ (ih hrest)

theorem length_of_settleSteps {steps : List (Step Dissection)} {j l : Journal} {chunks : List Chunk}
    (h : S.settleSteps steps j = .ok (chunks, l)) :
    chunks.length = (steps.filterMap Step.part?).length :=
  (forall₂_of_settleSteps h).length_eq.symm

theorem enforce_eq_ok {s : Statement} {content : Text} {markers : List Nat} {children : List Chunk}
    {j k : Journal} {c : Chunk} (h : S.enforce s content markers children j = .ok (c, k)) :
    (S.oracle.fitsUnit content = true ∧ c = ⟨content, children⟩ ∧ k = j) ∨
    ∃ cut, S.oracle.fitsUnit content = false ∧
      S.snap markers (S.oracle.truncate content) = .ok cut ∧ S.oracle.fitsUnit cut = true ∧
      c = ⟨cut, children.take (S.wholeMarkers markers (Text.byteLength cut))⟩ ∧
      k.stats = j.stats.recordTruncation (S.location s) content cut
        (S.oracle.measure content - S.oracle.measure cut) := by
  rw [enforce] at h
  cases hf : S.oracle.fitsUnit content with
  | true =>
    simp only [hf, if_true, Except.ok.injEq, Prod.mk.injEq] at h
    exact .inl ⟨rfl, h.1.symm, h.2.symm⟩
  | false =>
    simp only [hf, Bool.false_eq_true, if_false] at h
    cases hs : S.snap markers (S.oracle.truncate content) with
    | error fault => simp [hs] at h
    | ok cut =>
      simp only [hs] at h
      split at h
      · rename_i hcut
        simp only [Except.ok.injEq, Prod.mk.injEq] at h
        obtain ⟨rfl, rfl⟩ := h
        exact .inr ⟨cut, rfl, rfl, hcut, rfl, rfl⟩
      · simp at h

theorem splitUnit_eq_ok {u : SourceUnit} {j l : Journal} {c : Chunk}
    (h : S.splitUnit u j = .ok (c, l)) :
    (S.oracle.fitsUnit (u.signature ++ ' ' :: Text.flatten u.body.render) = true ∧
      c = Chunk.leaf (Text.flatten u.body.render) ∧ l = countChunk j) ∨
    (S.oracle.fitsUnit (u.signature ++ ' ' :: Text.flatten u.body.render) = false ∧
      S.decompose (locatedBody u) (Text.flatten u.body.render)
        (j.log .debug ("Unit ".toList ++ u.name ++
          " exceeds the unit budget, decomposing".toList)) = .ok (c, l)) := by
  rw [splitUnit] at h
  split at h
  · rename_i hfits
    simp only [Except.ok.injEq, Prod.mk.injEq] at h
    exact .inl ⟨hfits, h.1.symm, h.2.symm⟩
  · rename_i hfits
    exact .inr ⟨by simpa using hfits, h⟩

/-- What a property `P` of settled dissections and a property `Q` of settled steps have to satisfy so
that all settlings that come to an end have them. -/
structure Settles (S : Splitter) (P : Dissection → Journal → Chunk → Journal → Prop)
    (Q : List (Step Dissection) → Journal → List Chunk → Journal → Prop) : Prop where
  nil : ∀ j, Q [] j [] j
  note : ∀ n rest j cs l, Q rest (S.noteInto j n) cs l → Q (.note n :: rest) j cs l
  cut : ∀ gap stretch part rest j c k cs l, P part j c k → Q rest k cs l →
    Q (.cut gap stretch part :: rest) j (c :: cs) l
  node : ∀ s steps rest j children k₁ c k₂, S.settleSteps steps j = .ok (children, k₁) →
    Q steps j children k₁ → S.enforce s (Frame.content S.placeholder ⟨steps, rest⟩)
      (Frame.markers S.placeholder ⟨steps, rest⟩) children k₁ = .ok (c, k₂) →
    P ⟨s, steps, rest⟩ j c (countChunk k₂)

namespace Settles

variable {P : Dissection → Journal → Chunk → Journal → Prop}
  {Q : List (Step Dissection) → Journal → List Chunk → Journal → Prop}

mutual

theorem settle (h : Settles S P Q) :
    ∀ {d : Dissection} {j : Journal} {c : Chunk} {l : Journal},
      S.settle d j = .ok (c, l) → P d j c l
  | ⟨s, steps, rest⟩, j, c, l, hd => by
    obtain ⟨children, k₁, k₂, hs, he, rfl⟩ := settle_eq_ok hd
    exact h.node s steps rest j children k₁ c k₂ hs (settleSteps h hs) he

theorem settleSteps (h : Settles S P Q) :
    ∀ {steps : List (Step Dissection)} {j : Journal} {cs : List Chunk} {l : Journal},
      S.settleSteps steps j = .ok (cs, l) → Q steps j cs l
  | [], j, cs, l, hs => by
    simp only [Splitter.settleSteps, Except.ok.injEq, Prod.mk.injEq] at hs
    obtain ⟨rfl, rfl⟩ := hs
    exact h.nil j
  | .note n :: rest, j, cs, l, hs => h.note n rest j cs l (settleSteps h hs)
  | .cut gap stretch part :: rest, j, cs, l, hs => by
    obtain ⟨c, cs, k, hp, hr, rfl⟩ := settleSteps_cut_eq_ok hs
    exact h.cut gap stretch part rest j c k cs l (settle h hp) (settleSteps h hr)

end

end Settles

theorem truncated_noteInto (j : Journal) (n : Note) :
    (S.noteInto j n).stats.truncated = j.stats.truncated := by
  cases n <;> rfl

theorem truncated_countChunk (j : Journal) : (countChunk j).stats.truncated = j.stats.truncated :=
  rfl

end Splitter
end ChunkTree

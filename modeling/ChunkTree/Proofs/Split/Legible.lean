import ChunkTree.Proofs.Split.Agenda
import ChunkTree.Proofs.Split.Budget
import ChunkTree.Proofs.Split.Reconstruction
import ChunkTree.Proofs.Text.Leading

/-!
Contents that are read as they were made. Whoever takes the markers of a content from the left finds
those that were put in if none of them begins in the gap before it, and then a run without truncations
gives the text back, also with a marker that overlaps itself.
-/

namespace ChunkTree

namespace Step

variable {δ : Type}

def gap? : Step δ → Option Text
  | note _ => none
  | cut gap _ _ => some gap

def stretch? : Step δ → Option Text
  | note _ => none
  | cut _ stretch _ => some stretch

end Step

namespace Frame

variable {δ : Type} {p : Text}

def gaps (f : Frame δ) : List Text := f.steps.filterMap Step.gap?

/-- Taken from the left, the markers of the content are the placeholders put in. -/
def Legible (p : Text) (f : Frame δ) : Prop := Text.pieces p (f.content p) = f.gaps ++ [f.rest]

theorem length_gaps (f : Frame δ) : f.gaps.length = f.parts.length := by
  obtain ⟨steps, rest⟩ := f
  simp only [gaps, parts]
  induction steps with
  | nil => rfl
  | cons step steps ih => cases step <;> simpa [List.filterMap_cons, Step.gap?, Step.part?] using ih

theorem Legible.occurrences {f : Frame δ} (h : f.Legible p) :
    Text.occurrences p (f.content p) = f.parts.length := by
  rw [Text.occurrences, h, List.length_append, length_gaps]
  rfl

theorem refill_stretches (p : Text) (steps : List (Step δ)) (rest : Text) :
    Text.refill p (gaps ⟨steps, rest⟩ ++ [rest]) (steps.filterMap Step.stretch?) =
      uncut ⟨steps, rest⟩ := by
  induction steps with
  | nil => rfl
  | cons step steps ih =>
    cases step with
    | note n => exact ih
    | cut gap stretch part =>
      rw [uncut_cut, ← ih]
      exact Text.refill_cons (by simp) p gap stretch (steps.filterMap Step.stretch?)

theorem legible_iff {f : Frame δ} (hfree : ¬ p <:+: f.uncut) :
    f.Legible p ↔ ∀ gap ∈ f.gaps, Text.LeadsTo p gap := by
  have hp := Text.ne_nil_of_free hfree
  obtain ⟨steps, rest⟩ := f
  rw [Legible]
  induction steps with
  | nil =>
    have hrest : Text.pieces p rest = [rest] := Text.pieces_free hfree
    simpa [gaps, content] using hrest
  | cons step steps ih =>
    cases step with
    | note n => exact ih hfree
    | cut gap stretch part =>
      have hbehind := ih (free_cut hfree).2.2
      rw [content_cut]
      change _ = gap :: (gaps ⟨steps, rest⟩ ++ [rest]) ↔ ∀ g ∈ gap :: gaps ⟨steps, rest⟩, _
      rw [List.forall_mem_cons]
      constructor
      · intro h
        have hgap := Text.leadsTo_of_pieces hp (by simp) h
        rw [Text.pieces_leading hp hgap, List.cons.injEq] at h
        exact ⟨hgap, hbehind.mp h.2⟩
      · rintro ⟨hgap, hgaps⟩
        rw [Text.pieces_leading hp hgap]
        exact congrArg _ (hbehind.mpr hgaps)

theorem free_gap {f : Frame δ} (hfree : ¬ p <:+: f.uncut) : ∀ gap ∈ f.gaps, ¬ p <:+: gap := by
  obtain ⟨steps, rest⟩ := f
  induction steps with
  | nil => exact List.forall_mem_nil _
  | cons step steps ih =>
    cases step with
    | note n => exact ih hfree
    | cut gap stretch part =>
      obtain ⟨hgap, -, hbehind⟩ := free_cut hfree
      exact List.forall_mem_cons.mpr ⟨hgap, ih hbehind⟩

theorem legible_of {f : Frame δ} (hp : ∀ c ∈ p, Text.isBlank c = false) (hfree : ¬ p <:+: f.uncut)
    (h : Text.Unbordered p ∨ ∀ gap ∈ f.gaps, ∀ c ∈ gap.getLast?, Text.isBlank c = true) :
    f.Legible p := by
  rw [legible_iff hfree]
  intro gap hgap
  have hgapFree := free_gap hfree gap hgap
  rcases h with hunbordered | hblank
  · exact Text.leadsTo_of_unbordered hunbordered hgapFree
  · exact Text.leadsTo_of_blank hp hgapFree (hblank gap hgap)

end Frame

namespace Splitter

variable {S : Splitter}

theorem legible_of_settle : Settles S
    (fun d j c l => j.stats.truncated ≤ l.stats.truncated ∧
      ∀ depth, d.Exact → (∀ n ∈ d.nodes depth, n.2.frame.Legible S.placeholder) →
        l.stats.truncated = j.stats.truncated →
        c.isConsistent S.placeholder = true ∧ c.expand S.placeholder = d.text)
    (fun steps j cs l => j.stats.truncated ≤ l.stats.truncated ∧
      ∀ depth s rest, Dissection.Exact ⟨s, steps, rest⟩ →
        (∀ n ∈ Dissection.nodesIn depth steps, n.2.frame.Legible S.placeholder) →
        l.stats.truncated = j.stats.truncated →
        Chunk.allConsistent S.placeholder cs = true ∧
          Chunk.expandAll S.placeholder cs = steps.filterMap Step.stretch?) where
  nil j := ⟨Nat.le_refl _, fun _ _ _ _ _ _ => ⟨rfl, rfl⟩⟩
  note n rest j cs l ih := by
    rw [truncated_noteInto] at ih
    exact ⟨ih.1, fun depth s tail hexact => ih.2 depth s tail hexact.tail⟩
  cut gap stretch part rest j c k cs l hpart hrest := by
    refine ⟨hpart.1.trans hrest.1, fun depth s tail hexact hlegible hsame => ?_⟩
    rw [Dissection.nodesIn] at hlegible
    obtain ⟨hin, hafter⟩ := List.forall_mem_append.mp hlegible
    obtain ⟨htext, hexactPart⟩ := hexact.head
    -- the counter only grows, so neither the part nor what follows it was truncated
    have hmonoPart := hpart.1
    have hmonoRest := hrest.1
    obtain ⟨hconsistent, hexpand⟩ := hpart.2 depth hexactPart hin (by omega)
    obtain ⟨hconsistents, hexpands⟩ := hrest.2 depth s tail hexact.tail hafter (by omega)
    refine ⟨by simp [Chunk.allConsistent, hconsistent, hconsistents], ?_⟩
    rw [Chunk.expandAll, hexpand, hexpands, htext]
    rfl
  node s steps rest j children k₁ c k₂ hrun hsteps henforce := by
    rcases enforce_eq_ok henforce with ⟨-, rfl, rfl⟩ | ⟨cut, -, -, -, -, hstats⟩
    · refine ⟨hsteps.1, fun depth hexact hlegible hsame => ?_⟩
      rw [Dissection.nodes] at hlegible
      obtain ⟨hroot, hin⟩ := List.forall_mem_cons.mp hlegible
      obtain ⟨hconsistent, hexpand⟩ := hsteps.2 (depth + 1) s rest hexact hin hsame
      have hcount := hroot.occurrences
      rw [Dissection.frame, Frame.parts, ← length_of_settleSteps hrun] at hcount
      constructor
      · rw [Chunk.isConsistent, hcount, hconsistent]
        simp
      · have hpieces : Text.pieces S.placeholder (Frame.content S.placeholder ⟨steps, rest⟩) =
            Frame.gaps ⟨steps, rest⟩ ++ [rest] := hroot
        rw [Chunk.expand, hexpand, hpieces]
        exact Frame.refill_stretches S.placeholder steps rest
    · have hmore : k₂.stats.truncated = k₁.stats.truncated + 1 := by rw [hstats]; rfl
      have hmono := hsteps.1
      refine ⟨?_, fun _ _ _ hsame => ?_⟩
      · rw [truncated_countChunk]
        omega
      · rw [truncated_countChunk] at hsame
        omega

theorem free_of_mem_nodes {p : Text} {s : Statement} {text : Text} (hfree : ¬ p <:+: text)
    (depth : Nat) : ∀ n ∈ (S.dissect s text depth).nodes depth, ¬ p <:+: n.2.frame.uncut := by
  have hnodes : ∀ n ∈ (S.dissect s text depth).nodes depth,
      ∃ x t, n.2 = S.dissect x t n.1 ∧ ¬ p <:+: t := by
    apply nodes_descend (P := fun _ _ t => ¬ p <:+: t)
    · intro depth y u hu _ x stretch _ hstretch
      exact Text.free_of_isInfix hstretch hu
    · exact hfree
  intro n hn
  obtain ⟨x, t, hx, ht⟩ := hnodes n hn
  have htext : n.2.frame.uncut = t := by
    rw [hx]
    exact text_dissect x t n.1
  rwa [htext]

end Splitter
end ChunkTree

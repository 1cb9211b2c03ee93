import ChunkTree.Proofs.Split.Walk

namespace ChunkTree

namespace Dissection

def text (d : Dissection) : Text := d.frame.uncut

inductive Exact : Dissection → Prop where
  | intro {s : Statement} {steps : List (Step Dissection)} {rest : Text}
      (text_part : ∀ gap stretch part, .cut gap stretch part ∈ steps → part.text = stretch)
      (exact_part : ∀ gap stretch part, .cut gap stretch part ∈ steps → Exact part) :
      Exact ⟨s, steps, rest⟩

theorem Exact.start (s : Statement) (t : Text) : Exact ⟨s, [], t⟩ := .intro (by simp) (by simp)

theorem Exact.append_note {s : Statement} {steps : List (Step Dissection)} {rest : Text}
    (h : Exact ⟨s, steps, rest⟩) (n : Note) : Exact ⟨s, steps ++ [.note n], rest⟩ := by
  cases h with
  | intro ht hp => exact .intro (by simpa using ht) (by simpa using hp)

theorem Exact.append_cut {s : Statement} {steps : List (Step Dissection)} {rest : Text}
    (h : Exact ⟨s, steps, rest⟩) (gap rest' : Text) {part : Dissection} (hpart : part.Exact) :
    Exact ⟨s, steps ++ [.cut gap part.text part], rest'⟩ := by
  cases h with
  | intro ht hp =>
    refine .intro (fun g stretch d hd => ?_) (fun g stretch d hd => ?_)
    · rcases List.mem_append.mp hd with hd | hd
      · exact ht g stretch d hd
      · simp_all
    · rcases List.mem_append.mp hd with hd | hd
      · exact hp g stretch d hd
      · simp_all

theorem Exact.tail {s : Statement} {step : Step Dissection} {steps : List (Step Dissection)}
    {rest : Text} (h : Exact ⟨s, step :: steps, rest⟩) : Exact ⟨s, steps, rest⟩ := by
  cases h with
  | intro ht hp =>
    exact .intro (fun g stretch d hd => ht g stretch d (List.mem_cons_of_mem _ hd))
      (fun g stretch d hd => hp g stretch d (List.mem_cons_of_mem _ hd))

theorem Exact.head {s : Statement} {gap stretch : Text} {part : Dissection}
    {steps : List (Step Dissection)} {rest : Text}
    (h : Exact ⟨s, .cut gap stretch part :: steps, rest⟩) : part.text = stretch ∧ part.Exact := by
  cases h with
  | intro ht hp =>
    exact ⟨ht gap stretch part List.mem_cons_self, hp gap stretch part List.mem_cons_self⟩

end Dissection

namespace Splitter

variable {S : Splitter}

structure Keeps (f g : Frame Dissection) : Prop where
  uncut : g.uncut = f.uncut
  exact : ∀ s, Dissection.Exact ⟨s, f.steps, f.rest⟩ → Dissection.Exact ⟨s, g.steps, g.rest⟩

theorem Keeps.trans {f g h : Frame Dissection} (hfg : Keeps f g) (hgh : Keeps g h) : Keeps f h :=
  ⟨hgh.uncut.trans hfg.uncut, fun s hs => hgh.exact s (hfg.exact s hs)⟩

theorem Keeps.addNote (n : Note) (f : Frame Dissection) : Keeps f (f.addNote n) :=
  ⟨Frame.uncut_addNote n f, fun _ hs => hs.append_note n⟩

theorem dissectWith_exact {cutChildren : Frame Dissection → Frame Dissection}
    (h : ∀ f, Keeps f (cutChildren f)) (s : Statement) (text : Text) (depth : Nat) :
    (S.dissectWith s cutChildren text depth).Exact ∧
      (S.dissectWith s cutChildren text depth).text = text := by
  rw [dissectWith]
  split
  · exact ⟨Dissection.Exact.start s text, rfl⟩
  · split
    · split
      · exact ⟨Dissection.Exact.start s text, rfl⟩
      · exact ⟨(Dissection.Exact.start s text).append_note _, rfl⟩
    · have hk := (Keeps.addNote (.opened s depth) (Frame.start text)).trans (h _)
      exact ⟨hk.exact s (Dissection.Exact.start s text), hk.uncut⟩

theorem walks_keeps : Walks S (fun _ => Keeps) where
  refl _ f := ⟨rfl, fun _ hs => hs⟩
  trans := Keeps.trans
  unhandled s _ f := Keeps.addNote (.unhandled s) f
  cutPart s stretch depth f hs := by
    cases hc : Text.cutAt? stretch f.rest with
    | none =>
      rw [cutPart_none hc]
      exact Keeps.addNote _ f
    | some r =>
      obtain ⟨gap, rest⟩ := r
      rw [cutPart_some hc]
      obtain ⟨hexact, htext⟩ := dissectWith_exact hs s stretch (depth + 1)
      refine ⟨?_, fun r hr => ?_⟩
      · have hrest := Text.cutAt?_eq_append hc
        simp [Frame.uncut, Step.uncut, hrest]
      · have hcut := hr.append_cut gap rest hexact
        rwa [htext] at hcut

theorem dissect_exact (s : Statement) (text : Text) (depth : Nat) :
    (S.dissect s text depth).Exact :=
  (dissectWith_exact (walks_keeps.cutChildren s depth) s text depth).1

theorem text_dissect (s : Statement) (text : Text) (depth : Nat) :
    (S.dissect s text depth).text = text :=
  (dissectWith_exact (walks_keeps.cutChildren s depth) s text depth).2

end Splitter
end ChunkTree

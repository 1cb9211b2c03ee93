import ChunkTree.Proofs.Split.Agenda
import ChunkTree.Proofs.Split.Front
import ChunkTree.Proofs.Statement.Bare

namespace ChunkTree

def Errand.bare : Errand → Errand
  | unhandled s => unhandled s.bare
  | cut s stretch => cut s.bare stretch

def Note.bare : Note → Note
  | opened s depth => opened s.bare depth
  | tooDeep s depth => tooDeep s.bare depth
  | unhandled s => unhandled s.bare
  | notFound s => notFound s.bare

namespace Dissection

mutual

def bare : Dissection → Dissection
  | ⟨s, steps, rest⟩ => ⟨s.bare, bareSteps steps, rest⟩

def bareSteps : List (Step Dissection) → List (Step Dissection)
  | [] => []
  | .note n :: rest => .note n.bare :: bareSteps rest
  | .cut gap stretch part :: rest => .cut gap stretch part.bare :: bareSteps rest

end

theorem bareSteps_append (steps more : List (Step Dissection)) :
    bareSteps (steps ++ more) = bareSteps steps ++ bareSteps more := by
  induction steps with
  | nil => rfl
  | cons step steps ih => cases step <;> simp [bareSteps, ih]

theorem content_bareSteps (p : Text) (steps : List (Step Dissection)) (rest : Text) :
    Frame.content p ⟨bareSteps steps, rest⟩ = Frame.content p ⟨steps, rest⟩ := by
  induction steps with
  | nil => rfl
  | cons step steps ih => cases step <;> simp [bareSteps, ih]

theorem markersFrom_bareSteps (p : Text) (offset : Nat) (steps : List (Step Dissection)) :
    Frame.markersFrom p offset (bareSteps steps) = Frame.markersFrom p offset steps := by
  induction steps generalizing offset with
  | nil => rfl
  | cons step steps ih => cases step <;> simp [bareSteps, Frame.markersFrom, ih]

end Dissection

def Frame.bare (f : Frame Dissection) : Frame Dissection := ⟨Dissection.bareSteps f.steps, f.rest⟩

namespace Splitter

variable {S : Splitter}

theorem thenText_bare (condition : Text) (thenBranch : Statement) :
    thenText condition thenBranch.bare = thenText condition thenBranch := by
  rw [thenText, thenText, Statement.render_bare]

theorem elseText_bare (other : Statement) : elseText other.bare = elseText other := by
  rw [elseText, elseText, Statement.render_bare]

theorem splitsBoth_bare (condition : Text) (thenBranch : Statement) (text : Text) :
    S.splitsBoth condition thenBranch.bare text = S.splitsBoth condition thenBranch text := by
  rw [splitsBoth, splitsBoth, thenText_bare]

theorem oversizedErrands_bare (s : Statement) :
    S.oversizedErrands s.bare = (S.oversizedErrands s).map Errand.bare := by
  have hrender := s.render_bare
  cases s with
  | conditional span condition thenBranch elseBranch =>
    cases elseBranch with
    | none => simp [Statement.bare, Statement.bareOptional, oversizedErrands, Errand.bare, thenText_bare]
    | some other =>
      rw [Statement.bare, Statement.bareOptional] at hrender ⊢
      rw [oversizedErrands, oversizedErrands]
      simp only [hrender, splitsBoth_bare, thenText_bare, elseText_bare]
      split <;> rfl
  | switch span selector entries =>
    rw [Statement.bare, oversizedErrands, oversizedErrands, Statement.statements_bareEntries,
      List.filter_map, List.map_map, List.map_map]
    simp [Function.comp_def, Errand.bare]
  | _ =>
    rw [Statement.bare] at hrender ⊢
    rw [oversizedErrands, oversizedErrands]
    simp only [hrender]
    rfl

theorem agenda_bare (s : Statement) : S.agenda s.bare = (S.agenda s).map Errand.bare := by
  have herrands : ∀ c : Statement, S.errands c.bare = (S.errands c).map Errand.bare := by
    intro c
    rw [errands, errands, Statement.render_bare, oversizedErrands_bare]
    split <;> rfl
  rw [agenda, agenda, Statement.children_bare, List.flatMap_map, List.map_flatMap]
  simp only [herrands]

theorem perform_bare {depth : Nat} {e : Errand}
    (h : ∀ stretch, (S.dissect e.statement stretch (depth + 1)).bare =
      S.dissect e.statement.bare stretch (depth + 1)) (f : Frame Dissection) :
    (S.perform depth f e).bare = S.perform depth f.bare e.bare := by
  cases e with
  | unhandled s =>
    simp [perform, Errand.bare, Frame.addNote, Frame.bare, Dissection.bareSteps_append,
      Dissection.bareSteps, Note.bare]
  | cut s stretch =>
    have hrest : f.bare.rest = f.rest := rfl
    rw [perform, Errand.bare, perform]
    cases hc : Text.cutAt? stretch f.rest with
    | none =>
      rw [cutPart_none hc, cutPart_none (hrest ▸ hc)]
      simp [Frame.addNote, Frame.bare, Dissection.bareSteps_append, Dissection.bareSteps, Note.bare]
    | some r =>
      have hpart := h stretch
      rw [Errand.statement] at hpart
      rw [cutPart_some hc, cutPart_some (hrest ▸ hc), ← hpart]
      simp [Frame.bare, Dissection.bareSteps_append, Dissection.bareSteps]

theorem foldl_perform_bare {depth : Nat} {errands : List Errand}
    (h : ∀ e ∈ errands, ∀ stretch, (S.dissect e.statement stretch (depth + 1)).bare =
      S.dissect e.statement.bare stretch (depth + 1)) (f : Frame Dissection) :
    (errands.foldl (S.perform depth) f).bare =
      (errands.map Errand.bare).foldl (S.perform depth) f.bare := by
  induction errands generalizing f with
  | nil => rfl
  | cons e rest ih =>
    obtain ⟨he, hrest⟩ := List.forall_mem_cons.mp h
    rw [List.map_cons, List.foldl_cons, List.foldl_cons, ih hrest, perform_bare he]

theorem dissect_bare (s : Statement) (text : Text) (depth : Nat) :
    (S.dissect s text depth).bare = S.dissect s.bare text depth := by
  induction s using S.agendaInduction generalizing text depth with
  | step s ih =>
    have hchildren := foldl_perform_bare (fun e he stretch => ih e he stretch (depth + 1))
      ((Frame.start text).addNote (.opened s depth))
    rw [← agenda_bare, ← cutChildren_eq_foldl_agenda, ← cutChildren_eq_foldl_agenda] at hchildren
    rw [dissect, dissect, dissectWith, dissectWith, Statement.children_bare, List.isEmpty_map]
    split
    · rfl
    · split
      · split <;> rfl
      · rw [Dissection.bare]
        have hframe : Frame.bare ((Frame.start text).addNote (.opened s depth)) =
            (Frame.start text).addNote (.opened s.bare depth) := rfl
        rw [hframe] at hchildren
        rw [← hchildren]
        rfl

end Splitter

end ChunkTree

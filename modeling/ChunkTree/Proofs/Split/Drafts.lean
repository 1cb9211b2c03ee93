import ChunkTree.Proofs.Split.Agenda
import ChunkTree.Proofs.Split.Backstop
import ChunkTree.Proofs.Split.Batches
import ChunkTree.Proofs.Text.Locate

/-!
Frames as they are kept in place. A draft is one text that is rewritten stretch by stretch, with the
byte offsets of its placeholders; every offset stays true while the text around it changes, and with
what was cut out put back at these offsets the text is again the one it began as.
-/

namespace ChunkTree

namespace Run

variable {α β γ : Type}

theorem andThen_pure (r : Run α) : (r.andThen fun a j => .ok (a, j)) = r := by
  funext j
  simp only [andThen]
  cases r j <;> rfl

theorem andThen_assoc (r : Run α) (f : α → Run β) (g : β → Run γ) :
    (r.andThen f).andThen g = r.andThen fun a => (f a).andThen g := by
  funext j
  simp only [andThen]
  cases r j <;> rfl

def each (run : β → α → Run α) : List β → α → Run α
  | [], a => fun j => .ok (a, j)
  | b :: rest, a => (run b a).andThen (each run rest)

end Run

/-- A text rewritten in place. A search begins at the cursor, behind the last placeholder put in; each
placeholder has its byte offset, its chunk, and the statement and the text that chunk was made from. -/
structure Draft where
  content : Text
  cursor : Nat
  markers : List Nat
  children : List Chunk
  origins : List (Statement × Text)

def Draft.start (t : Text) : Draft := ⟨t, 0, [], [], []⟩

/-- The text with an old stretch in place of the `size` bytes at each offset, from the last offset to
the first. -/
def Draft.restored? (size : Nat) : List (Nat × Text) → Text → Option Text
  | [], t => some t
  | (offset, old) :: rest, t =>
    (restored? size rest t).bind (Text.replaceRange? offset (offset + size) old)

def Step.origin? : Step Dissection → Option (Statement × Text)
  | note _ => none
  | cut _ stretch part => some (part.statement, stretch)

namespace Frame

variable {δ : Type} {p : Text}

def origins (f : Frame Dissection) : List (Statement × Text) := f.steps.filterMap Step.origin?

def draft (p : Text) (children : List Chunk) (f : Frame Dissection) : Draft :=
  ⟨f.content p, f.cursor p, f.markers p, children, f.origins⟩

@[simp] theorem origins_cut (gap stretch : Text) (part : Dissection)
    (steps : List (Step Dissection)) (rest : Text) :
    origins ⟨.cut gap stretch part :: steps, rest⟩ =
      (part.statement, stretch) :: origins ⟨steps, rest⟩ := rfl

theorem markersFrom_append (offset : Nat) (steps more : List (Step δ)) :
    markersFrom p offset (steps ++ more) = markersFrom p offset steps ++
      markersFrom p (offset + Text.byteLength (steps.flatMap (Step.replaced p))) more := by
  induction steps generalizing offset with
  | nil => rfl
  | cons step steps ih =>
    cases step with
    | note n => exact ih offset
    | cut gap stretch part =>
      simp only [List.cons_append, markersFrom, ih, List.flatMap_cons, Step.replaced,
        Text.byteLength_append, Nat.add_assoc]

theorem draft_addNote (children : List Chunk) (n : Note) (f : Frame Dissection) :
    (f.addNote n).draft p children = f.draft p children := by
  simp [draft, content, cursor, markers, origins, addNote, markersFrom_append, markersFrom,
    Step.replaced, Step.origin?]

theorem cursor_eq_end (offset : Nat) (steps : List (Step δ)) :
    offset + Text.byteLength (steps.flatMap (Step.replaced p)) =
      (markersFrom p offset steps).getLast?.elim offset (· + Text.byteLength p) := by
  induction steps generalizing offset with
  | nil => rfl
  | cons step steps ih =>
    cases step with
    | note n => exact ih offset
    | cut gap stretch part =>
      have hbehind := ih (offset + Text.byteLength gap + Text.byteLength p)
      rw [markersFrom, List.getLast?_cons, List.flatMap_cons, Text.byteLength_append, Step.replaced,
        Text.byteLength_append, ← Nat.add_assoc, ← Nat.add_assoc, hbehind]
      cases (markersFrom p (offset + Text.byteLength gap + Text.byteLength p) steps).getLast? <;> rfl

theorem restored?_markersFrom (front : Text) (steps : List (Step Dissection)) (rest : Text) :
    Draft.restored? (Text.byteLength p)
      ((markersFrom p (Text.byteLength front) steps).zip
        ((origins ⟨steps, rest⟩).map Prod.snd))
      (front ++ content p ⟨steps, rest⟩) = some (front ++ uncut ⟨steps, rest⟩) := by
  induction steps generalizing front with
  | nil => rfl
  | cons step steps ih =>
    cases step with
    | note n => exact ih front
    | cut gap stretch part =>
      -- the placeholders behind this one are undone first, and move nothing in front of them
      have hbehind := ih (front ++ gap ++ p)
      simp only [Text.byteLength_append, List.append_assoc, ← Nat.add_assoc] at hbehind
      rw [content_cut, uncut_cut, markersFrom, origins_cut, List.map_cons, List.zip_cons_cons,
        Draft.restored?, hbehind, Option.bind_some, Text.replaceRange?_behind]

end Frame

namespace Splitter

variable {S : Splitter} {t : Text} {depth : Nat}

def substitute (S : Splitter) (depth : Nat) (s : Statement) (stretch : Text) (d : Draft) : Run Draft :=
  fun j =>
  match Text.locate? d.content d.cursor stretch with
  | none => .ok (d, S.noteInto j (.notFound s))
  | some start =>
    match S.settle (S.dissect s stretch (depth + 1)) j with
    | .error fault => .error fault
    | .ok (chunk, j) =>
      match Text.replaceRange? start (start + Text.byteLength stretch) S.placeholder d.content with
      | none => .error (.insideCharacter start)
      | some content =>
        .ok (⟨content, start + Text.byteLength S.placeholder, d.markers ++ [start],
          d.children ++ [chunk], d.origins ++ [(s, stretch)]⟩, j)

def carryOut (S : Splitter) (depth : Nat) : Errand → Draft → Run Draft
  | .unhandled s, d => fun j => .ok (d, S.noteInto j (.unhandled s))
  | .cut s stretch, d => S.substitute depth s stretch d

def splitChild (S : Splitter) (depth : Nat) (s : Statement) : Draft → Run Draft :=
  Run.each (S.carryOut depth) (S.errands s)

def splitChildren (S : Splitter) (depth : Nat) (statements : List Statement) : Draft → Run Draft :=
  Run.each (S.splitChild depth) statements

theorem settleSteps_append (first second : List (Step Dissection)) :
    S.settleSteps (first ++ second) = (S.settleSteps first).andThen fun chunks =>
      (S.settleSteps second).andThen fun more j => .ok (chunks ++ more, j) := by
  induction first with
  | nil => exact (Run.andThen_pure (S.settleSteps second)).symm
  | cons step first ih =>
    cases step with
    | note n =>
      rw [List.cons_append, settleSteps_note_eq_andThen, settleSteps_note_eq_andThen, ih,
        Run.andThen_assoc]
    | cut gap stretch part =>
      rw [List.cons_append, settleSteps_cut_eq_andThen, settleSteps_cut_eq_andThen, ih]
      simp only [Run.andThen_assoc]
      rfl

def Tracks (S : Splitter) (move : Frame Dissection → Frame Dissection) (run : Draft → Run Draft) :
    Prop :=
  ∀ f, ∃ steps, (move f).steps = f.steps ++ steps ∧
    ∀ children, run (f.draft S.placeholder children) =
      (S.settleSteps steps).andThen fun more j =>
        .ok ((move f).draft S.placeholder (children ++ more), j)

theorem locate?_draft (f : Frame Dissection) (children : List Chunk) (stretch : Text) :
    Text.locate? (f.draft S.placeholder children).content (f.draft S.placeholder children).cursor
      stretch =
      (Text.cutAt? stretch f.rest).map fun cut => f.cursor S.placeholder + Text.byteLength cut.1 :=
  Text.locate?_append _ f.rest stretch

theorem replaceRange?_draft {f : Frame Dissection} {gap stretch rest : Text} (part : Dissection)
    (hrest : f.rest = gap ++ (stretch ++ rest)) :
    Text.replaceRange? (f.cursor S.placeholder + Text.byteLength gap)
      (f.cursor S.placeholder + Text.byteLength gap + Text.byteLength stretch) S.placeholder
      (f.content S.placeholder) =
    some (Frame.content S.placeholder ⟨f.steps ++ [.cut gap stretch part], rest⟩) := by
  rw [Frame.content, hrest, Frame.cursor, Text.replaceRange?_behind]
  simp [Frame.content, Step.replaced]

theorem draft_cut (f : Frame Dissection) (gap stretch rest : Text) (s : Statement)
    (children : List Chunk) :
    Frame.draft S.placeholder children
        ⟨f.steps ++ [.cut gap stretch (S.dissect s stretch (depth + 1))], rest⟩ =
      ⟨Frame.content S.placeholder
          ⟨f.steps ++ [.cut gap stretch (S.dissect s stretch (depth + 1))], rest⟩,
        f.cursor S.placeholder + Text.byteLength gap + Text.byteLength S.placeholder,
        f.markers S.placeholder ++ [f.cursor S.placeholder + Text.byteLength gap], children,
        f.origins ++ [(s, stretch)]⟩ := by
  simp [Frame.draft, Frame.cursor, Frame.markers, Frame.origins, Frame.markersFrom_append,
    Frame.markersFrom, Step.replaced, Step.origin?, statement_dissect, Nat.add_assoc]

theorem tracks_substitute (s : Statement) (stretch : Text) :
    Tracks S (S.cutPart s stretch depth) (S.substitute depth s stretch) := by
  intro f
  cases hcut : Text.cutAt? stretch f.rest with
  | none =>
    refine ⟨[.note (.notFound s)], by rw [cutPart_none hcut]; rfl, fun children => ?_⟩
    funext j
    rw [cutPart_none hcut, substitute, locate?_draft, hcut]
    simp [Run.andThen, settleSteps, Frame.draft_addNote]
  | some cut =>
    obtain ⟨gap, rest⟩ := cut
    refine ⟨[.cut gap stretch (S.dissect s stretch (depth + 1))], by rw [cutPart_some hcut],
      fun children => ?_⟩
    have hrest := Text.cutAt?_eq_append hcut
    rw [List.append_assoc] at hrest
    funext j
    rw [cutPart_some hcut, substitute, locate?_draft, hcut, settleSteps_cut_eq_andThen]
    simp only [Option.map_some, Run.andThen]
    cases S.settle (S.dissect s stretch (depth + 1)) j with
    | error fault => rfl
    | ok x =>
      simp only [settleSteps, draft_cut]
      rw [Frame.draft, replaceRange?_draft (S.dissect s stretch (depth + 1)) hrest]

theorem tracks_carryOut (e : Errand) :
    Tracks S (fun f => S.perform depth f e) (S.carryOut depth e) := by
  cases e with
  | unhandled s =>
    intro f
    refine ⟨[.note (.unhandled s)], rfl, fun children => ?_⟩
    funext j
    simp [carryOut, perform, Run.andThen, settleSteps, Frame.draft_addNote]
  | cut s stretch => exact tracks_substitute s stretch

theorem Tracks.each {α : Type} {move : Frame Dissection → α → Frame Dissection}
    {run : α → Draft → Run Draft} (h : ∀ a, Tracks S (fun f => move f a) (run a)) (as : List α) :
    Tracks S (fun f => as.foldl move f) (Run.each run as) := by
  induction as with
  | nil =>
    intro f
    refine ⟨[], (List.append_nil _).symm, fun children => ?_⟩
    funext j
    simp [Run.each, Run.andThen, settleSteps]
  | cons a as ih =>
    intro f
    obtain ⟨first, hfirst, hrun⟩ := h a f
    obtain ⟨second, hsecond, hruns⟩ := ih (move f a)
    refine ⟨first ++ second, ?_, fun children => ?_⟩
    · calc (as.foldl move (move f a)).steps
          = (move f a).steps ++ second := hsecond
        _ = f.steps ++ first ++ second := congrArg (· ++ second) hfirst
        _ = f.steps ++ (first ++ second) := List.append_assoc _ _ _
    · -- the second run goes on from the draft with the children that the first one made
      rw [Run.each, hrun, settleSteps_append, Run.andThen_assoc, Run.andThen_assoc]
      congr 1
      funext more
      rw [Run.andThen_assoc]
      exact (hruns (children ++ more)).trans (by simp only [List.append_assoc]; rfl)

theorem tracks_splitChild (s : Statement) : Tracks S (S.cutChild s depth) (S.splitChild depth s) := by
  have hchild : S.cutChild s depth = fun f => (S.errands s).foldl (S.perform depth) f :=
    funext (cutChild_eq_foldl s depth)
  rw [hchild]
  exact Tracks.each tracks_carryOut (S.errands s)

def walked (S : Splitter) (depth : Nat) (statements : List Statement) (f : Frame Dissection) :
    Frame Dissection :=
  statements.foldl (fun f s => S.cutChild s depth f) f

theorem tracks_splitChildren (statements : List Statement) :
    Tracks S (S.walked depth statements) (S.splitChildren depth statements) :=
  Tracks.each tracks_splitChild statements

theorem splitChildren_eq (statements : List Statement) (t : Text) :
    S.splitChildren depth statements (Draft.start t) =
      (S.settleSteps (S.walked depth statements (Frame.start t)).steps).andThen fun chunks j =>
        .ok ((S.walked depth statements (Frame.start t)).draft S.placeholder chunks, j) := by
  obtain ⟨steps, hsteps, hrun⟩ := tracks_splitChildren statements (Frame.start t)
  rw [hsteps]
  exact hrun []

theorem uncut_walked (statements : List Statement) (t : Text) :
    (S.walked depth statements (Frame.start t)).uncut = t := by
  have hmove : ∀ s ∈ statements, ∀ f, Keeps f (S.cutChild s depth f) :=
    fun s _ f => (walks_keeps.cutChild_and_cutChildren s).1 depth f
  have hkeeps : Keeps (Frame.start t) (S.walked depth statements (Frame.start t)) :=
    @Walks.foldl S (fun _ => Keeps) walks_keeps _ depth statements hmove (Frame.start t)
  exact hkeeps.uncut

theorem part_of_walked {statements : List Statement} {gap stretch : Text} {part : Dissection}
    (h : .cut gap stretch part ∈ (S.walked depth statements (Frame.start t)).steps) :
    part = S.dissect part.statement stretch (depth + 1) := by
  obtain ⟨steps, hsteps, hall⟩ :=
    S.exists_steps_foldl (statements.flatMap S.errands) depth (Frame.start t)
  rw [walked, foldl_cutChild, hsteps] at h
  obtain ⟨e, -, hleads⟩ := exists_mem_of_forall₂ hall h
  cases hleads with
  | cut s gap hstretch => rw [statement_dissect]

theorem forall₂_origins {steps : List (Step Dissection)} {chunks : List Chunk}
    {R : Dissection → Chunk → Prop}
    (hpart : ∀ gap stretch part, .cut gap stretch part ∈ steps →
      part = S.dissect part.statement stretch depth)
    (h : List.Forall₂ R (steps.filterMap Step.part?) chunks) :
    List.Forall₂ (fun o c => R (S.dissect o.1 o.2 depth) c) (steps.filterMap Step.origin?)
      chunks := by
  induction steps generalizing chunks with
  | nil =>
    cases h
    exact .nil
  | cons step steps ih =>
    have hbehind := fun gap stretch part hmem =>
      hpart gap stretch part (List.mem_cons_of_mem step hmem)
    cases step with
    | note n => exact ih hbehind h
    | cut gap stretch part =>
      cases h with
      | cons hhead htail =>
        rw [hpart gap stretch part List.mem_cons_self] at hhead
        exact .cons hhead (ih hbehind htail)

/-- What holds of a draft over a text whatever was done to it, and whatever the placeholder is. -/
structure Intact (S : Splitter) (depth : Nat) (t : Text) (d : Draft) : Prop where
  paired : d.markers.length = d.children.length
  made : List.Forall₂ (fun o c => ∃ j l, S.settle (S.dissect o.1 o.2 (depth + 1)) j = .ok (c, l))
    d.origins d.children
  apart : d.markers.Pairwise fun m n => m + Text.byteLength S.placeholder ≤ n
  held : ∀ m ∈ d.markers, ∃ before after,
    Text.splitAtByte? m d.content = some (before, S.placeholder ++ after) ∧
      Text.splitAtByte? (m + Text.byteLength S.placeholder) d.content =
        some (before ++ S.placeholder, after)
  cursor_eq : d.cursor = d.markers.getLast?.elim 0 (· + Text.byteLength S.placeholder)
  behind : ∃ before rest, Text.splitAtByte? d.cursor d.content = some (before, rest) ∧ rest <:+ t
  restored : Draft.restored? (Text.byteLength S.placeholder)
    (d.markers.zip (d.origins.map Prod.snd)) d.content = some t

theorem held_of_mem_markers {p : Text} {f : Frame Dissection} {m : Nat} (h : m ∈ f.markers p) :
    ∃ before after, Text.splitAtByte? m (f.content p) = some (before, p ++ after) ∧
      Text.splitAtByte? (m + Text.byteLength p) (f.content p) = some (before ++ p, after) := by
  rw [← Frame.map_byteLength_inserted, List.mem_map] at h
  obtain ⟨before, hbefore, rfl⟩ := h
  obtain ⟨after, hafter⟩ := Frame.isPrefix_of_mem_inserted hbefore
  rw [← hafter, List.append_assoc]
  exact ⟨before, after, Text.splitAtByte?_append _ _, Text.splitAtByte?_behind before p after⟩

theorem intact_draft {f : Frame Dissection} {j l : Journal} {chunks : List Chunk}
    (hpart : ∀ gap stretch part, .cut gap stretch part ∈ f.steps →
      part = S.dissect part.statement stretch (depth + 1))
    (hchunks : S.settleSteps f.steps j = .ok (chunks, l)) :
    S.Intact depth f.uncut (f.draft S.placeholder chunks) where
  paired := by
    have hlength := Frame.length_markersFrom S.placeholder 0 f.steps
    rw [← length_of_settleSteps hchunks] at hlength
    exact hlength
  made := forall₂_origins hpart (forall₂_of_settleSteps hchunks)
  apart := by
    change (f.markers S.placeholder).Pairwise _
    rw [← Frame.map_byteLength_inserted, List.pairwise_map]
    refine (Frame.pairwise_insertedAfter [] f.steps).imp fun {before next} hnext => ?_
    rw [← Text.byteLength_append]
    exact Text.byteLength_le_of_isPrefix hnext
  held m hm := held_of_mem_markers hm
  cursor_eq := by
    have hend := Frame.cursor_eq_end (p := S.placeholder) 0 f.steps
    rwa [Nat.zero_add] at hend
  behind := ⟨_, f.rest, Text.splitAtByte?_append _ f.rest, List.suffix_append _ f.rest⟩
  restored := Frame.restored?_markersFrom [] f.steps f.rest

theorem settle_opened (hover : S.oracle.fitsChunk t = false) (hdepth : depth < S.maxDepth)
    (s : Statement) :
    S.settle (S.dissect s t depth) =
      (Run.mark fun j => S.noteInto j (.opened s depth)).andThen fun _ =>
        (S.splitChildren depth s.children (Draft.start t)).andThen fun d =>
          (S.enforce s d.content d.markers d.children).andThen fun c =>
            (Run.mark countChunk).andThen fun _ j => .ok (c, j) := by
  obtain ⟨steps, hsteps, hrun⟩ :=
    tracks_splitChildren s.children ((Frame.start t).addNote (.opened s depth))
  have hloop := hrun []
  rw [Frame.draft_addNote] at hloop
  have hstart : (Frame.start t).draft S.placeholder [] = Draft.start t := rfl
  rw [← hstart, hloop, dissect, dissectWith, hover, if_neg Bool.false_ne_true,
    if_neg (Nat.not_le.mpr hdepth), cutChildren_eq_foldl, ← walked]
  generalize S.walked depth s.children ((Frame.start t).addNote (.opened s depth)) = f at hsteps ⊢
  have hsteps : f.steps = .note (.opened s depth) :: steps := hsteps
  rw [settle_eq_andThen]
  simp only [hsteps, settleSteps_note_eq_andThen, Run.andThen_assoc]
  rw [← hsteps]
  rfl

theorem placeholders_located (S : Splitter) (t : Text) (depth : Nat) :
    (∀ statements : List Statement,
      S.splitChildren depth statements (Draft.start t) =
        (S.settleSteps (S.walked depth statements (Frame.start t)).steps).andThen fun chunks j =>
          .ok ((S.walked depth statements (Frame.start t)).draft S.placeholder chunks, j)) ∧
    (∀ (statements : List Statement) (j l : Journal) (d : Draft),
      S.splitChildren depth statements (Draft.start t) j = .ok (d, l) → S.Intact depth t d) ∧
    ∀ s : Statement, S.oracle.fitsChunk t = false → depth < S.maxDepth →
      S.settle (S.dissect s t depth) =
        (Run.mark fun j => S.noteInto j (.opened s depth)).andThen fun _ =>
          (S.splitChildren depth s.children (Draft.start t)).andThen fun d =>
            (S.enforce s d.content d.markers d.children).andThen fun c =>
              (Run.mark countChunk).andThen fun _ j => .ok (c, j) := by
  refine ⟨fun statements => splitChildren_eq statements t, fun statements j l d hrun => ?_,
    fun s hover hdepth => settle_opened hover hdepth s⟩
  rw [splitChildren_eq, Run.andThen] at hrun
  cases hsettled : S.settleSteps (S.walked depth statements (Frame.start t)).steps j with
  | error fault => simp [hsettled] at hrun
  | ok x =>
    obtain ⟨chunks, k⟩ := x
    simp only [hsettled, Except.ok.injEq, Prod.mk.injEq] at hrun
    obtain ⟨rfl, rfl⟩ := hrun
    have hintact := intact_draft (fun _ _ _ => part_of_walked) hsettled
    rwa [uncut_walked] at hintact

def spacedSplitter (placeholder : Text) : Splitter :=
  { sampleSplitter 60 with placeholder := placeholder }

def spacedSteps : List Statement :=
  [.plain none "first_step();".toList, .plain none "é x;".toList,
    .plain none "second_step();".toList]

def spacedText : Text := "\x7b é x; first_step();second_step(); é x; \x7d".toList

/-- The first placeholder has white space in it and stands in the text already; the second is empty, and
both of its offsets are the same. -/
theorem placeholders_located_spacedText :
    (∃ d l, (spacedSplitter "é x".toList).splitChildren 0 spacedSteps (Draft.start spacedText)
        Journal.empty = .ok (d, l) ∧
      d.content = "\x7b é x; é xé x é x; \x7d".toList ∧ d.markers = [8, 12] ∧ d.cursor = 16 ∧
      (spacedSplitter "é x".toList).Intact 0 spacedText d) ∧
    (∃ d l, (spacedSplitter []).splitChildren 0 spacedSteps (Draft.start spacedText)
        Journal.empty = .ok (d, l) ∧
      d.content = "\x7b é x;  é x; \x7d".toList ∧ d.markers = [8, 8] ∧ d.cursor = 8 ∧
      (spacedSplitter []).Intact 0 spacedText d) ∧
    ∃ run : Draft → Run Chunk,
      (spacedSplitter []).settle
          ((spacedSplitter []).dissect (.block none spacedSteps) spacedText 0) =
        (Run.mark fun j => (spacedSplitter []).noteInto j
          (.opened (.block none spacedSteps) 0)).andThen fun _ =>
          ((spacedSplitter []).splitChildren 0 spacedSteps (Draft.start spacedText)).andThen run := by
  obtain ⟨-, hintact, -⟩ := placeholders_located (spacedSplitter "é x".toList) spacedText 0
  obtain ⟨-, hempty, hloop⟩ := placeholders_located (spacedSplitter []) spacedText 0
  refine ⟨⟨_, _, rfl, rfl, rfl, rfl, hintact spacedSteps Journal.empty _ _ rfl⟩,
    ⟨_, _, rfl, rfl, rfl, rfl, hempty spacedSteps Journal.empty _ _ rfl⟩, ?_⟩
  exact ⟨_, hloop (.block none spacedSteps) rfl (by decide)⟩

end Splitter
end ChunkTree

import ChunkTree.Proofs.Split.Budget
import ChunkTree.Proofs.Split.Production
import ChunkTree.Proofs.Split.Reports
import Mathlib.Data.List.Flatten

/-!
The bounds of the recursion. Whatever the text, the statements that are dissected stand in the tree in
the order in which they are dissected, each at most once, so the tree bounds the number of chunks and
their depth; a depth bound that is not below the height of the tree is never felt.
-/

namespace ChunkTree

theorem Statement.children_sublist_nested (s : Statement) : s.children.Sublist s.nested := by
  cases s with
  | switch span selector entries => exact List.nil_sublist _
  | guarded span resources body clauses cleanup => exact List.Sublist.cons_cons body (List.nil_sublist _)
  | _ => exact List.Sublist.refl _

theorem Chunk.maxHeight_le {chunks : List Chunk} {bound : Nat}
    (h : ∀ c ∈ chunks, c.height ≤ bound) : maxHeight chunks ≤ bound := by
  induction chunks with
  | nil => exact Nat.zero_le bound
  | cons c rest ih =>
    obtain ⟨hc, hrest⟩ := List.forall_mem_cons.mp h
    exact Nat.max_le.mpr ⟨hc, ih hrest⟩

namespace Splitter

variable {S : Splitter}

theorem subtree_errands_sublist (s : Statement) :
    ((S.errands s).flatMap Errand.subtree).Sublist s.subtree := by
  rw [errands]
  split
  · exact List.nil_sublist _
  · cases s with
    | plain span text => simp [oversizedErrands, Errand.subtree]
    | block span statements => simp [oversizedErrands, Errand.subtree]
    | conditional span condition thenBranch elseBranch =>
      rw [Statement.subtree]
      refine List.Sublist.cons _ ?_
      cases elseBranch with
      | none => simp [oversizedErrands, Errand.subtree, Statement.subtreeOptional]
      | some other =>
        rw [oversizedErrands]
        split <;> simp [Errand.subtree, Statement.subtreeOptional]
    | switch span selector entries =>
      rw [Statement.subtree, Statement.subtreeEntries_eq_flatMap, oversizedErrands,
        List.flatMap_map]
      exact List.Sublist.cons _ (List.filter_sublist.flatMap _)
    | guarded span resources body clauses cleanup =>
      rw [Statement.subtree]
      simp [oversizedErrands, Errand.subtree, List.Sublist.cons]
    | headed span head body =>
      simp [oversizedErrands, Errand.subtree, Statement.subtree]
    | other span label header children => simp [oversizedErrands, Errand.subtree]

theorem subtree_agenda_sublist (s : Statement) :
    ((S.agenda s).flatMap Errand.subtree).Sublist (s.nested.flatMap Statement.subtree) := by
  rw [agenda, List.flatMap_assoc]
  have herrands := List.Sublist.flatMap_right s.children fun c _ => S.subtree_errands_sublist c
  exact herrands.trans (s.children_sublist_nested.flatMap Statement.subtree)

theorem statements_of_leads {depth n : Nat} {text : Text} {errands : List Errand}
    {steps : List (Step Dissection)} (h : List.Forall₂ (S.Leads depth text) errands steps)
    (hpart : ∀ e ∈ errands, ∀ t, (((S.dissect e.statement t (depth + 1)).nodes n).map
      (·.2.statement)).Sublist e.statement.subtree) :
    ((Dissection.nodesIn n steps).map (·.2.statement)).Sublist
      (errands.flatMap Errand.subtree) := by
  induction h with
  | nil => exact List.Sublist.refl []
  | cons hleads _ ih =>
    obtain ⟨he, hrest⟩ := List.forall_mem_cons.mp hpart
    have htail := ih hrest
    rw [List.flatMap_cons]
    cases hleads with
    | unhandled x => exact htail
    | notFound x stretch => exact htail.trans (List.sublist_append_right _ _)
    | cut x gap hstretch =>
      rw [Dissection.nodesIn, List.map_append]
      exact (he _).append htail

theorem statements_sublist (s : Statement) (text : Text) (depth n : Nat) :
    (((S.dissect s text depth).nodes n).map (·.2.statement)).Sublist s.subtree := by
  induction s using S.agendaInduction generalizing text depth n with
  | step s ih =>
    rw [Statement.subtree_eq]
    have hroot : [s].Sublist (s :: s.nested.flatMap Statement.subtree) :=
      List.Sublist.cons_cons s (List.nil_sublist _)
    rcases S.dissect_cases s text depth with hd | ⟨-, hd⟩ | ⟨-, steps, rest, hd, hall⟩
    · rw [hd]
      exact hroot
    · rw [hd]
      exact hroot
    · rw [hd]
      have hparts := statements_of_leads (n := n + 1) hall
        fun e he t => ih e he t (depth + 1) (n + 1)
      exact List.Sublist.cons_cons s (hparts.trans (S.subtree_agenda_sublist s))

mutual

theorem length_nodes (S : Splitter) : ∀ (d : Dissection) (n : Nat),
    (d.nodes n).length = (S.production d).count
  | ⟨s, steps, rest⟩, n => by
    have hsteps := length_nodesIn S steps (n + 1) 0
    rw [Dissection.nodes, List.length_cons, production, Production.count]
    omega

theorem length_nodesIn (S : Splitter) : ∀ (steps : List (Step Dissection)) (n offset : Nat),
    (Dissection.nodesIn n steps).length = Production.countAll (S.productions offset steps)
  | [], n, offset => rfl
  | .note k :: rest, n, offset => length_nodesIn S rest n offset
  | .cut gap stretch part :: rest, n, offset => by
    have hpart := length_nodes S part n
    have hrest := length_nodesIn S rest n
      (offset + Text.byteLength gap + Text.byteLength S.placeholder)
    rw [Dissection.nodesIn, List.length_append, productions, Production.countAll]
    omega

end

theorem chunks_le_subtree {s : Statement} {rendered : Text} {j l : Journal} {c : Chunk}
    (h : S.decompose s rendered j = .ok (c, l)) :
    l.stats.chunks ≤ j.stats.chunks + s.subtree.length := by
  have hproduced := (yields_of_decompose h).produced
  have hnodes := length_nodes S (S.dissect s (Text.flatten rendered) 0) 0
  have hsubtree := (statements_sublist (S := S) s (Text.flatten rendered) 0 0).length_le
  rw [List.length_map] at hsubtree
  rw [produced] at hproduced
  omega

theorem height_of_settle : Settles S
    (fun d _ c _ => ∀ n bound, (∀ p ∈ d.nodes n, p.1 < bound) → n + c.height ≤ bound)
    (fun steps _ cs _ => ∀ n bound, (∀ p ∈ Dissection.nodesIn n steps, p.1 < bound) →
      ∀ c ∈ cs, n + c.height ≤ bound) where
  nil j n bound _ := List.forall_mem_nil _
  note k rest j cs l ih := ih
  cut gap stretch part rest j c k cs l hpart hrest n bound h := by
    rw [Dissection.nodesIn, List.forall_mem_append] at h
    exact List.forall_mem_cons.mpr ⟨hpart n bound h.1, hrest n bound h.2⟩
  node s steps rest j children k₁ c k₂ _ hsteps henforce n bound h := by
    rw [Dissection.nodes, List.forall_mem_cons] at h
    obtain ⟨hroot, hin⟩ := h
    obtain ⟨-, hkept⟩ := fitsUnit_of_enforce henforce
    obtain ⟨content, kept⟩ := c
    have hmax : Chunk.maxHeight kept ≤ bound - (n + 1) := by
      apply Chunk.maxHeight_le
      intro c hc
      have hc := hsteps (n + 1) bound hin c (hkept c hc)
      omega
    rw [Chunk.height]
    omega

/-- A dissected node lies no deeper than the depth bound, and the deeper it lies the less height of
the tree is left below it. -/
theorem depths_of_dissect (s : Statement) (text : Text) :
    ∀ p ∈ (S.dissect s text 0).nodes 0, ∃ x t, p.2 = S.dissect x t p.1 ∧
      p.1 ≤ S.maxDepth ∧ p.1 + x.height ≤ s.height := by
  apply nodes_descend (P := fun n x _ => n ≤ S.maxDepth ∧ n + x.height ≤ s.height)
  · rintro depth y text ⟨-, hheight⟩ hdeep x stretch hx -
    have hlower : x.height < y.height := height_lt_of_mem_agenda hx
    exact ⟨hdeep, by omega⟩
  · exact ⟨Nat.zero_le _, by omega⟩

theorem height_le_of_decompose {s : Statement} {rendered : Text} {j l : Journal} {c : Chunk}
    (h : S.decompose s rendered j = .ok (c, l)) : c.height ≤ min (S.maxDepth + 1) s.height := by
  have hheight := height_of_settle.settle h 0 (min (S.maxDepth + 1) s.height) ?_
  · rwa [Nat.zero_add] at hheight
  · intro p hp
    obtain ⟨x, t, -, hdeep, hlower⟩ := depths_of_dissect s (Text.flatten rendered) p hp
    have hpos := x.height_pos
    omega

theorem depthLimit_of_decompose {s : Statement} {rendered : Text} {j l : Journal} {c : Chunk}
    (h : S.decompose s rendered j = .ok (c, l)) :
    ∃ new, l.stats.diagnostics = j.stats.diagnostics ++ new ∧
      ∀ location depth, .depthLimit location depth ∈ new →
        depth = S.maxDepth ∧ S.maxDepth < s.height := by
  obtain ⟨new, hnew, hreports⟩ := (reports_of_decompose h).appends
  refine ⟨new, hnew, ?_⟩
  intro location depth hx
  obtain ⟨p, hp, hreport⟩ := hreports _ hx
  obtain ⟨x, t, hd, hdeep, hlower⟩ := depths_of_dissect s (Text.flatten rendered) p hp
  rw [hd] at hreport
  cases hreport with
  | note hn hsame =>
    rcases statement_of_note hn with rfl | ⟨rfl, hreached⟩ | ⟨e, -, rfl | rfl⟩
    · cases hsame
    · have hpos := x.height_pos
      simp only [diagnostic?, Option.some.injEq, Diagnostic.depthLimit.injEq] at hsame
      omega
    · cases hsame
    · cases hsame

def withMaxDepth (S : Splitter) (bound : Nat) : Splitter := { S with maxDepth := bound }

section Bound

variable {bound : Nat}

theorem perform_bound {depth : Nat} (e : Errand)
    (h : ∀ stretch, (S.withMaxDepth bound).dissect e.statement stretch (depth + 1) =
      S.dissect e.statement stretch (depth + 1)) (f : Frame Dissection) :
    (S.withMaxDepth bound).perform depth f e = S.perform depth f e := by
  cases e with
  | unhandled s => rfl
  | cut s stretch =>
    rw [perform, perform]
    cases hc : Text.cutAt? stretch f.rest with
    | none => rw [cutPart_none hc, cutPart_none hc]
    | some r =>
      have hpart := h stretch
      rw [Errand.statement] at hpart
      rw [cutPart_some hc, cutPart_some hc, hpart]

theorem dissect_bound {s : Statement} {depth : Nat} (hS : depth + s.height ≤ S.maxDepth)
    (hbound : depth + s.height ≤ bound) (text : Text) :
    (S.withMaxDepth bound).dissect s text depth = S.dissect s text depth := by
  induction s using S.agendaInduction generalizing depth text with
  | step s ih =>
    have hpos := s.height_pos
    have hchildren : ∀ f, (S.withMaxDepth bound).cutChildren s depth f =
        S.cutChildren s depth f := by
      intro f
      rw [cutChildren_eq_foldl_agenda, cutChildren_eq_foldl_agenda]
      apply List.foldl_ext
      intro f e he
      refine perform_bound e (fun stretch => ?_) f
      -- a part lies one level deeper, and its height is smaller by one or more
      have hlower := height_lt_of_mem_agenda he
      exact ih e he (by omega) (by omega) stretch
    have hroom : ¬ S.maxDepth ≤ depth := by omega
    have hroomBound : ¬ (S.withMaxDepth bound).maxDepth ≤ depth := by
      show ¬ bound ≤ depth
      omega
    rw [dissect, dissect, dissectWith, dissectWith, if_neg hroom, if_neg hroomBound, hchildren]
    rfl

theorem noteInto_bound {n : Note} (hn : ∀ s depth, n ≠ .tooDeep s depth) (j : Journal) :
    (S.withMaxDepth bound).noteInto j n = S.noteInto j n := by
  cases n with
  | tooDeep s depth => exact absurd rfl (hn s depth)
  | _ => rfl

mutual

theorem settle_bound : ∀ (d : Dissection) (n : Nat),
    (∀ p ∈ d.nodes n, ∀ s depth, .note (.tooDeep s depth) ∉ p.2.steps) →
    (S.withMaxDepth bound).settle d = S.settle d
  | ⟨s, steps, rest⟩, n, h => by
    rw [Dissection.nodes, List.forall_mem_cons] at h
    funext j
    rw [settle, settle, settleSteps_bound steps (n + 1) h.1 h.2]
    rfl

theorem settleSteps_bound : ∀ (steps : List (Step Dissection)) (n : Nat),
    (∀ s depth, .note (.tooDeep s depth) ∉ steps) →
    (∀ p ∈ Dissection.nodesIn n steps, ∀ s depth, .note (.tooDeep s depth) ∉ p.2.steps) →
    (S.withMaxDepth bound).settleSteps steps = S.settleSteps steps
  | [], n, _, _ => rfl
  | .note k :: rest, n, h, hin => by
    funext j
    rw [settleSteps, settleSteps, noteInto_bound, settleSteps_bound rest n]
    · exact fun s depth hs => h s depth (List.mem_cons_of_mem _ hs)
    · exact hin
    · rintro s depth rfl
      exact h s depth List.mem_cons_self
  | .cut gap stretch part :: rest, n, h, hin => by
    rw [Dissection.nodesIn, List.forall_mem_append] at hin
    funext j
    rw [settleSteps, settleSteps, settle_bound part n hin.1, settleSteps_bound rest n]
    · exact fun s depth hs => h s depth (List.mem_cons_of_mem _ hs)
    · exact hin.2

end

theorem decompose_bound {s : Statement} (hS : s.height ≤ S.maxDepth) (hbound : s.height ≤ bound)
    (rendered : Text) :
    (S.withMaxDepth bound).decompose s rendered = S.decompose s rendered := by
  rw [decompose, decompose, dissect_bound (by omega) (by omega)]
  apply settle_bound _ 0
  intro p hp y depth hnote
  obtain ⟨x, t, hx, -, hlower⟩ := depths_of_dissect s (Text.flatten rendered) p hp
  rw [hx] at hnote
  have hpos := x.height_pos
  -- a node at the bound would leave no height for its own statement
  rcases statement_of_note hnote with h | ⟨-, hreached⟩ | ⟨e, -, h | h⟩
  · cases h
  · omega
  · cases h
  · cases h

end Bound

theorem recursion_bounded (S : Splitter) (s : Statement) (rendered : Text) :
    (((S.dissect s (Text.flatten rendered) 0).nodes 0).map (·.2.statement)).Sublist s.subtree ∧
    (∀ p ∈ (S.dissect s (Text.flatten rendered) 0).nodes 0,
      p.1 ≤ S.maxDepth ∧ p.1 + p.2.statement.height ≤ s.height) ∧
    (∀ (j l : Journal) (c : Chunk), S.decompose s rendered j = .ok (c, l) →
      l.stats.chunks ≤ j.stats.chunks + s.subtree.length ∧
      c.height ≤ min (S.maxDepth + 1) s.height ∧
      ∃ new, l.stats.diagnostics = j.stats.diagnostics ++ new ∧
        ∀ location depth, .depthLimit location depth ∈ new → depth = S.maxDepth) ∧
    ∀ bound, s.height ≤ S.maxDepth → s.height ≤ bound →
      (∀ j, (S.withMaxDepth bound).decompose s rendered j = S.decompose s rendered j) ∧
      ∀ (j l : Journal) (c : Chunk), S.decompose s rendered j = .ok (c, l) →
        ∃ new, l.stats.diagnostics = j.stats.diagnostics ++ new ∧
          ∀ location depth, .depthLimit location depth ∉ new := by
  refine ⟨S.statements_sublist s _ 0 0, ?_, ?_, ?_⟩
  · intro p hp
    obtain ⟨x, t, hx, hdeep, hlower⟩ := depths_of_dissect s (Text.flatten rendered) p hp
    rw [hx, statement_dissect]
    exact ⟨hdeep, hlower⟩
  · intro j l c h
    obtain ⟨new, hnew, hlimits⟩ := depthLimit_of_decompose h
    exact ⟨chunks_le_subtree h, height_le_of_decompose h, new, hnew,
      fun location depth hx => (hlimits location depth hx).1⟩
  · intro bound hS hbound
    constructor
    · intro j
      rw [decompose_bound hS hbound rendered]
    · intro j l c h
      obtain ⟨new, hnew, hlimits⟩ := depthLimit_of_decompose h
      refine ⟨new, hnew, ?_⟩
      intro location depth hx
      have hlimit := (hlimits location depth hx).2
      omega

/-- At the depth bound of one the loop keeps its body inline; two bounds that are not below the
height of the tree are the same. -/
theorem recursion_bounded_sampleBody :
    (∃ c l, ((sampleSplitter 40).withMaxDepth 1).decompose sampleBody sampleBody.render
        Journal.empty = .ok (c, l) ∧
      .depthLimit ⟨none, none⟩ 1 ∈ l.stats.diagnostics ∧
      l.stats.chunks = 3 ∧ l.stats.chunks ≤ 0 + sampleBody.subtree.length ∧
      c.height = 2 ∧ c.height ≤ min (1 + 1) sampleBody.height) ∧
    sampleBody.height = 4 ∧ sampleBody.subtree.length = 7 ∧
    ((sampleSplitter 40).withMaxDepth 5).decompose sampleBody sampleBody.render Journal.empty =
      (sampleSplitter 40).decompose sampleBody sampleBody.render Journal.empty ∧
    ∃ c l new, (sampleSplitter 40).decompose sampleBody sampleBody.render Journal.empty =
        .ok (c, l) ∧ l.stats.diagnostics = new ∧
      ∀ location depth, .depthLimit location depth ∉ new := by
  obtain ⟨-, -, hbounds, -⟩ :=
    recursion_bounded ((sampleSplitter 40).withMaxDepth 1) sampleBody sampleBody.render
  obtain ⟨hchunks, hheight, -⟩ := hbounds Journal.empty _ _ rfl
  obtain ⟨-, -, -, hlimits⟩ := recursion_bounded (sampleSplitter 40) sampleBody sampleBody.render
  obtain ⟨hsame, hnone⟩ := hlimits 5 (by decide) (by decide)
  obtain ⟨new, hnew, hfree⟩ := hnone Journal.empty _ _ rfl
  refine ⟨⟨_, _, rfl, by decide, rfl, hchunks, rfl, hheight⟩, by decide, by decide,
    hsame Journal.empty, _, _, new, rfl, hnew, hfree⟩

end Splitter
end ChunkTree

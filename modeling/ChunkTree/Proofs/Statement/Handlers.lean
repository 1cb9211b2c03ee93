import ChunkTree.Proofs.Statement.Height
import Mathlib.Data.List.Nodup
import Mathlib.Data.List.Pairwise
import Mathlib.Tactic.ByContra

/-!
Handlers of guards. A descent that goes from a guard to its protected body alone never comes to a
statement inside a handler, and where spans are distinct no statement it comes to has the span of one.
-/

namespace ChunkTree

def handlersText (clauses : List (CatchClause Statement)) (cleanup : Option Statement) : Text :=
  renderClauses clauses ++ renderAfter " finally ".toList cleanup

namespace Statement

def handlers : Statement → List Statement
  | .guarded _ _ _ clauses cleanup => clauses.map (·.body) ++ cleanup.toList
  | _ => []

/-- The statements directly inside that are in no handler. -/
def exposed : Statement → List Statement
  | .guarded _ _ body _ _ => [body]
  | s => s.nested

theorem nested_eq_append (s : Statement) : s.nested = s.exposed ++ s.handlers := by
  cases s with
  | guarded span resources body clauses cleanup => rfl
  | _ => exact (List.append_nil _).symm

theorem exposed_of_mem_children {s c : Statement} (h : c ∈ s.children) : c ∈ s.exposed := by
  cases s with
  | guarded span resources body clauses cleanup => exact h
  | _ => exact nested_of_mem_children h

inductive Reaches : Statement → Statement → Prop where
  | self (s : Statement) : Reaches s s
  | inner {s c x : Statement} (hc : c ∈ s.exposed) (hx : Reaches c x) : Reaches s x

theorem Reaches.trans {s x y : Statement} (hx : s.Reaches x) (hy : x.Reaches y) : s.Reaches y := by
  induction hx with
  | self s => exact hy
  | inner hc hx ih => exact .inner hc (ih hy)

theorem nested_of_mem_exposed {s c : Statement} (h : c ∈ s.exposed) : c ∈ s.nested := by
  rw [nested_eq_append]
  exact List.mem_append_left _ h

theorem nested_of_mem_handlers {s c : Statement} (h : c ∈ s.handlers) : c ∈ s.nested := by
  rw [nested_eq_append]
  exact List.mem_append_right _ h

theorem Reaches.mem_subtree {s x : Statement} (h : s.Reaches x) : x ∈ s.subtree := by
  induction h with
  | self s => exact s.self_mem_subtree
  | inner hc hx ih => exact mem_subtree_of_nested (nested_of_mem_exposed hc) ih

def spans (s : Statement) : List Span := s.subtree.filterMap span

theorem spans_eq (s : Statement) : s.spans = s.span.toList ++ s.nested.flatMap spans := by
  rw [spans, subtree_eq, List.filterMap_cons, List.filterMap_flatMap]
  cases s.span <;> rfl

theorem mem_spans_of_subtree {s x : Statement} {place : Span} (hx : x ∈ s.subtree)
    (hplace : x.span = some place) : place ∈ s.spans :=
  List.mem_filterMap.mpr ⟨x, hx, hplace⟩

theorem subtree_of_mem_handlers {t d y : Statement} (hd : d ∈ t.handlers) (hy : y ∈ d.subtree) :
    y ∈ t.subtree :=
  mem_subtree_of_nested (nested_of_mem_handlers hd) hy

theorem nodup_of_nested {s c : Statement} (hdistinct : s.spans.Nodup) (hc : c ∈ s.nested) :
    c.spans.Nodup := by
  rw [spans_eq, List.nodup_append, List.nodup_flatMap] at hdistinct
  exact hdistinct.2.1.1 c hc

theorem eq_of_mem_spans {s c d : Statement} (hdistinct : s.spans.Nodup) (hc : c ∈ s.nested)
    (hd : d ∈ s.nested) {place : Span} (hplace : place ∈ c.spans) (hplace' : place ∈ d.spans) :
    c = d := by
  rw [spans_eq, List.nodup_append, List.nodup_flatMap] at hdistinct
  obtain ⟨-, ⟨-, hpairwise⟩, -⟩ := hdistinct
  have hsymm : Std.Symm (Function.onFun List.Disjoint spans) := ⟨fun _ _ h _ hb ha => h ha hb⟩
  by_contra hne
  exact hpairwise.forall hc hd hne hplace hplace'

theorem not_mem_spans_of_exposed {s c d : Statement} (hdistinct : s.spans.Nodup)
    (hc : c ∈ s.exposed) (hd : d ∈ s.handlers) {place : Span} (hplace : place ∈ c.spans) :
    place ∉ d.spans := by
  intro hplace'
  rw [spans_eq, nested_eq_append, List.flatMap_append] at hdistinct
  have happart := (List.nodup_append.mp (List.nodup_append.mp hdistinct).2.1).2.2
  exact happart place (List.mem_flatMap.mpr ⟨c, hc, hplace⟩) place
    (List.mem_flatMap.mpr ⟨d, hd, hplace'⟩) rfl

theorem span_ne_of_mem_nested {s c : Statement} (hdistinct : s.spans.Nodup) (hc : c ∈ s.nested)
    {place : Span} (hplace : place ∈ c.spans) : s.span ≠ some place := by
  intro hsame
  rw [spans_eq] at hdistinct
  have happart := (List.nodup_append.mp hdistinct).2.2
  exact happart place (Option.mem_toList.mpr hsame) place (List.mem_flatMap.mpr ⟨c, hc, hplace⟩) rfl

theorem span_ne_of_handler {s x t d y : Statement} (hdistinct : s.spans.Nodup) (hx : s.Reaches x)
    (ht : t ∈ s.subtree) (hd : d ∈ t.handlers) (hy : y ∈ d.subtree) {place : Span}
    (hplace : y.span = some place) : x.span ≠ some place := by
  induction hx with
  | self s =>
    rw [subtree_eq, List.mem_cons, List.mem_flatMap] at ht
    rcases ht with rfl | ⟨c, hc, ht⟩
    · exact span_ne_of_mem_nested hdistinct (nested_of_mem_handlers hd)
        (mem_spans_of_subtree hy hplace)
    · have hyc := mem_subtree_trans ht (subtree_of_mem_handlers hd hy)
      exact span_ne_of_mem_nested hdistinct hc (mem_spans_of_subtree hyc hplace)
  | inner hc hx ih =>
    intro hsame
    have hxc := mem_spans_of_subtree hx.mem_subtree hsame
    rw [subtree_eq, List.mem_cons, List.mem_flatMap] at ht
    rcases ht with rfl | ⟨b, hb, ht⟩
    · exact not_mem_spans_of_exposed hdistinct hc hd hxc (mem_spans_of_subtree hy hplace)
    · -- the handler is inside the same statement as `x`, so the descent into it decides
      have hyb := mem_subtree_trans ht (subtree_of_mem_handlers hd hy)
      have hnested := nested_of_mem_exposed hc
      obtain rfl := eq_of_mem_spans hdistinct hnested hb hxc (mem_spans_of_subtree hyb hplace)
      exact ih (nodup_of_nested hdistinct hnested) ht hsame

end Statement
end ChunkTree

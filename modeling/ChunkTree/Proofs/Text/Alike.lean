import ChunkTree.Proofs.Text.Indent
import Mathlib.Data.List.Forall2

/-!
Texts that look alike on one line, whatever text stands before and behind them. A line break looks like
a space, so items on indented lines of their own look like the same items with spaces between them.
-/

namespace ChunkTree
namespace Text

variable {s t u v : Text}

/-- A text that does not end with a carriage return, which a line feed behind it would take along. -/
def Closed (t : Text) : Prop := t.getLast? ≠ some '\r'

instance (t : Text) : Decidable (Closed t) := inferInstanceAs (Decidable (t.getLast? ≠ some '\r'))

theorem Closed.append (hs : Closed s) (ht : Closed t) : Closed (s ++ t) := by
  rw [Closed, List.getLast?_append]
  cases hlast : t.getLast? with
  | none => exact hs
  | some c => simpa [Closed, hlast] using ht

theorem Closed.append_left (ht : Closed t) (hne : t ≠ []) (s : Text) : Closed (s ++ t) := by
  rwa [Closed, List.getLast?_append_of_ne_nil s hne]

theorem Closed.flattenAfter_append (ht : Closed t) (spaced : Bool) (rest : Text) :
    flattenAfter spaced (t ++ rest) =
      flattenAfter spaced t ++ flattenAfter (spacedAfter spaced t) rest :=
  Text.flattenAfter_append (fun h => ht h.1) spaced

theorem closed_of_not_mem (h : '\r' ∉ t) : Closed t := fun hlast => h (List.mem_of_getLast? hlast)

theorem singleReturns_of_not_mem (h : '\r' ∉ t) : SingleReturns t := by
  apply singleReturns_iff.mpr
  intro hpair
  exact h (hpair.subset List.mem_cons_self)

structure Alike (s t : Text) : Prop where
  same : ∀ spaced rest, flattenAfter spaced (s ++ rest) = flattenAfter spaced (t ++ rest)
  closed : Closed t

theorem Alike.refl (ht : Closed t) : Alike t t := ⟨fun _ _ => rfl, ht⟩

theorem Alike.append (hst : Alike s t) (huv : Alike u v) : Alike (s ++ u) (t ++ v) where
  same spaced rest := by
    rw [List.append_assoc, List.append_assoc, hst.same, hst.closed.flattenAfter_append,
      huv.same, ← hst.closed.flattenAfter_append]
  closed := hst.closed.append huv.closed

theorem alike_newline : Alike ['\n'] [' '] where
  same spaced rest := by
    rw [List.singleton_append, List.singleton_append, flattenAfter_newline,
      flattenAfter_blank (.inl rfl)]
  closed := by decide

theorem alike_newline_spaces : Alike ['\n'] [' ', ' '] where
  same spaced rest := by
    rw [List.singleton_append, List.cons_append, List.singleton_append, flattenAfter_newline,
      flattenAfter_blank (.inl rfl), flattenAfter_blank (.inl rfl), if_pos rfl]
  closed := by decide

theorem Alike.flatten_eq (h : Alike s t) : flatten s = flatten t := by
  have hsame := h.same false []
  rwa [List.append_nil, List.append_nil] at hsame

structure AlikeLine (s t : Text) : Prop where
  single : SingleReturns s
  same : ∀ spaced rest, flattenAfter spaced (s ++ '\n' :: rest) = flattenAfter spaced (t ++ '\n' :: rest)
  closed : Closed t

theorem Alike.line (h : Alike s t) (hs : SingleReturns s) : AlikeLine s t :=
  ⟨hs, fun spaced rest => h.same spaced ('\n' :: rest), h.closed⟩

def spacedItems (items : List Text) : Text := items.flatMap (fun t => ' ' :: t)

theorem space_intercalate {items : List Text} (h : items ≠ []) :
    ' ' :: [' '].intercalate items = spacedItems items := by
  induction items with
  | nil => exact absurd rfl h
  | cons t items ih =>
    cases items with
    | nil => simp [spacedItems]
    | cons t' items =>
      rw [List.intercalate_cons_cons, List.append_assoc, List.singleton_append,
        ih (List.cons_ne_nil t' items)]
      rfl

theorem closed_spacedItems {items : List Text} (h : ∀ t ∈ items, Closed t) :
    Closed (spacedItems items) := by
  induction items with
  | nil => decide
  | cons t items ih =>
    obtain ⟨ht, hitems⟩ := List.forall_mem_cons.mp h
    have hspace : Closed [' '] := by decide
    exact (hspace.append ht).append (ih hitems)

theorem forall₂_map_map {α : Type} {R : Text → Text → Prop} {f g : α → Text} {items : List α}
    (h : ∀ x ∈ items, R (f x) (g x)) : List.Forall₂ R (items.map f) (items.map g) := by
  rw [List.forall₂_map_left_iff, List.forall₂_map_right_iff, List.forall₂_same]
  exact h

theorem closed_of_forall₂ {items lines : List Text} (h : List.Forall₂ AlikeLine items lines) :
    ∀ t ∈ lines, Closed t := by
  induction h with
  | nil => exact List.forall_mem_nil _
  | cons hline _ ih => exact List.forall_mem_cons.mpr ⟨hline.closed, ih⟩

theorem flattenAfter_newline_congr (h : flattenAfter true s = flattenAfter true t) (spaced : Bool) :
    flattenAfter spaced ('\n' :: s) = flattenAfter spaced (' ' :: t) := by
  rw [flattenAfter_newline, flattenAfter_blank (.inl rfl), h]

theorem flattenAfter_indentedLines {items lines : List Text} (h : List.Forall₂ AlikeLine items lines)
    (spaced : Bool) (rest : Text) :
    flattenAfter spaced (indentedLines items ++ '\n' :: rest) =
      flattenAfter spaced (spacedItems lines ++ '\n' :: rest) := by
  induction h generalizing spaced with
  | nil => rfl
  | @cons t l items lines hline _ ih =>
    obtain ⟨next, hnext⟩ := exists_indentedLines items rest
    have hspace : Closed [' '] := by decide
    have hitem : flattenAfter true (indent t ++ '\n' :: next) =
        flattenAfter true (l ++ '\n' :: next) := by
      rw [flattenAfter_indent hline.single.indentable, hline.same]
    calc flattenAfter spaced (indentedLines (t :: items) ++ '\n' :: rest)
        = flattenAfter spaced ('\n' :: (indent t ++ '\n' :: next)) := by
          rw [← hnext]
          simp [indentedLines]
      _ = flattenAfter spaced (' ' :: (l ++ '\n' :: next)) := flattenAfter_newline_congr hitem spaced
      _ = flattenAfter spaced ([' '] ++ l ++ (indentedLines items ++ '\n' :: rest)) := by
          rw [hnext]
          rfl
      _ = flattenAfter spaced ([' '] ++ l ++ (spacedItems lines ++ '\n' :: rest)) := by
          have hclosed := hspace.append hline.closed
          rw [hclosed.flattenAfter_append, ih, ← hclosed.flattenAfter_append]
      _ = flattenAfter spaced (spacedItems (l :: lines) ++ '\n' :: rest) := by
          simp [spacedItems]

theorem alike_indentedLines {items lines : List Text} (h : List.Forall₂ AlikeLine items lines) :
    Alike (indentedLines items ++ ['\n']) (spacedItems lines ++ [' ']) := by
  have hclosed := closed_spacedItems (closed_of_forall₂ h)
  refine ⟨?_, hclosed.append (by decide)⟩
  intro spaced rest
  rw [List.append_assoc, List.append_assoc, List.singleton_append, flattenAfter_indentedLines h,
    hclosed.flattenAfter_append, hclosed.flattenAfter_append, ← alike_newline.same]
  rfl

theorem alike_joinLines {parts lines : List Text} (h : List.Forall₂ Alike parts lines) :
    Alike (joinLines parts) ([' '].intercalate lines) := by
  induction h with
  | nil => exact .refl (by decide)
  | cons hpart hrest ih =>
    cases hrest with
    | nil => simpa [joinLines] using hpart
    | cons hnext hrest =>
      rw [joinLines_cons_cons, List.intercalate_cons_cons, List.append_assoc]
      exact hpart.append (alike_newline.append ih)

end Text
end ChunkTree

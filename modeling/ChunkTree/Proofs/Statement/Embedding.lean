import ChunkTree.Split.Dissect
import ChunkTree.Proofs.Statement.Returns
import ChunkTree.Proofs.Text.Order

/-!
The one-line text of a statement inside the text of the statement around it. A statement is rendered
alone, its parent indents it and goes on behind it, and still the trimmed texts of all children stand
in the parent's text, in order and apart from each other.
-/

namespace ChunkTree
namespace Splitter

open Text

theorem trim_flattenAfter (spaced : Bool) (t : Text) :
    trim (flattenAfter spaced t) = spanText t := by
  cases spaced with
  | false => rfl
  | true =>
    rw [spanText, flatten]
    induction t with
    | nil => rfl
    | cons c t ih =>
      by_cases hr : c = '\r' ∧ t.head? = some '\n'
      · obtain ⟨rfl, ht⟩ := hr
        rw [flattenAfter_return ht, flattenAfter_return ht, ih]
      · by_cases hc : c = ' ' ∨ c = '\n'
        · rw [flattenAfter_blank hc, flattenAfter_blank hc, if_pos rfl]
          exact (trim_cons_blank (by decide) _).symm
        · rw [flattenAfter_other hr hc, flattenAfter_other hr hc]

theorem spanText_isInfix (spaced : Bool) (t : Text) : spanText t <:+: flattenAfter spaced t := by
  rw [← trim_flattenAfter spaced t]
  exact trim_isInfix _

theorem spanText_concat_return (t : Text) : spanText (t ++ ['\r']) = spanText t := by
  rw [spanText, flatten, flattenAfter_append (by simp)]
  exact trim_concat_blank (by decide) _

theorem tight_spanText (t : Text) : Tight (spanText t) := tight_trim _

theorem exists_flattenAfter_append (spaced : Bool) (s t : Text) :
    ∃ s' spaced', flattenAfter spaced (s ++ t) = flattenAfter spaced s' ++ flattenAfter spaced' t ∧
      spanText s' = spanText s := by
  by_cases hbreak : s.getLast? = some '\r' ∧ t.head? = some '\n'
  · -- the first text leaves its carriage return to the line feed of the second
    obtain ⟨hlast, hhead⟩ := hbreak
    obtain ⟨s', rfl⟩ := List.getLast?_eq_some_iff.mp hlast
    refine ⟨s', spacedAfter spaced s', ?_, (spanText_concat_return s').symm⟩
    rw [List.append_assoc, flattenAfter_append (by simp), List.singleton_append,
      flattenAfter_return hhead]
  · exact ⟨s, spacedAfter spaced s, flattenAfter_append hbreak spaced, rfl⟩

theorem inOrder_flattenAfter_append (spaced : Bool) (s t : Text) :
    ∃ spaced', InOrder [spanText s] (flattenAfter spaced (s ++ t)) (flattenAfter spaced' t) := by
  obtain ⟨s', spaced', happend, hspan⟩ := exists_flattenAfter_append spaced s t
  obtain ⟨before, after, hsplit⟩ := spanText_isInfix spaced s'
  refine ⟨spaced', after ++ flattenAfter spaced' t, ⟨before, ?_⟩, List.suffix_append _ _⟩
  rw [happend, ← hspan, ← hsplit]
  simp

theorem inOrder_flattenAfter {ws : List Text} {t rest : Text} (h : InOrder ws t rest)
    (spaced : Bool) :
    ∃ spaced', InOrder (ws.map spanText) (flattenAfter spaced t) (flattenAfter spaced' rest) := by
  induction ws generalizing t spaced with
  | nil =>
    obtain ⟨s, rfl⟩ := h
    obtain ⟨s', spaced', happend, -⟩ := exists_flattenAfter_append spaced s rest
    exact ⟨spaced', flattenAfter spaced s', happend.symm⟩
  | cons w ws ih =>
    obtain ⟨u, ⟨s, rfl⟩, hws⟩ := h
    obtain ⟨s', spaced₁, happend, -⟩ := exists_flattenAfter_append spaced s (w ++ u)
    obtain ⟨spaced₂, hw⟩ := inOrder_flattenAfter_append spaced₁ w u
    obtain ⟨spaced', hrest⟩ := ih hws spaced₂
    refine ⟨spaced', ?_⟩
    rw [happend]
    exact (hw.append hrest).mono (List.suffix_append _ _)

theorem inOrder_trim {α : Type} (text : α → Text) {items : List α} {t rest : Text}
    (h : InOrder (items.map fun x => spanText (text x)) t rest) :
    InOrder (items.map fun x => spanText (text x)) (trim t) (trim rest) := by
  refine h.trim fun w hw => ?_
  obtain ⟨x, -, rfl⟩ := List.mem_map.mp hw
  exact tight_spanText (text x)

theorem inOrder_spanText {ws : List Text} {t rest : Text} (h : InOrder ws t rest) :
    InOrder (ws.map spanText) (spanText t) (spanText rest) := by
  obtain ⟨spaced, hflat⟩ := inOrder_flattenAfter h false
  rw [← trim_flattenAfter spaced rest]
  exact inOrder_trim id hflat

theorem spanText_isInfix_spanText {s t : Text} (h : s <:+: t) : spanText s <:+: spanText t :=
  inOrder_singleton.mp (inOrder_spanText (inOrder_singleton.mpr h))

/-- The words stand in the one-line form of a text that more lines follow, all of them before these
lines. -/
def Holds (ws : List Text) (t : Text) : Prop :=
  ∀ rest, InOrder ws (flattenAfter true (t ++ '\n' :: rest)) (flattenAfter true rest)

theorem flattenAfter_suffix_newline (spaced : Bool) (t : Text) :
    flattenAfter true t <:+ flattenAfter spaced ('\n' :: t) := by
  rw [flattenAfter_newline]
  split
  · exact List.suffix_refl _
  · exact List.suffix_cons _ _

theorem holds_spanText (t : Text) : Holds [spanText t] t := by
  intro rest
  obtain ⟨spaced, hword⟩ := inOrder_flattenAfter_append true t ('\n' :: rest)
  have hrest : InOrder [] (flattenAfter spaced ('\n' :: rest)) (flattenAfter true rest) :=
    flattenAfter_suffix_newline spaced rest
  exact hword.append hrest

section Items

variable {α : Type} {text : α → Text} {words : α → List Text} {items : List α}

theorem inOrder_indentedLines
    (h : ∀ x ∈ items, SingleReturns (text x) ∧ Holds (words x) (text x)) (spaced : Bool)
    (rest : Text) :
    InOrder (items.flatMap words)
      (flattenAfter spaced (indentedLines (items.map text) ++ '\n' :: rest))
      (flattenAfter true rest) := by
  induction items generalizing spaced with
  | nil => exact flattenAfter_suffix_newline spaced rest
  | cons x items ih =>
    obtain ⟨⟨hsingle, hholds⟩, hitems⟩ := List.forall_mem_cons.mp h
    obtain ⟨next, hnext⟩ := exists_indentedLines (items.map text) rest
    have hx : InOrder (words x) (flattenAfter true (indent (text x) ++ '\n' :: next))
        (flattenAfter true next) := by
      rw [flattenAfter_indent hsingle.indentable]
      exact hholds next
    have hrest : InOrder (items.flatMap words) (flattenAfter true next)
        (flattenAfter true rest) := by
      have htail := ih hitems true
      rwa [hnext, flattenAfter_newline, if_pos rfl] at htail
    have hline := (hx.append hrest).mono
      (flattenAfter_suffix_newline spaced (indent (text x) ++ '\n' :: next))
    rw [List.flatMap_cons]
    simpa [indentedLines, ← hnext] using hline

theorem holds_append_indentedLines
    (h : ∀ x ∈ items, SingleReturns (text x) ∧ Holds (words x) (text x)) (header : Text) :
    Holds (items.flatMap words) (header ++ indentedLines (items.map text)) := by
  intro rest
  obtain ⟨header', spaced, happend, -⟩ :=
    exists_flattenAfter_append true header (indentedLines (items.map text) ++ '\n' :: rest)
  rw [List.append_assoc, happend]
  exact (inOrder_indentedLines h spaced rest).mono (List.suffix_append _ _)

theorem inOrder_braced
    (h : ∀ x ∈ items, SingleReturns (text x) ∧ Holds (words x) (text x)) (spaced : Bool) :
    InOrder (items.flatMap words) (flattenAfter spaced (braced (items.map text))) [] := by
  obtain ⟨opening, spaced', happend, -⟩ :=
    exists_flattenAfter_append spaced ['{'] (indentedLines (items.map text) ++ ['\n', '}'])
  rw [braced_eq, ← List.singleton_append, happend]
  exact ((inOrder_indentedLines h spaced' ['}']).rest_nil).mono (List.suffix_append _ _)

end Items

end Splitter
end ChunkTree

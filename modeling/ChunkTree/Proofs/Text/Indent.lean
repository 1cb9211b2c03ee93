import ChunkTree.Text.Lines
import ChunkTree.Proofs.Text.Flat
import Mathlib.Data.List.Chain

/-!
Indentation cannot be seen on one line. It drops a carriage return before each line feed, as the
one-line form does, so the two agree where no second carriage return stands before the dropped one.
-/

namespace ChunkTree
namespace Text

def SingleReturns (t : Text) : Prop := t.IsChain (fun c d => ¬ (c = '\r' ∧ d = '\r'))

theorem singleReturns_iff {t : Text} : SingleReturns t ↔ ¬ ['\r', '\r'] <:+: t := by
  rw [SingleReturns, List.isChain_iff_forall_rel_of_append_cons_cons]
  constructor
  · rintro h ⟨before, after, rfl⟩
    have hsplit : before ++ ['\r', '\r'] ++ after = before ++ '\r' :: '\r' :: after := by simp
    exact h hsplit ⟨rfl, rfl⟩
  · rintro h c d before after rfl ⟨rfl, rfl⟩
    exact h ⟨before, after, by simp⟩

theorem singleReturns_nil : SingleReturns [] := .nil

theorem singleReturns_cons {c : Char} {t : Text} :
    SingleReturns (c :: t) ↔ ¬ (c = '\r' ∧ t.head? = some '\r') ∧ SingleReturns t := by
  rw [SingleReturns, List.isChain_cons]
  refine and_congr_left fun _ => ?_
  cases t <;> simp

instance (t : Text) : Decidable (SingleReturns t) :=
  inferInstanceAs (Decidable (t.IsChain fun c d => ¬ (c = '\r' ∧ d = '\r')))

def Indentable (t : Text) : Prop := ¬ ['\r', '\r', '\n'] <:+: t

theorem indentable_nil : Indentable [] := by simp [Indentable]

theorem indentable_cons {c : Char} {t : Text} :
    Indentable (c :: t) ↔ ¬ (c = '\r' ∧ ['\r', '\n'] <+: t) ∧ Indentable t := by
  rw [Indentable, List.infix_cons_iff, not_or, List.cons_prefix_cons, eq_comm (a := '\r')]
  rfl

theorem SingleReturns.indentable {t : Text} (h : SingleReturns t) : Indentable t := by
  intro htriple
  have hpair : ['\r', '\r'] <:+: ['\r', '\r', '\n'] := ⟨[], ['\n'], rfl⟩
  exact singleReturns_iff.mp h (hpair.trans htriple)

/-- A text that may stand between any two others without bringing carriage returns together. -/
structure Separates (a : Text) : Prop where
  ne_nil : a ≠ []
  head : a.head? ≠ some '\r'
  last : a.getLast? ≠ some '\r'
  single : SingleReturns a

instance (a : Text) : Decidable (Separates a) :=
  decidable_of_iff (a ≠ [] ∧ a.head? ≠ some '\r' ∧ a.getLast? ≠ some '\r' ∧ SingleReturns a)
    ⟨fun ⟨hnil, hhead, hlast, hsingle⟩ => ⟨hnil, hhead, hlast, hsingle⟩,
      fun h => ⟨h.ne_nil, h.head, h.last, h.single⟩⟩

theorem Separates.append_left {a t : Text} (ha : Separates a) (ht : SingleReturns t) :
    SingleReturns (a ++ t) := by
  refine List.isChain_append.mpr ⟨ha.single, ht, ?_⟩
  rintro x hx y - ⟨rfl, -⟩
  exact ha.last hx

theorem Separates.append_between {s a t : Text} (hs : SingleReturns s) (ha : Separates a)
    (ht : SingleReturns t) : SingleReturns (s ++ (a ++ t)) := by
  refine List.isChain_append.mpr ⟨hs, ha.append_left ht, ?_⟩
  rintro x - y hy ⟨-, rfl⟩
  rw [List.head?_append_of_ne_nil a ha.ne_nil] at hy
  exact ha.head hy

theorem Separates.append_right {s a : Text} (hs : SingleReturns s) (ha : Separates a) :
    SingleReturns (s ++ a) := by
  rw [← List.append_nil a]
  exact ha.append_between hs singleReturns_nil

theorem Separates.enclose {a t b : Text} (ha : Separates a) (ht : SingleReturns t)
    (hb : Separates b) : Separates (a ++ t ++ b) where
  ne_nil h := ha.ne_nil (List.append_eq_nil_iff.mp (List.append_eq_nil_iff.mp h).1).1
  head := by
    rw [List.append_assoc, List.head?_append_of_ne_nil a ha.ne_nil]
    exact ha.head
  last := by
    rw [List.getLast?_append_of_ne_nil _ hb.ne_nil]
    exact hb.last
  single := hb.append_right (ha.append_left ht)

theorem singleReturns_intercalate {a : Text} (ha : Separates a) {parts : List Text}
    (h : ∀ t ∈ parts, SingleReturns t) : SingleReturns (a.intercalate parts) := by
  induction parts with
  | nil => exact singleReturns_nil
  | cons t parts ih =>
    obtain ⟨ht, hparts⟩ := List.forall_mem_cons.mp h
    cases parts with
    | nil => simpa using ht
    | cons t' parts =>
      rw [List.intercalate_cons_cons, List.append_assoc]
      exact ha.append_between ht (ih hparts)

def indentRest : Text → Text
  | [] => []
  | c :: t =>
    if c = '\n' then if t = [] then [] else '\n' :: (indentation ++ indentRest t)
    else if c = '\r' ∧ t.head? = some '\n' then indentRest t
    else c :: indentRest t

theorem joinLines_cons_cons (s t : Text) (parts : List Text) :
    joinLines (s :: t :: parts) = s ++ '\n' :: joinLines (t :: parts) := by
  rw [joinLines, List.intercalate_cons_cons, List.append_assoc]
  rfl

theorem joinLines_singleton (t : Text) : joinLines [t] = t := List.intercalate_singleton

theorem indent_eq_indentRest {t : Text} (ht : t ≠ []) : indent t = indentation ++ indentRest t := by
  rw [indent]
  induction t with
  | nil => exact absurd rfl ht
  | cons c t ih =>
    rw [lines, indentRest]
    by_cases hline : c = '\n'
    · rw [if_pos hline, if_pos hline]
      cases t with
      | nil => rfl
      | cons d t =>
        obtain ⟨line, rest, hlines⟩ :=
          List.exists_cons_of_ne_nil (mt lines_eq_nil.mp (List.cons_ne_nil d t))
        have hd := ih (List.cons_ne_nil d t)
        rw [hlines, List.map_cons] at hd
        rw [hlines, List.map_cons, List.map_cons, joinLines_cons_cons, hd, if_neg (by simp)]
        simp
    · rw [if_neg hline, if_neg hline]
      by_cases hreturn : c = '\r' ∧ t.head? = some '\n'
      · rw [if_pos hreturn, if_pos hreturn]
        refine ih ?_
        rintro rfl
        simp at hreturn
      · rw [if_neg hreturn, if_neg hreturn]
        cases t with
        | nil => rfl
        | cons d t =>
          obtain ⟨line, rest, hlines⟩ :=
            List.exists_cons_of_ne_nil (mt lines_eq_nil.mp (List.cons_ne_nil d t))
          have hd := ih (List.cons_ne_nil d t)
          rw [hlines] at hd ⊢
          cases rest with
          | nil =>
            simp only [List.map_cons, List.map_nil, joinLines_singleton] at hd ⊢
            rw [← List.append_cancel_left hd]
          | cons next rest =>
            simp only [List.map_cons, joinLines_cons_cons, List.append_assoc] at hd ⊢
            rw [← List.append_cancel_left hd]
            rfl

theorem head?_indentRest {t : Text} (h : (indentRest t).head? = some '\r') :
    t.head? = some '\r' := by
  cases t with
  | nil => exact h
  | cons c t =>
    rw [indentRest] at h
    split at h
    · split at h <;> simp at h
    · split at h
      · rename_i hreturn
        simp [hreturn.1]
      · simpa using h

theorem head?_indentRest_eq {t : Text} (hline : t.head? ≠ some '\n')
    (hreturn : ¬ ['\r', '\n'] <+: t) : (indentRest t).head? = t.head? := by
  cases t with
  | nil => rfl
  | cons c t =>
    have hc : c ≠ '\n' := fun h => hline (by simp [h])
    have hr : ¬ (c = '\r' ∧ t.head? = some '\n') := by
      rintro ⟨rfl, hnext⟩
      obtain ⟨t, rfl⟩ := List.head?_eq_some_iff.mp hnext
      exact hreturn ⟨t, rfl⟩
    rw [indentRest, if_neg hc, if_neg hr]
    rfl

theorem separates_indentation : Separates indentation := by decide

theorem singleReturns_indentRest {t : Text} (h : SingleReturns t) :
    SingleReturns (indentRest t) := by
  induction t with
  | nil => exact singleReturns_nil
  | cons c t ih =>
    obtain ⟨hhead, ht⟩ := singleReturns_cons.mp h
    rw [indentRest]
    split
    · split
      · exact singleReturns_nil
      · exact singleReturns_cons.mpr
          ⟨by simp, separates_indentation.append_left (ih ht)⟩
    · split
      · exact ih ht
      · exact singleReturns_cons.mpr
          ⟨fun hc => hhead ⟨hc.1, head?_indentRest hc.2⟩, ih ht⟩

theorem singleReturns_indent {t : Text} (h : SingleReturns t) : SingleReturns (indent t) := by
  cases t with
  | nil => exact singleReturns_nil
  | cons c t =>
    rw [indent_eq_indentRest (List.cons_ne_nil c t)]
    exact separates_indentation.append_left (singleReturns_indentRest h)

theorem flattenAfter_newline (spaced : Bool) (t : Text) :
    flattenAfter spaced ('\n' :: t) =
      if spaced then flattenAfter true t else ' ' :: flattenAfter true t :=
  flattenAfter_blank (.inr rfl) spaced t

theorem flattenAfter_indentation (t : Text) :
    flattenAfter true (indentation ++ t) = flattenAfter true t := by
  simp [indentation, flattenAfter_blank]

theorem flattenAfter_indentRest {t : Text} (h : Indentable t) (spaced : Bool) (rest : Text) :
    flattenAfter spaced (indentRest t ++ '\n' :: rest) =
      flattenAfter spaced (t ++ '\n' :: rest) := by
  induction t generalizing spaced with
  | nil => rfl
  | cons c t ih =>
    obtain ⟨hhead, ht⟩ := indentable_cons.mp h
    rw [indentRest, List.cons_append]
    by_cases hline : c = '\n'
    · subst hline
      rw [if_pos rfl, flattenAfter_newline]
      split
      · rename_i hnil
        simp [hnil, flattenAfter_newline]
      · rw [List.cons_append, List.append_assoc, flattenAfter_newline, flattenAfter_indentation,
          ih ht]
    · rw [if_neg hline]
      by_cases hreturn : c = '\r' ∧ t.head? = some '\n'
      · obtain ⟨rfl, hnext⟩ := hreturn
        have hnext' : (t ++ '\n' :: rest).head? = some '\n' := by simp [List.head?_append, hnext]
        rw [if_pos ⟨rfl, hnext⟩, flattenAfter_return hnext', ih ht]
      · have hbreak : c = '\r' ∧ (indentRest t ++ '\n' :: rest).head? = some '\n' ↔
            c = '\r' ∧ (t ++ '\n' :: rest).head? = some '\n' := by
          refine and_congr_right fun hc => ?_
          rw [List.head?_append, List.head?_append,
            head?_indentRest_eq (fun hn => hreturn ⟨hc, hn⟩) (fun hr => hhead ⟨hc, hr⟩)]
        rw [if_neg hreturn, List.cons_append, flattenAfter, flattenAfter]
        simp only [hbreak, ih ht]

theorem flattenAfter_indent {t : Text} (h : Indentable t) (rest : Text) :
    flattenAfter true (indent t ++ '\n' :: rest) = flattenAfter true (t ++ '\n' :: rest) := by
  cases t with
  | nil => rfl
  | cons c t =>
    rw [indent_eq_indentRest (List.cons_ne_nil c t), List.append_assoc, flattenAfter_indentation,
      flattenAfter_indentRest h]

def indentedLines (items : List Text) : Text := items.flatMap (fun t => '\n' :: indent t)

theorem newline_joinLines {items : List Text} (h : items ≠ []) :
    '\n' :: joinLines (items.map indent) = indentedLines items := by
  induction items with
  | nil => exact absurd rfl h
  | cons t items ih =>
    cases items with
    | nil => simp [indentedLines, joinLines_singleton]
    | cons t' items =>
      have hrest := ih (List.cons_ne_nil t' items)
      rw [List.map_cons] at hrest
      rw [List.map_cons, List.map_cons, joinLines_cons_cons, hrest]
      rfl

theorem exists_indentedLines (items : List Text) (rest : Text) :
    ∃ t, indentedLines items ++ '\n' :: rest = '\n' :: t := by
  cases items with
  | nil => exact ⟨rest, rfl⟩
  | cons t items => exact ⟨_, rfl⟩

theorem singleReturns_append_indentedLines {s : Text} {items : List Text} (hs : SingleReturns s)
    (h : ∀ t ∈ items, SingleReturns t) : SingleReturns (s ++ indentedLines items) := by
  induction items generalizing s with
  | nil => simpa [indentedLines] using hs
  | cons t items ih =>
    obtain ⟨ht, hitems⟩ := List.forall_mem_cons.mp h
    have hbreak : Separates ['\n'] := by decide
    have hline := ih (hbreak.append_between hs (singleReturns_indent ht)) hitems
    simpa [indentedLines] using hline

end Text
end ChunkTree

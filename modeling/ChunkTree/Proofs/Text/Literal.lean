import ChunkTree.Proofs.Text.Alike

/-!
Texts that stand literally in a longer text on one line. What comes before a text changes nothing in
its one-line form, what comes behind it can take its last carriage return, and indentation takes
those that stand before a carriage return and a line feed.
-/

namespace ChunkTree
namespace Text

def Whole (t : Text) : Prop := Closed t ∧ Indentable t

theorem flatten_eq_or (t : Text) :
    flatten t = flattenAfter true t ∨ flatten t = ' ' :: flattenAfter true t := by
  rw [flatten]
  induction t with
  | nil => exact .inl rfl
  | cons c t ih =>
    by_cases hr : c = '\r' ∧ t.head? = some '\n'
    · rw [hr.1, flattenAfter_return hr.2, flattenAfter_return hr.2]
      exact ih
    · by_cases hc : c = ' ' ∨ c = '\n'
      · rw [flattenAfter_blank hc, flattenAfter_blank hc]
        exact .inr rfl
      · rw [flattenAfter_other hr hc, flattenAfter_other hr hc]
        exact .inl rfl

/-- The space that came before is counted in, for a text may begin with it. -/
theorem flatten_isSuffix_after (spaced : Bool) (s t : Text) :
    flatten t <:+ (if spaced then [' '] else []) ++ flattenAfter spaced (s ++ t) := by
  induction s generalizing spaced with
  | nil =>
    cases spaced with
    | false => exact List.suffix_refl _
    | true =>
      rcases flatten_eq_or t with h | h
      · rw [h]
        exact List.suffix_append _ _
      · rw [h]
        exact List.suffix_refl _
  | cons c s ih =>
    rw [List.cons_append]
    by_cases hr : c = '\r' ∧ (s ++ t).head? = some '\n'
    · rw [hr.1, flattenAfter_return hr.2]
      exact ih spaced
    · by_cases hc : c = ' ' ∨ c = '\n'
      · rw [flattenAfter_blank hc]
        cases spaced with
        | false => exact ih true
        | true => exact ih true
      · rw [flattenAfter_other hr hc]
        exact (ih false).trans ((List.suffix_cons _ _).trans (List.suffix_append _ _))

theorem flatten_isSuffix (s t : Text) : flatten t <:+ flatten (s ++ t) :=
  flatten_isSuffix_after false s t

theorem flatten_isInfix {t rest : Text} (h : ¬ (t.getLast? = some '\r' ∧ rest.head? = some '\n'))
    (s : Text) : flatten t <:+: flatten (s ++ t ++ rest) := by
  have hfirst : flatten t <+: flatten (t ++ rest) := by
    rw [flatten, flatten, flattenAfter_append h]
    exact List.prefix_append _ _
  rw [List.append_assoc]
  exact hfirst.isInfix.trans (flatten_isSuffix s (t ++ rest)).isInfix

theorem Closed.flatten_isInfix {t : Text} (ht : Closed t) (s rest : Text) :
    flatten t <:+: flatten (s ++ t ++ rest) :=
  Text.flatten_isInfix (fun h => ht h.1) s

theorem flatten_newline_indent {t : Text} (h : Indentable t) (rest : Text) :
    flatten ('\n' :: (indent t ++ '\n' :: rest)) = flatten ('\n' :: (t ++ '\n' :: rest)) := by
  rw [flatten, flattenAfter_newline, flatten, flattenAfter_newline, flattenAfter_indent h]

theorem flatten_isInfix_indentedLines {t : Text} (h : Whole t) (before after : List Text)
    (s rest : Text) :
    flatten t <:+: flatten (s ++ (indentedLines (before ++ t :: after) ++ '\n' :: rest)) := by
  obtain ⟨next, hnext⟩ := exists_indentedLines after rest
  have hlines : s ++ (indentedLines (before ++ t :: after) ++ '\n' :: rest) =
      s ++ indentedLines before ++ '\n' :: (indent t ++ '\n' :: next) := by
    rw [← hnext]
    simp [indentedLines]
  have hline : flatten t <:+: flatten ('\n' :: (indent t ++ '\n' :: next)) := by
    rw [flatten_newline_indent h.2]
    exact h.1.flatten_isInfix ['\n'] ('\n' :: next)
  rw [hlines]
  exact hline.trans (flatten_isSuffix _ _).isInfix

theorem flatten_isInfix_joinLines {t : Text} (before after : List Text)
    (h : Closed t ∨ after = []) : flatten t <:+: flatten (joinLines (before ++ t :: after)) := by
  have hrest : ∃ s rest, joinLines (before ++ t :: after) = s ++ t ++ rest ∧
      (after = [] → rest = []) := by
    induction before with
    | nil =>
      cases after with
      | nil => exact ⟨[], [], by simp [joinLines], fun _ => rfl⟩
      | cons t' after => exact ⟨[], _, joinLines_cons_cons t t' after, by simp⟩
    | cons u before ih =>
      obtain ⟨s, rest, hjoin, hnil⟩ := ih
      refine ⟨u ++ '\n' :: s, rest, ?_, hnil⟩
      cases before with
      | nil =>
        rw [List.nil_append] at hjoin
        rw [List.cons_append, List.nil_append, joinLines_cons_cons, hjoin]
        simp
      | cons u' before =>
        rw [List.cons_append] at hjoin
        rw [List.cons_append, List.cons_append, joinLines_cons_cons, hjoin]
        simp
  obtain ⟨s, rest, hjoin, hnil⟩ := hrest
  rw [hjoin]
  rcases h with hclosed | hlast
  · exact hclosed.flatten_isInfix s rest
  · rw [hnil hlast]
    exact flatten_isInfix (by simp) s

def loneReturns : Text → Nat
  | [] => 0
  | c :: t => (if c = '\r' ∧ t.head? ≠ some '\n' then 1 else 0) + loneReturns t

theorem loneReturns_other {c : Char} (h : c ≠ '\r') (t : Text) :
    loneReturns (c :: t) = loneReturns t := by
  rw [loneReturns, if_neg (fun hr => h hr.1), Nat.zero_add]

theorem loneReturns_lone {t : Text} (h : t.head? ≠ some '\n') :
    loneReturns ('\r' :: t) = 1 + loneReturns t := by
  rw [loneReturns, if_pos ⟨rfl, h⟩]

theorem loneReturns_ending {t : Text} (h : t.head? = some '\n') :
    loneReturns ('\r' :: t) = loneReturns t := by
  rw [loneReturns, if_neg (fun hr => hr.2 h), Nat.zero_add]

theorem count_flattenAfter (spaced : Bool) (t : Text) :
    (flattenAfter spaced t).count '\r' = loneReturns t := by
  induction t generalizing spaced with
  | nil => rfl
  | cons c t ih =>
    by_cases hr : c = '\r' ∧ t.head? = some '\n'
    · rw [hr.1, flattenAfter_return hr.2, loneReturns_ending hr.2, ih]
    · by_cases hc : c = ' ' ∨ c = '\n'
      · have hother : c ≠ '\r' := by
          rintro rfl
          revert hc
          decide
        rw [flattenAfter_blank hc, loneReturns_other hother]
        split
        · exact ih true
        · rw [List.count_cons_of_ne (by decide), ih]
      · rw [flattenAfter_other hr hc, loneReturns, List.count_cons, ih, Nat.add_comm]
        refine congrArg (· + _) ?_
        by_cases hreturn : c = '\r'
        · rw [if_pos (by simpa using hreturn), if_pos ⟨hreturn, fun h => hr ⟨hreturn, h⟩⟩]
        · rw [if_neg (by simpa using hreturn), if_neg (fun h => hreturn h.1)]

theorem not_flatten_isInfix {s t : Text} (h : loneReturns t < loneReturns s) :
    ¬ flatten s <:+: flatten t := by
  intro hinfix
  have hcount := hinfix.sublist.count_le '\r'
  rw [flatten, flatten, count_flattenAfter, count_flattenAfter] at hcount
  omega

theorem indentRest_lone {t : Text} (h : t.head? ≠ some '\n') :
    indentRest ('\r' :: t) = '\r' :: indentRest t := by
  rw [indentRest, if_neg (by decide), if_neg (fun hr => h hr.2)]

theorem indentRest_ending {t : Text} (h : t.head? = some '\n') :
    indentRest ('\r' :: t) = indentRest t := by
  rw [indentRest, if_neg (by decide), if_pos ⟨rfl, h⟩]

theorem loneReturns_indentRest_other {c : Char} (hc : c ≠ '\r') (t rest : Text) :
    loneReturns (indentRest (c :: t) ++ '\n' :: rest) =
      loneReturns (indentRest t ++ '\n' :: rest) := by
  rw [indentRest]
  split
  · split
    · rename_i hnil
      simp [hnil, indentRest]
    · simp [loneReturns_other, indentation]
  · rw [if_neg (fun h => hc h.1), List.cons_append, loneReturns_other hc]

theorem head?_indentRest_return {t rest : Text} (h : ['\r', '\n'] <+: t) :
    (indentRest t ++ '\n' :: rest).head? = some '\n' := by
  obtain ⟨t, rfl⟩ := h
  rw [List.cons_append, List.cons_append, indentRest_ending rfl, indentRest, if_pos rfl]
  split <;> rfl

theorem whole_cons_other {c : Char} (hc : c ≠ '\r') (t : Text) : Whole (c :: t) ↔ Whole t := by
  rw [Whole, Whole, indentable_cons]
  refine and_congr ?_ (and_iff_right fun h => hc h.1)
  cases t with
  | nil => simp [Closed, hc]
  | cons d t => rw [Closed, List.getLast?_cons_cons, Closed]

theorem whole_return {t : Text} (hne : t ≠ []) (hnext : ¬ ['\r', '\n'] <+: t) :
    Whole ('\r' :: t) ↔ Whole t := by
  rw [Whole, Whole, indentable_cons]
  refine and_congr ?_ (and_iff_right fun h => hnext h.2)
  cases t with
  | nil => exact absurd rfl hne
  | cons d t => rw [Closed, List.getLast?_cons_cons, Closed]

/-- A text gains no carriage return on indented lines, and loses one where it is not whole. -/
theorem loneReturns_indentRest (t rest : Text) :
    loneReturns (indentRest t ++ '\n' :: rest) ≤ loneReturns t + loneReturns rest ∧
    (¬ Whole t → loneReturns (indentRest t ++ '\n' :: rest) < loneReturns t + loneReturns rest) := by
  induction t with
  | nil =>
    refine ⟨?_, fun h => absurd ⟨by decide, indentable_nil⟩ h⟩
    rw [indentRest, List.nil_append, loneReturns_other (by decide)]
    exact Nat.le_add_left _ _
  | cons c t ih =>
    by_cases hc : c = '\r'
    · subst hc
      by_cases hnext : t.head? = some '\n'
      · obtain ⟨t', rfl⟩ := List.head?_eq_some_iff.mp hnext
        have hprefix : ¬ ['\r', '\n'] <+: '\n' :: t' := by simp
        rw [indentRest_ending hnext, loneReturns_ending hnext, whole_return (List.cons_ne_nil _ _) hprefix]
        exact ih
      · rw [indentRest_lone hnext, loneReturns_lone hnext, List.cons_append]
        by_cases hlost : (indentRest t ++ '\n' :: rest).head? = some '\n'
        · rw [loneReturns_ending hlost]
          omega
        · have hne : t ≠ [] := by
            rintro rfl
            exact hlost rfl
          rw [loneReturns_lone hlost, whole_return hne (fun h => hlost (head?_indentRest_return h))]
          refine ⟨by omega, fun h => ?_⟩
          have hless := ih.2 h
          omega
    · rw [loneReturns_indentRest_other hc, loneReturns_other hc, whole_cons_other hc]
      exact ih

theorem loneReturns_indentedLine {t : Text} (h : ¬ Whole t) :
    loneReturns ('\n' :: (indent t ++ ['\n', '}'])) < loneReturns t := by
  have ht : t ≠ [] := by
    rintro rfl
    exact h ⟨by decide, indentable_nil⟩
  have hless := (loneReturns_indentRest t ['}']).2 h
  have hbrace : loneReturns ['}'] = 0 := rfl
  rw [indent_eq_indentRest ht]
  simp only [indentation, List.cons_append, List.nil_append]
  iterate 5 rw [loneReturns_other (by decide)]
  omega

end Text
end ChunkTree

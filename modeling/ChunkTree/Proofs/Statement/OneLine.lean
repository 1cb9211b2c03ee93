import ChunkTree.Proofs.Statement.Embedding
import ChunkTree.Proofs.Text.Alike
import Mathlib.Logic.Function.Iterate

/-!
Statements written on one line, with no indentation to begin with. The canonical text differs from it
in line breaks and indentation alone, so the two have the same one-line form, and no budget can tell
how deep a statement is nested.
-/

namespace ChunkTree

def bracedLine (items : List Text) : Text := "\x7b ".toList ++ [' '].intercalate items ++ " \x7d".toList

mutual

def Statement.line : Statement → Text
  | .plain _ text => text
  | .block _ statements => bracedLine (lineAll statements)
  | .conditional _ condition thenBranch elseBranch =>
    conditionalOpening condition ++ thenBranch.line ++ lineAfter " else ".toList elseBranch
  | .switch _ selector entries => switchOpening selector ++ bracedLine (lineEntries entries)
  | .guarded _ resources body clauses cleanup =>
    guardOpening resources ++ body.line ++ lineClauses clauses ++ lineAfter " finally ".toList cleanup
  | .headed _ head body => head.opening ++ body.line ++ head.closing
  | .other _ _ header children => [' '].intercalate (headedParts header (lineAll children))

def lineAll : List Statement → List Text
  | [] => []
  | s :: rest => s.line :: lineAll rest

def lineAfter (word : Text) : Option Statement → Text
  | none => []
  | some s => word ++ s.line

def lineEntries : List (SwitchEntry Statement) → List Text
  | [] => []
  | ⟨labels, statements⟩ :: rest =>
    [' '].intercalate (armHeader labels :: lineAll statements) :: lineEntries rest

def lineClauses : List (CatchClause Statement) → Text
  | [] => []
  | ⟨parameter, body⟩ :: rest => catchOpening parameter ++ body.line ++ lineClauses rest

end

open Text

theorem lineAll_eq_map (statements : List Statement) :
    lineAll statements = statements.map Statement.line := by
  induction statements with
  | nil => rfl
  | cons s rest ih => rw [lineAll, ih, List.map_cons]

theorem lineEntries_eq_map (entries : List (SwitchEntry Statement)) :
    lineEntries entries = entries.map (fun e =>
      [' '].intercalate (armHeader e.labels :: e.statements.map Statement.line)) := by
  induction entries with
  | nil => rfl
  | cons e rest ih => rw [lineEntries, ih, lineAll_eq_map, List.map_cons]

theorem alike_braced {items lines : List Text} (h : List.Forall₂ AlikeLine items lines) :
    Alike (braced items) (bracedLine lines) := by
  have hopen : Alike ['\x7b'] ['\x7b'] := .refl (by decide)
  have hclose : Alike ['\x7d'] ['\x7d'] := .refl (by decide)
  rw [braced_eq]
  cases h with
  | nil => exact hopen.append (alike_newline_spaces.append hclose)
  | @cons t l items lines hline hrest =>
    have hitems := alike_indentedLines (List.Forall₂.cons hline hrest)
    have hall := hopen.append (hitems.append hclose)
    rw [← space_intercalate (List.cons_ne_nil l lines)] at hall
    simpa [bracedLine] using hall

theorem closed_closing (head : Head) : Closed head.closing := by
  cases head with
  | postTest condition =>
    have hclause : Closed ");".toList := by decide
    change Closed (" while (".toList ++ condition ++ ");".toList)
    exact hclause.append_left (by decide) _
  | _ =>
    change Closed []
    decide

theorem closed_armHeader (labels : List Text) : Closed (armHeader labels) := by
  cases labels with
  | nil => decide
  | cons t labels =>
    have hcolon : Closed [':'] := by decide
    change Closed ("case ".toList ++ ", ".toList.intercalate (t :: labels) ++ [':'])
    exact hcolon.append_left (by decide) _

theorem alikeLine_arm {header : Text} {items lines : List Text} (hheader : Closed header)
    (hsingle : SingleReturns (header ++ indentedLines items))
    (h : List.Forall₂ AlikeLine items lines) :
    AlikeLine (header ++ indentedLines items) ([' '].intercalate (header :: lines)) := by
  have hline : [' '].intercalate (header :: lines) = header ++ spacedItems lines := by
    cases lines with
    | nil => simp [spacedItems]
    | cons l lines =>
      rw [List.intercalate_cons_cons, ← space_intercalate (List.cons_ne_nil l lines)]
      simp
  rw [hline]
  refine ⟨hsingle, ?_, hheader.append (closed_spacedItems (closed_of_forall₂ h))⟩
  intro spaced rest
  rw [List.append_assoc, List.append_assoc, hheader.flattenAfter_append, flattenAfter_indentedLines h,
    ← hheader.flattenAfter_append]

theorem alikeLine_entry {e : SwitchEntry Statement} (hlabels : ∀ t ∈ e.labels, SingleReturns t)
    (h : ∀ c ∈ e.statements, SingleReturns c.render ∧ Alike c.render c.line) :
    AlikeLine (armHeader e.labels ++ renderArm e.statements)
      ([' '].intercalate (armHeader e.labels :: e.statements.map Statement.line)) := by
  have hsingle := singleReturns_arm hlabels fun c hc => (h c hc).1
  rw [renderArm_eq] at hsingle ⊢
  apply alikeLine_arm (closed_armHeader e.labels) hsingle
  apply forall₂_map_map
  intro c hc
  exact (h c hc).2.line (h c hc).1

theorem alike_after {word : Text} (hword : Closed word) {s : Option Statement}
    (h : ∀ c ∈ s, Alike c.render c.line) : Alike (renderAfter word s) (lineAfter word s) := by
  cases s with
  | none =>
    rw [renderAfter, lineAfter]
    exact .refl (by decide)
  | some s =>
    rw [renderAfter, lineAfter]
    exact (Alike.refl hword).append (h s rfl)

theorem alike_clauses {clauses : List (CatchClause Statement)}
    (h : ∀ c ∈ clauses, SingleReturns c.parameter ∧ Alike c.body.render c.body.line) :
    Alike (renderClauses clauses) (lineClauses clauses) := by
  induction clauses with
  | nil => exact .refl (by decide)
  | cons c clauses ih =>
    obtain ⟨parameter, body⟩ := c
    obtain ⟨⟨hparameter, hbody⟩, hclauses⟩ := List.forall_mem_cons.mp h
    have hopening := Alike.refl (separates_catchOpening hparameter).last
    rw [renderClauses, lineClauses]
    exact (hopening.append hbody).append (ih hclauses)

namespace Statement

theorem alike_line_of_nested {s : Statement} (hown : ∀ t ∈ s.ownTexts, '\r' ∉ t)
    (hnested : ∀ c ∈ s.nested, SingleReturns c.render ∧ Alike c.render c.line) :
    Alike s.render s.line := by
  have hsingle : ∀ t ∈ s.ownTexts, SingleReturns t :=
    fun t ht => singleReturns_of_not_mem (hown t ht)
  cases s with
  | plain span text => exact .refl (closed_of_not_mem (hown text List.mem_cons_self))
  | block span statements =>
    rw [render, line, renderAll_eq_map, lineAll_eq_map]
    apply alike_braced
    apply forall₂_map_map
    intro c hc
    exact (hnested c hc).2.line (hnested c hc).1
  | conditional span condition thenBranch elseBranch =>
    have hopening := Alike.refl
      (separates_conditionalOpening (hsingle condition List.mem_cons_self)).last
    have hthen := (hnested thenBranch List.mem_cons_self).2
    rw [render, line]
    apply (hopening.append hthen).append
    apply alike_after (by decide)
    intro c hc
    exact (hnested c (List.mem_cons_of_mem _ (Option.mem_toList.mpr hc))).2
  | switch span selector entries =>
    have hopening := Alike.refl
      (separates_switchOpening (hsingle selector List.mem_cons_self)).last
    rw [render, line, renderEntries_eq_map, lineEntries_eq_map]
    apply hopening.append
    apply alike_braced
    apply forall₂_map_map
    intro e he
    apply alikeLine_entry
    · intro t ht
      exact hsingle t (List.mem_cons_of_mem _ (List.mem_flatMap.mpr ⟨e, he, ht⟩))
    · intro c hc
      exact hnested c (List.mem_flatMap.mpr ⟨e, he, hc⟩)
  | guarded span resources body clauses cleanup =>
    have hopening := Alike.refl
      (separates_guardOpening fun t ht => hsingle t (List.mem_append_left _ ht)).last
    have hbody := (hnested body List.mem_cons_self).2
    rw [render, line]
    apply Alike.append
    · apply (hopening.append hbody).append
      apply alike_clauses
      intro c hc
      refine ⟨hsingle c.parameter (List.mem_append_right _ (List.mem_map.mpr ⟨c, hc, rfl⟩)), ?_⟩
      exact (hnested c.body (List.mem_cons_of_mem _
        (List.mem_append_left _ (List.mem_map.mpr ⟨c, hc, rfl⟩)))).2
    · apply alike_after (by decide)
      intro c hc
      exact (hnested c (List.mem_cons_of_mem _
        (List.mem_append_right _ (Option.mem_toList.mpr hc)))).2
  | headed span head body =>
    have hbody := (hnested body List.mem_cons_self).2
    have hopening := Alike.refl (separates_opening hsingle).last
    rw [render, line]
    exact (hopening.append hbody).append (.refl (closed_closing head))
  | other span label header children =>
    have hparts : List.Forall₂ Alike (children.map render) (children.map line) :=
      forall₂_map_map fun c hc => (hnested c hc).2
    rw [render, line, renderAll_eq_map, lineAll_eq_map]
    apply alike_joinLines
    rw [headedParts, headedParts]
    split
    · exact hparts
    · have hheader := hown header (List.mem_cons_of_mem _ List.mem_cons_self)
      exact .cons (.refl (closed_of_not_mem hheader)) hparts

theorem alike_line {s : Statement} (h : ∀ t ∈ s.texts, '\r' ∉ t) : Alike s.render s.line := by
  induction s using nestedInduction with
  | step s ih =>
    apply alike_line_of_nested
    · intro t ht
      exact h t (texts_of_own ht)
    · intro c hc
      have hinner : ∀ t ∈ c.texts, '\r' ∉ t := fun t ht => h t (texts_of_nested hc ht)
      refine ⟨singleReturns_render fun t ht => singleReturns_of_not_mem (hinner t ht), ih c hc hinner⟩

end Statement

namespace Splitter

theorem spanText_concat_newline (t : Text) : spanText (t ++ ['\n']) = spanText t := by
  obtain ⟨t', spaced, happend, hspan⟩ := exists_flattenAfter_append false t ['\n']
  have hbreak : flattenAfter spaced ['\n'] = [] ∨ flattenAfter spaced ['\n'] = [' '] := by
    cases spaced <;> simp [flattenAfter]
  rw [spanText, flatten, happend, ← hspan]
  rcases hbreak with hnil | hspace
  · rw [hnil, List.append_nil]
    rfl
  · rw [hspace]
    exact trim_concat_blank (by decide) _

theorem spanText_indent {t : Text} (h : SingleReturns t) : spanText (indent t) = spanText t := by
  rw [← spanText_concat_newline, ← spanText_concat_newline t, ← trim_flattenAfter true,
    ← trim_flattenAfter true, flattenAfter_indent h.indentable]

theorem spanText_iterate_indent {t : Text} (h : SingleReturns t) (levels : Nat) :
    spanText (indent^[levels] t) = spanText t := by
  induction levels generalizing t with
  | zero => rfl
  | succ levels ih => rw [Function.iterate_succ_apply, ih (singleReturns_indent h), spanText_indent h]

theorem indentation_unseen {s : Statement} (h : ∀ t ∈ s.texts, '\r' ∉ t) :
    flatten s.render = flatten s.line ∧
    ∀ (measure : Metric) (levels : Nat),
      measure (spanText (indent^[levels] s.render)) = measure (spanText s.line) := by
  have hflat := (Statement.alike_line h).flatten_eq
  have hsingle : SingleReturns s.render :=
    Statement.singleReturns_render fun t ht => singleReturns_of_not_mem (h t ht)
  refine ⟨hflat, ?_⟩
  intro measure levels
  rw [spanText_iterate_indent hsingle, spanText, hflat, spanText]

def raggedBody : Statement :=
  .block none
    [.plain none "go();\n\n\tstop(); \n".toList,
      .headed none (.postTest "a\n  || b".toList)
        (.block none [.plain none [], .other none "label".toList [] [.plain none " x;".toList]]),
      .switch none "mode ".toList
        [⟨["A".toList, "B\n".toList], [.plain none "run();\n".toList, .block none []]⟩, ⟨[], []⟩]]

set_option maxRecDepth 4096 in
theorem indentation_unseen_raggedBody :
    (∀ t ∈ raggedBody.texts, '\r' ∉ t) ∧
    flatten raggedBody.render =
      ("\x7b go(); \tstop(); do \x7b x; \x7d while (a || b); switch (mode ) " ++
        "\x7b case A, B : run(); \x7b \x7d default: \x7d \x7d").toList ∧
    flatten raggedBody.render = flatten raggedBody.line ∧
    Metric.chars (spanText (indent^[3] raggedBody.render)) =
      Metric.chars (spanText raggedBody.line) := by
  have htexts : ∀ t ∈ raggedBody.texts, '\r' ∉ t := by decide +kernel
  obtain ⟨hflat, hmeasure⟩ := indentation_unseen htexts
  exact ⟨htexts, by decide +kernel, hflat, hmeasure Metric.chars 3⟩

end Splitter
end ChunkTree

import ChunkTree.Proofs.Statement.Nested
import ChunkTree.Proofs.Text.Indent

/-!
A rendering brings no carriage returns together. What it puts around the texts of a statement neither
begins nor ends with one.
-/

namespace ChunkTree

open Text

theorem braced_eq (items : List Text) :
    braced items = '{' :: (indentedLines items ++ ['\n', '}']) := by
  cases items with
  | nil => rfl
  | cons t items =>
    rw [braced, ← newline_joinLines (List.cons_ne_nil t items)]
    · simp
    · simp

theorem renderArm_eq (statements : List Statement) :
    renderArm statements = indentedLines (statements.map Statement.render) := by
  induction statements with
  | nil => rfl
  | cons s rest ih => simp [renderArm, indentedLines, ih]

theorem renderEntries_eq_map (entries : List (SwitchEntry Statement)) :
    renderEntries entries = entries.map (fun e => armHeader e.labels ++ renderArm e.statements) := by
  induction entries with
  | nil => rfl
  | cons e rest ih => simp [renderEntries, ih]

theorem singleReturns_braced {items : List Text} (h : ∀ t ∈ items, SingleReturns t) :
    SingleReturns (braced items) := by
  have hopen : SingleReturns ['{'] := by decide
  have hclose : Separates ['\n', '}'] := by decide
  rw [braced_eq]
  exact hclose.append_right (singleReturns_append_indentedLines hopen h)

theorem singleReturns_armHeader {labels : List Text} (h : ∀ t ∈ labels, SingleReturns t) :
    SingleReturns (armHeader labels) := by
  cases labels with
  | nil => decide
  | cons t labels =>
    have hword : Separates "case ".toList := by decide
    have hcomma : Separates ", ".toList := by decide
    have hcolon : Separates [':'] := by decide
    exact (hword.enclose (singleReturns_intercalate hcomma h) hcolon).single

theorem separates_clause {word t : Text} (hword : Separates word) (ht : SingleReturns t) :
    Separates (word ++ t ++ ") ".toList) := by
  have hclose : Separates ") ".toList := by decide
  exact hword.enclose ht hclose

theorem separates_conditionalOpening {condition : Text} (h : SingleReturns condition) :
    Separates (conditionalOpening condition) := by
  have hif : Separates "if (".toList := by decide
  exact separates_clause hif h

theorem separates_switchOpening {selector : Text} (h : SingleReturns selector) :
    Separates (switchOpening selector) := by
  have hswitch : Separates "switch (".toList := by decide
  exact separates_clause hswitch h

theorem separates_catchOpening {parameter : Text} (h : SingleReturns parameter) :
    Separates (catchOpening parameter) := by
  have hcatch : Separates " catch (".toList := by decide
  exact separates_clause hcatch h

theorem separates_guardOpening {resources : List Text} (h : ∀ t ∈ resources, SingleReturns t) :
    Separates (guardOpening resources) := by
  cases resources with
  | nil => decide
  | cons t resources =>
    have htry : Separates "try (".toList := by decide
    have hsemicolon : Separates "; ".toList := by decide
    exact separates_clause htry (singleReturns_intercalate hsemicolon h)

theorem separates_opening {head : Head} (h : ∀ t ∈ head.texts, SingleReturns t) :
    Separates head.opening := by
  have hfor : Separates "for (".toList := by decide
  cases head with
  | counted init condition update =>
    obtain ⟨hinit, h⟩ := List.forall_mem_cons.mp h
    obtain ⟨hcondition, h⟩ := List.forall_mem_cons.mp h
    obtain ⟨hupdate, -⟩ := List.forall_mem_cons.mp h
    have hsemicolon : Separates "; ".toList := by decide
    have hfirst := hfor.enclose hinit hsemicolon
    have hsecond := hfirst.enclose hcondition hsemicolon
    exact separates_clause hsecond hupdate
  | preTest condition =>
    have hwhile : Separates "while (".toList := by decide
    exact separates_clause hwhile (h condition List.mem_cons_self)
  | postTest condition =>
    change Separates "do ".toList
    decide
  | collection element iterable =>
    obtain ⟨helement, h⟩ := List.forall_mem_cons.mp h
    have hcolon : Separates " : ".toList := by decide
    have hfirst := hfor.enclose helement hcolon
    exact separates_clause hfirst (h iterable List.mem_cons_self)
  | lock subject =>
    have hlock : Separates "synchronized (".toList := by decide
    exact separates_clause hlock (h subject List.mem_cons_self)

theorem singleReturns_append_closing {t : Text} {head : Head} (ht : SingleReturns t)
    (h : ∀ t ∈ head.texts, SingleReturns t) : SingleReturns (t ++ head.closing) := by
  cases head with
  | postTest condition =>
    have hwhile : Separates " while (".toList := by decide
    have hclose : Separates ");".toList := by decide
    change SingleReturns (t ++ (" while (".toList ++ condition ++ ");".toList))
    exact (hwhile.enclose (h condition List.mem_cons_self) hclose).append_right ht
  | _ =>
    change SingleReturns (t ++ [])
    rwa [List.append_nil]

theorem singleReturns_append_renderAfter {t word : Text} {s : Option Statement}
    (ht : SingleReturns t) (hword : Separates word) (h : ∀ r ∈ s, SingleReturns r.render) :
    SingleReturns (t ++ renderAfter word s) := by
  cases s with
  | none => simpa [renderAfter] using ht
  | some s => exact hword.append_between ht (h s rfl)

theorem singleReturns_append_renderClauses {t : Text} {clauses : List (CatchClause Statement)}
    (ht : SingleReturns t)
    (h : ∀ c ∈ clauses, SingleReturns c.parameter ∧ SingleReturns c.body.render) :
    SingleReturns (t ++ renderClauses clauses) := by
  induction clauses generalizing t with
  | nil => simpa [renderClauses] using ht
  | cons c clauses ih =>
    obtain ⟨⟨hparameter, hbody⟩, hclauses⟩ := List.forall_mem_cons.mp h
    have hcatch := separates_catchOpening hparameter
    have hrest := ih (hcatch.append_between ht hbody) hclauses
    simpa [renderClauses] using hrest

theorem singleReturns_arm {e : SwitchEntry Statement} (hlabels : ∀ t ∈ e.labels, SingleReturns t)
    (hstatements : ∀ s ∈ e.statements, SingleReturns s.render) :
    SingleReturns (armHeader e.labels ++ renderArm e.statements) := by
  rw [renderArm_eq]
  refine singleReturns_append_indentedLines (singleReturns_armHeader hlabels) fun t ht => ?_
  obtain ⟨s, hs, rfl⟩ := List.mem_map.mp ht
  exact hstatements s hs

namespace Statement

theorem singleReturns_render_of_nested {s : Statement} (hown : ∀ t ∈ s.ownTexts, SingleReturns t)
    (hnested : ∀ c ∈ s.nested, SingleReturns c.render) : SingleReturns s.render := by
  cases s with
  | plain span text => exact hown text List.mem_cons_self
  | block span statements =>
    rw [render, renderAll_eq_map]
    refine singleReturns_braced fun t ht => ?_
    obtain ⟨c, hc, rfl⟩ := List.mem_map.mp ht
    exact hnested c hc
  | conditional span condition thenBranch elseBranch =>
    have hopening := separates_conditionalOpening (hown condition List.mem_cons_self)
    have hword : Separates " else ".toList := by decide
    rw [render]
    refine singleReturns_append_renderAfter
      (hopening.append_left (hnested thenBranch List.mem_cons_self)) hword fun c hc => ?_
    exact hnested c (List.mem_cons_of_mem _ (Option.mem_toList.mpr hc))
  | switch span selector entries =>
    have hopening := separates_switchOpening (hown selector List.mem_cons_self)
    rw [render, renderEntries_eq_map]
    refine hopening.append_left (singleReturns_braced fun t ht => ?_)
    obtain ⟨e, he, rfl⟩ := List.mem_map.mp ht
    refine singleReturns_arm (fun t ht => ?_) (fun c hc => ?_)
    · exact hown t (List.mem_cons_of_mem _ (List.mem_flatMap.mpr ⟨e, he, ht⟩))
    · exact hnested c (List.mem_flatMap.mpr ⟨e, he, hc⟩)
  | guarded span resources body clauses cleanup =>
    have hopening := separates_guardOpening fun t ht => hown t (List.mem_append_left _ ht)
    have hword : Separates " finally ".toList := by decide
    rw [render]
    refine singleReturns_append_renderAfter (singleReturns_append_renderClauses
      (hopening.append_left (hnested body List.mem_cons_self)) fun c hc => ⟨?_, ?_⟩) hword
      fun c hc => ?_
    · exact hown c.parameter (List.mem_append_right _ (List.mem_map.mpr ⟨c, hc, rfl⟩))
    · exact hnested c.body (List.mem_cons_of_mem _
        (List.mem_append_left _ (List.mem_map.mpr ⟨c, hc, rfl⟩)))
    · exact hnested c (List.mem_cons_of_mem _
        (List.mem_append_right _ (Option.mem_toList.mpr hc)))
  | headed span head body =>
    have hopening := separates_opening hown
    rw [render]
    exact singleReturns_append_closing
      (hopening.append_left (hnested body List.mem_cons_self)) hown
  | other span label header children =>
    have hbreak : Separates ['\n'] := by decide
    rw [render, renderAll_eq_map]
    refine singleReturns_intercalate hbreak fun t ht => ?_
    rw [headedParts] at ht
    split at ht
    · obtain ⟨c, hc, rfl⟩ := List.mem_map.mp ht
      exact hnested c hc
    · rcases List.mem_cons.mp ht with rfl | ht
      · exact hown t (List.mem_cons_of_mem _ List.mem_cons_self)
      · obtain ⟨c, hc, rfl⟩ := List.mem_map.mp ht
        exact hnested c hc

theorem singleReturns_render {s : Statement} (h : ∀ t ∈ s.texts, SingleReturns t) :
    SingleReturns s.render := by
  induction s using nestedInduction with
  | step s ih =>
    refine singleReturns_render_of_nested (fun t ht => h t (texts_of_own ht)) fun c hc => ?_
    exact ih c hc fun t ht => h t (texts_of_nested hc ht)

end Statement
end ChunkTree

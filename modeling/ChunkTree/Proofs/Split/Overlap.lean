import ChunkTree.Proofs.Split.Legible
import ChunkTree.Proofs.Statement.OneLine

/-!
A marker that overlaps itself is accepted, and there is a statement whose text is free of it and is
not given back: where the text before the marker is a beginning of it, the marker is read too early.
-/

namespace ChunkTree

namespace Text

variable {p w : Text}

structure Solid (w : Text) : Prop where
  ne_nil : w ≠ []
  solid : ∀ c ∈ w, isBlank c = false

theorem Solid.return_not_mem (h : Solid w) : '\r' ∉ w := by
  intro hr
  exact absurd (h.solid '\r' hr) (by decide)

theorem flattenAfter_nonblank {c : Char} (hc : isBlank c = false) (spaced : Bool) (t : Text) :
    flattenAfter spaced (c :: t) = c :: flattenAfter false t := by
  apply flattenAfter_other
  · rintro ⟨rfl, -⟩
    exact absurd hc (by decide)
  · rintro (rfl | rfl)
    · exact absurd hc (by decide)
    · exact absurd hc (by decide)

theorem Solid.flattenAfter (h : Solid w) (spaced : Bool) (t : Text) :
    flattenAfter spaced (w ++ t) = w ++ flattenAfter false t := by
  obtain ⟨c, w, rfl⟩ := List.exists_cons_of_ne_nil h.ne_nil
  obtain ⟨hc, hw⟩ := List.forall_mem_cons.mp h.solid
  have hbehind : Text.flattenAfter false (w ++ t) = w ++ Text.flattenAfter false t := by
    clear h
    induction w with
    | nil => rfl
    | cons d w ih =>
      obtain ⟨hd, hw⟩ := List.forall_mem_cons.mp hw
      rw [List.cons_append, flattenAfter_nonblank hd, ih hw]
      rfl
  rw [List.cons_append, flattenAfter_nonblank hc, hbehind]
  rfl

theorem flattenAfter_words {words : List Text} (h : ∀ w ∈ words, Solid w) (spaced : Bool) :
    flattenAfter spaced ([' '].intercalate words) = [' '].intercalate words := by
  induction words generalizing spaced with
  | nil => rfl
  | cons w words ih =>
    obtain ⟨hw, hwords⟩ := List.forall_mem_cons.mp h
    cases words with
    | nil => simpa [Text.flattenAfter] using hw.flattenAfter spaced []
    | cons next words =>
      rw [List.intercalate_cons_cons, List.append_assoc, hw.flattenAfter, List.singleton_append,
        flattenAfter_blank (.inl rfl), ih hwords true]
      rfl

theorem free_words (hp : ∀ c ∈ p, isBlank c = false) {words : List Text} (hne : p ≠ [])
    (h : ∀ w ∈ words, ¬ p <:+: w) : ¬ p <:+: [' '].intercalate words := by
  induction words with
  | nil => simpa using hne
  | cons w words ih =>
    obtain ⟨hw, hwords⟩ := List.forall_mem_cons.mp h
    cases words with
    | nil => simpa using hw
    | cons next words =>
      rw [List.intercalate_cons_cons, List.append_assoc]
      exact free_blank hp (by decide) hw (ih hwords)

theorem trim_tight {t : Text} (h : Tight t) : trim t = t := by
  have hstart : trimStart t = t := by
    cases t with
    | nil => rfl
    | cons c t =>
      have hc := h.head c rfl
      simp [trimStart, hc]
  rw [trim, hstart, trimEnd_eq_rdropWhile, List.rdropWhile_eq_self_iff]
  intro hne
  rw [h.last _ (List.getLast?_eq_some_getLast hne)]
  exact Bool.false_ne_true

theorem unbordered_cons {c : Char} {t : Text} (h : c ∉ t) : Unbordered (c :: t) := by
  intro b hstart hsuffix
  cases b with
  | nil => exact .inl rfl
  | cons d b =>
    obtain ⟨rfl, -⟩ := List.cons_prefix_cons.mp hstart
    rcases List.suffix_cons_iff.mp hsuffix with hsame | hsuffix
    · exact .inr hsame
    · exact absurd (hsuffix.subset List.mem_cons_self) h

theorem exists_overlap (h : ¬ Unbordered p) :
    ∃ w v, w ≠ [] ∧ w <+: p ∧ w.length < p.length ∧ w ++ p = p ++ v := by
  simp only [Unbordered, not_forall, not_or] at h
  obtain ⟨b, ⟨v, hv⟩, ⟨w, hw⟩, hb, hbp⟩ := h
  refine ⟨w, v, ?_, ⟨b, hw⟩, ?_, ?_⟩
  · rintro rfl
    exact hbp (by simpa using hw)
  · have hpos := List.length_pos_iff.mpr hb
    rw [← hw, List.length_append]
    omega
  · calc w ++ p = w ++ (b ++ v) := by rw [hv]
      _ = p ++ v := by rw [← List.append_assoc, hw]

end Text

namespace Splitter

open Text

variable {p w v : Text} {x : Char}

def longText (n : Nat) (x : Char) : Text := x :: ' ' :: List.replicate n 'z'

/-- The long text stands twice in the rendering, first across the first two statements. -/
def borderedBody (w : Text) (x : Char) : Statement :=
  .block none
    [.plain none (w ++ [x]), .plain none (List.replicate w.length 'z'),
      .plain none (longText w.length x)]

def borderedConfig (p w : Text) : Config :=
  ⟨4 * p.length + 9, w.length + 1, .chars, .hard, p, 1⟩

def borderedSplitter (p w : Text) : Splitter :=
  ofConfig ((borderedConfig p w).oracle Metric.chars) (borderedConfig p w) none

def borderedText (w : Text) (x : Char) : Text :=
  "\x7b ".toList ++ (w ++ (longText w.length x ++ (' ' :: longText w.length x ++ " \x7d".toList)))

def borderedWords (w : Text) (x : Char) : List Text :=
  [['\x7b'], w ++ [x], List.replicate w.length 'z', [x], List.replicate w.length 'z', ['\x7d']]

theorem length_longText (n : Nat) (x : Char) : (longText n x).length = n + 2 := by
  rw [longText, List.length_cons, List.length_cons, List.length_replicate]

theorem intercalate_borderedWords (w : Text) (x : Char) :
    [' '].intercalate (borderedWords w x) = borderedText w x := by
  simp [borderedWords, borderedText, longText, List.intercalate]

theorem solid_replicate {n : Nat} (hn : n ≠ 0) : Solid (List.replicate n 'z') := by
  refine ⟨by simpa using hn, fun c hc => ?_⟩
  rw [List.eq_of_mem_replicate hc]
  decide

theorem solid_singleton {c : Char} (hc : isBlank c = false) : Solid [c] := by
  refine ⟨List.cons_ne_nil c [], fun d hd => ?_⟩
  rwa [List.mem_singleton.mp hd]

theorem solid_borderedWords (hw : Solid w) (hx : isBlank x = false) :
    ∀ word ∈ borderedWords w x, Solid word := by
  have hz : Solid (List.replicate w.length 'z') :=
    solid_replicate (by simpa using hw.ne_nil)
  have hwx : Solid (w ++ [x]) := by
    refine ⟨by simp, fun c hc => ?_⟩
    rcases List.mem_append.mp hc with hc | hc
    · exact hw.solid c hc
    · rwa [List.mem_singleton.mp hc]
  have hopen : Solid ['\x7b'] := solid_singleton (by decide)
  have hclose : Solid ['\x7d'] := solid_singleton (by decide)
  simp only [borderedWords, List.forall_mem_cons]
  exact ⟨hopen, hwx, hz, solid_singleton hx, hz, hclose, List.forall_mem_nil _⟩

theorem flatten_borderedBody (hw : Solid w) (hx : isBlank x = false) :
    flatten (borderedBody w x).render = borderedText w x := by
  have hreturn : '\r' ∉ w := hw.return_not_mem
  have hxReturn : '\r' ≠ x := by
    rintro rfl
    exact absurd hx (by decide)
  have htexts : ∀ t ∈ (borderedBody w x).texts, '\r' ∉ t := by
    simp [borderedBody, longText, Statement.texts, Statement.subtree, Statement.subtreeAll,
      Statement.ownTexts, hreturn, hxReturn]
  have hline : (borderedBody w x).line = [' '].intercalate (borderedWords w x) := by
    simp [borderedBody, Statement.line, lineAll, bracedLine, borderedWords, longText,
      List.intercalate]
  rw [(Statement.alike_line htexts).flatten_eq, hline, flatten,
    flattenAfter_words (solid_borderedWords hw hx), intercalate_borderedWords]

theorem length_borderedText (w : Text) (x : Char) :
    (borderedText w x).length = 2 + (w.length + ((w.length + 2) + (1 + (w.length + 2) + 2))) := by
  simp only [borderedText, List.length_append, List.length_cons, length_longText]
  change 2 + (w.length + ((w.length + 2) + (w.length + 2 + 1 + 2))) = _
  omega

theorem free_borderedText (hp : ∀ c ∈ p, isBlank c = false) (hshort : w.length < p.length)
    (hne : w ≠ []) (hx : p.getLast? ≠ some x) : ¬ p <:+: borderedText w x := by
  have hpos := List.length_pos_iff.mpr hne
  have hp0 : p ≠ [] := List.ne_nil_of_length_pos (by omega)
  have hlonger : ∀ t : Text, t.length < p.length → ¬ p <:+: t := by
    intro t ht h
    have hle := h.length_le
    omega
  have hwx : ¬ p <:+: w ++ [x] := by
    intro h
    have hsame : p = w ++ [x] := by
      apply h.eq_of_length
      have hle := h.length_le
      simp only [List.length_append, List.length_singleton] at hle ⊢
      omega
    exact hx (by rw [hsame, List.getLast?_concat])
  rw [← intercalate_borderedWords]
  apply free_words hp hp0
  simp only [borderedWords, List.forall_mem_cons]
  have hz : ¬ p <:+: List.replicate w.length 'z' := hlonger _ (by simpa using hshort)
  have hone : ∀ c : Char, ¬ p <:+: [c] := fun c => hlonger [c] (by simp; omega)
  exact ⟨hone _, hwx, hz, hone _, hz, hone _, List.forall_mem_nil _⟩

theorem spanText_eq_self {t : Text} (hflat : flatten t = t) (htight : Tight t) : spanText t = t := by
  rw [spanText, hflat, trim_tight htight]

theorem spanText_solid (h : Solid w) : spanText w = w := by
  apply spanText_eq_self
  · have hword : ∀ t ∈ [w], Solid t := by simpa using h
    rw [flatten]
    simpa using flattenAfter_words hword false
  · constructor
    · intro c hc
      exact h.solid c (List.mem_of_mem_head? hc)
    · intro c hc
      exact h.solid c (List.mem_of_getLast? hc)

theorem spanText_longText {n : Nat} (hn : n ≠ 0) (hx : isBlank x = false) :
    spanText (longText n x) = longText n x := by
  have hz : Solid (List.replicate n 'z') := solid_replicate hn
  apply spanText_eq_self
  · have hwords : ∀ t ∈ [[x], List.replicate n 'z'], Solid t := by
      simp only [List.forall_mem_cons]
      exact ⟨solid_singleton hx, hz, List.forall_mem_nil _⟩
    have hline : [' '].intercalate [[x], List.replicate n 'z'] = longText n x := by
      simp [longText, List.intercalate]
    rw [← hline]
    exact flattenAfter_words hwords false
  · constructor
    · intro c hc
      obtain rfl : x = c := by simpa [longText] using hc
      exact hx
    · intro c hc
      have hlast : (longText n x).getLast? = (List.replicate n 'z').getLast? :=
        List.getLast?_append_of_ne_nil [x, ' '] hz.ne_nil
      rw [hlast] at hc
      exact hz.solid c (List.mem_of_getLast? hc)

theorem cutAt?_borderedText (hx : x = 'x' ∨ x = 'y') :
    cutAt? (longText w.length x) (borderedText w x) =
      some ("\x7b ".toList ++ w, ' ' :: longText w.length x ++ " \x7d".toList) := by
  have hunbordered : Unbordered (longText w.length x) := by
    apply unbordered_cons
    rcases hx with rfl | rfl <;> simp
  have hfree : ¬ longText w.length x <:+: "\x7b ".toList ++ w := by
    intro h
    have hsame := h.eq_of_length (by simp [longText])
    have hhead : x = '\x7b' := (List.cons.inj hsame).1
    rcases hx with rfl | rfl <;> exact absurd hhead (by decide)
  have hne : longText w.length x ≠ [] := List.cons_ne_nil _ _
  rw [cutAt?, if_neg (by simpa using hne), borderedText, ← List.append_assoc]
  exact firstCut_of_leadsTo hne (leadsTo_of_unbordered hunbordered hfree) _

def borderedSteps (w : Text) (x : Char) : List (Step Dissection) :=
  let long := longText w.length x
  [.note (.opened (borderedBody w x) 0), .note (.unhandled (.plain none long)),
    .cut ("\x7b ".toList ++ w) long ⟨.plain none long, [], long⟩]

theorem dissect_borderedBody (p : Text) (hw : Solid w) (hx : x = 'x' ∨ x = 'y') :
    (borderedSplitter p w).dissect (borderedBody w x) (borderedText w x) 0 =
      ⟨borderedBody w x, borderedSteps w x, ' ' :: longText w.length x ++ " \x7d".toList⟩ := by
  have hblank : isBlank x = false := by rcases hx with rfl | rfl <;> decide
  have hn : w.length ≠ 0 := by simpa using hw.ne_nil
  have hfits : ∀ t : Text, (borderedSplitter p w).oracle.fitsChunk t =
      decide (t.length ≤ w.length + 1) := fun _ => rfl
  have hlong : (borderedSplitter p w).oracle.fitsChunk (longText w.length x) = false := by
    rw [hfits, decide_eq_false_iff_not, length_longText]
    omega
  have hover : (borderedSplitter p w).oracle.fitsChunk (borderedText w x) = false := by
    rw [hfits, decide_eq_false_iff_not, length_borderedText]
    omega
  have hdepth : ¬ (borderedSplitter p w).maxDepth ≤ 0 := Nat.not_succ_le_zero 0
  have hfirst : (borderedSplitter p w).oracle.fitsChunk
      (spanText (Statement.plain none (w ++ [x])).render) = true := by
    have hwx : Solid (w ++ [x]) :=
      solid_borderedWords hw hblank _ (List.mem_cons_of_mem _ List.mem_cons_self)
    rw [Statement.render, spanText_solid hwx]
    simp [hfits]
  have hsecond : (borderedSplitter p w).oracle.fitsChunk
      (spanText (Statement.plain none (List.replicate w.length 'z')).render) = true := by
    rw [Statement.render, spanText_solid (solid_replicate hn)]
    simp [hfits]
  have hspan : spanText (Statement.plain none (longText w.length x)).render =
      longText w.length x := by
    rw [Statement.render, spanText_longText hn hblank]
  have hthird : (borderedSplitter p w).oracle.fitsChunk
      (spanText (Statement.plain none (longText w.length x)).render) = false := by
    rw [hspan, hlong]
  have hpart : (borderedSplitter p w).dissect (.plain none (longText w.length x))
      (longText w.length x) 1 = ⟨.plain none (longText w.length x), [], longText w.length x⟩ := by
    rw [dissect, dissectWith, hlong]
    rfl
  rw [dissect, dissectWith, hover, if_neg Bool.false_ne_true, if_neg hdepth,
    cutChildren_eq_foldl]
  simp only [borderedBody, Statement.children, List.foldl_cons, List.foldl_nil]
  rw [cutChild_fits hfirst, cutChild_fits hsecond, cutChild_plain 0 _ hthird, hspan,
    cutPart_some (cutAt?_borderedText hx), hpart]
  rfl

theorem enforce_fits {S : Splitter} {content : Text} (h : S.oracle.fitsUnit content = true)
    (s : Statement) (markers : List Nat) (children : List Chunk) (j : Journal) :
    S.enforce s content markers children j = .ok (⟨content, children⟩, j) := by
  rw [enforce, if_pos h]

theorem settle_borderedSteps {S : Splitter} {rest : Text}
    (hroot : S.oracle.fitsUnit (Frame.content S.placeholder ⟨borderedSteps w x, rest⟩) = true)
    (hlong : S.oracle.fitsUnit (longText w.length x) = true) (s : Statement) (j : Journal) :
    ∃ l, S.settle ⟨s, borderedSteps w x, rest⟩ j =
        .ok (⟨Frame.content S.placeholder ⟨borderedSteps w x, rest⟩,
          [Chunk.leaf (longText w.length x)]⟩, l) ∧
      l.stats.truncated = j.stats.truncated := by
  have hleaf : Frame.content S.placeholder ⟨([] : List (Step Dissection)), longText w.length x⟩ =
      longText w.length x := rfl
  rw [borderedSteps] at hroot ⊢
  simp only [settle, settleSteps, hleaf, enforce_fits hlong, enforce_fits hroot]
  refine ⟨_, rfl, ?_⟩
  rw [truncated_countChunk, truncated_countChunk, truncated_noteInto, truncated_noteInto]

theorem content_borderedSteps (p w rest : Text) (x : Char) :
    Frame.content p ⟨borderedSteps w x, rest⟩ = "\x7b ".toList ++ (w ++ (p ++ rest)) := by
  simp [borderedSteps, Frame.content, Step.replaced]

theorem decompose_borderedBody (hw : Solid w) (hshort : w.length < p.length)
    (hx : x = 'x' ∨ x = 'y') (j : Journal) :
    ∃ l, (borderedSplitter p w).decompose (borderedBody w x) (borderedBody w x).render j =
        .ok (⟨"\x7b ".toList ++ (w ++ (p ++ (' ' :: longText w.length x ++ " \x7d".toList))),
          [Chunk.leaf (longText w.length x)]⟩, l) ∧
      l.stats.truncated = j.stats.truncated := by
  have hblank : isBlank x = false := by rcases hx with rfl | rfl <;> decide
  have hfits : ∀ t : Text, (borderedSplitter p w).oracle.fitsUnit t =
      decide (t.length ≤ 4 * p.length + 9) := fun _ => rfl
  have hlong : (borderedSplitter p w).oracle.fitsUnit (longText w.length x) = true := by
    rw [hfits, decide_eq_true_eq, length_longText]
    omega
  have hroot : (borderedSplitter p w).oracle.fitsUnit
      (Frame.content p ⟨borderedSteps w x, ' ' :: longText w.length x ++ " \x7d".toList⟩) =
        true := by
    rw [hfits, decide_eq_true_eq, content_borderedSteps]
    simp only [List.length_append, List.length_cons, length_longText]
    change 2 + (w.length + (p.length + (w.length + 2 + 1 + 2))) ≤ _
    omega
  rw [decompose, flatten_borderedBody hw hblank, dissect_borderedBody p hw hx,
    ← content_borderedSteps]
  exact settle_borderedSteps hroot hlong (borderedBody w x) j

theorem expand_overlap_ne (hw : Solid w) (hx : x = 'x' ∨ x = 'y') (v rest : Text) :
    "\x7b ".toList ++ (longText w.length x ++ (v ++ rest)) ≠
      "\x7b ".toList ++ (w ++ (longText w.length x ++ rest)) := by
  intro h
  have hbehind := List.append_cancel_left h
  obtain ⟨c, w', hw'⟩ := List.exists_cons_of_ne_nil hw.ne_nil
  rw [hw'] at hbehind
  -- the second character is white space on the left only
  cases w' with
  | nil =>
    have hsecond : ' ' = x := (List.cons.inj (List.cons.inj hbehind).2).1
    rcases hx with rfl | rfl <;> exact absurd hsecond (by decide)
  | cons d w' =>
    have hsecond : ' ' = d := (List.cons.inj (List.cons.inj hbehind).2).1
    have hblank := hw.solid d (by simp [hw'])
    rw [← hsecond] at hblank
    exact absurd hblank (by decide)

theorem free_longText (hfree : ¬ p <:+: borderedText w x) :
    ¬ p <:+: longText w.length x ++ " \x7d".toList := by
  apply free_of_isInfix _ hfree
  exact ⟨"\x7b ".toList ++ w ++ longText w.length x ++ [' '], [], by simp [borderedText]⟩

theorem pieces_overlap (hp : ∀ c ∈ p, isBlank c = false) (hshort : w.length < p.length)
    (hshift : w ++ p = p ++ v) (hfree : ¬ p <:+: borderedText w x) :
    pieces p ("\x7b ".toList ++ (w ++ (p ++ (' ' :: longText w.length x ++ " \x7d".toList)))) =
      ["\x7b ".toList, v ++ (' ' :: longText w.length x ++ " \x7d".toList)] := by
  have hopen : ¬ p <:+: "\x7b ".toList := free_of_isInfix (List.prefix_append _ _).isInfix hfree
  have hspace : ∀ c ∈ ("\x7b ".toList).getLast?, isBlank c = true := by
    intro c hc
    obtain rfl : ' ' = c := Option.some.inj hc
    decide
  have hleads : LeadsTo p "\x7b ".toList := leadsTo_of_blank hp hopen hspace
  have hv : ¬ p <:+: v := by
    intro h
    have hlength := congrArg List.length hshift
    have hle := h.length_le
    simp only [List.length_append] at hlength
    omega
  have hrest : ¬ p <:+: v ++ (' ' :: longText w.length x ++ " \x7d".toList) :=
    free_blank hp (by decide) hv (free_longText hfree)
  -- the text before the marker goes on as a marker, which is the one that is found
  have hcontent : w ++ (p ++ (' ' :: longText w.length x ++ " \x7d".toList)) =
      p ++ (v ++ (' ' :: longText w.length x ++ " \x7d".toList)) := by
    rw [← List.append_assoc, hshift, List.append_assoc]
  rw [hcontent, pieces_leading (ne_nil_of_free hfree) hleads, pieces_free hrest]

theorem exists_misread (hp : ∀ c ∈ p, isBlank c = false) (hoverlap : ¬ Unbordered p) :
    ∃ w x, (borderedConfig p w).Valid ∧ ¬ p <:+: flatten (borderedBody w x).render ∧
      ∀ j, ∃ chunk l,
      (borderedSplitter p w).decompose (borderedBody w x) (borderedBody w x).render j =
        .ok (chunk, l) ∧
      l.stats.truncated = j.stats.truncated ∧ chunk.isConsistent p = true ∧
      chunk.expand p ≠ flatten (borderedBody w x).render := by
  obtain ⟨w, v, hne, hwp, hshort, hshift⟩ := exists_overlap hoverlap
  obtain ⟨x, hx, hlast⟩ : ∃ x, (x = 'x' ∨ x = 'y') ∧ p.getLast? ≠ some x := by
    by_cases hlast : p.getLast? = some 'x'
    · exact ⟨'y', .inr rfl, by simp [hlast]⟩
    · exact ⟨'x', .inl rfl, hlast⟩
  have hblank : isBlank x = false := by rcases hx with rfl | rfl <;> decide
  have hw : Solid w := ⟨hne, fun c hc => hp c (hwp.subset hc)⟩
  have hfree := free_borderedText hp hshort hne hlast
  have hpieces := pieces_overlap hp hshort hshift hfree
  have hlong : ¬ p <:+: longText w.length x :=
    free_of_isInfix (List.prefix_append _ _).isInfix (free_longText hfree)
  have hvalid : (borderedConfig p w).Valid :=
    ⟨by simp [borderedConfig], by simp [borderedConfig], by simp [borderedConfig]; omega,
      ne_nil_of_free hfree, hp, by simp [borderedConfig]⟩
  refine ⟨w, x, hvalid, by rwa [flatten_borderedBody hw hblank], fun j => ?_⟩
  obtain ⟨l, hrun, hsame⟩ := decompose_borderedBody hw hshort hx j
  refine ⟨_, l, hrun, hsame, ?_, ?_⟩
  · have hleaf : (Chunk.leaf (longText w.length x)).isConsistent p = true := by
      simp [Chunk.leaf, Chunk.isConsistent, Chunk.allConsistent, occurrences_free hlong]
    rw [Chunk.isConsistent, occurrences, hpieces, Chunk.allConsistent, hleaf]
    rfl
  · have hleaf : (Chunk.leaf (longText w.length x)).expand p = longText w.length x :=
      refill_free hlong []
    rw [flatten_borderedBody hw hblank, Chunk.expand, hpieces, Chunk.expandAll, hleaf,
      refill_cons (List.cons_ne_nil _ _)]
    exact expand_overlap_ne hw hx v _

theorem accepted_config_restores (t : Tokenizer) (c : Config) (measure : Metric)
    (hvalid : c.flaw? = none) (hload : c.metric.load t = .ok measure)
    (hmetric : c.metric = .chars ∨ c.metric = .approxTokens) :
    (∀ (source : Option Text) (s : Statement) (j : Journal),
      ¬ c.placeholder <:+: flatten s.render →
      (∀ n ∈ ((ofConfig (c.oracle measure) c source).dissect s (flatten s.render) 0).nodes 0,
        (n.2.frame.Legible c.placeholder ↔ ∀ gap ∈ n.2.frame.gaps, LeadsTo c.placeholder gap) ∧
        (Unbordered c.placeholder ∨
            (∀ gap ∈ n.2.frame.gaps, ∀ x ∈ gap.getLast?, isBlank x = true) →
          n.2.frame.Legible c.placeholder)) ∧
      ∃ chunk l, (ofConfig (c.oracle measure) c source).decompose s s.render j = .ok (chunk, l) ∧
        ((∀ n ∈ ((ofConfig (c.oracle measure) c source).dissect s (flatten s.render) 0).nodes 0,
            n.2.frame.Legible c.placeholder) →
          l.stats.truncated = j.stats.truncated →
          chunk.isConsistent c.placeholder = true ∧
            chunk.expand c.placeholder = flatten s.render)) ∧
    (¬ Unbordered c.placeholder →
      ∃ d : Config, d.flaw? = none ∧ d.placeholder = c.placeholder ∧ d.metric = .chars ∧
        ∃ s, ¬ d.placeholder <:+: flatten s.render ∧ ∀ j, ∃ chunk l,
          (ofConfig (d.oracle Metric.chars) d none).decompose s s.render j = .ok (chunk, l) ∧
          l.stats.truncated = j.stats.truncated ∧ chunk.isConsistent d.placeholder = true ∧
          chunk.expand d.placeholder ≠ flatten s.render) := by
  have hok := (Config.flaw?_eq_none_iff c).mp hvalid
  constructor
  · intro source s j hfree
    refine ⟨fun n hn => ?_, ?_⟩
    · have hnode := free_of_mem_nodes hfree 0 n hn
      exact ⟨Frame.legible_iff hnode, Frame.legible_of hok.placeholder_no_blank hnode⟩
    · have hsteady : measure [] = 0 ∧ measure.Monotone := by
        rcases hmetric with h | h
        · rw [h] at hload
          cases hload
          exact ⟨rfl, Metric.chars_monotone⟩
        · rw [h] at hload
          cases hload
          exact ⟨rfl, Metric.approxTokens_monotone⟩
      have hhonest : (ofConfig (c.oracle measure) c source).oracle.Honest :=
        Oracle.honest_ofMetric (hsteady.1.le.trans (Nat.zero_le _)) c.truncation
      obtain ⟨chunk, l, hrun⟩ := settle_returns hhonest hsteady.2
        ((ofConfig (c.oracle measure) c source).dissect s (flatten s.render) 0) j
      refine ⟨chunk, l, hrun, fun hlegible hsame => ?_⟩
      have hsettled := (legible_of_settle.settle hrun).2 0 (dissect_exact s _ 0) hlegible hsame
      rwa [text_dissect] at hsettled
  · intro hoverlap
    obtain ⟨w, x, haccepted, hfree, hmisread⟩ := exists_misread hok.placeholder_no_blank hoverlap
    have hnone := (Config.flaw?_eq_none_iff _).mpr haccepted
    exact ⟨borderedConfig c.placeholder w, hnone, rfl, rfl, borderedBody w x, hfree, hmisread⟩

def atConfig (unit chunk : Nat) : Config := ⟨unit, chunk, .chars, .hard, "@@".toList, 64⟩

def atSplitter (unit chunk : Nat) : Splitter :=
  ofConfig ((atConfig unit chunk).oracle Metric.chars) (atConfig unit chunk) none

def selectorBody : Statement :=
  .block none
    [.switch none "@longstmt();".toList [⟨[], [.plain none "longstmt();".toList]⟩]]

theorem accepted_config_restores_sampleBody :
    (∃ chunk l, (atSplitter 60 12).decompose sampleBody sampleBody.render
        Journal.empty = .ok (chunk, l) ∧
      chunk.nodeCount = 4 ∧ chunk.isConsistent "@@".toList = true ∧
      chunk.expand "@@".toList = flatten sampleBody.render) ∧
    ∃ d : Config, d.flaw? = none ∧ d.placeholder = "@@".toList ∧
      ∃ s, ¬ d.placeholder <:+: flatten s.render ∧ ∀ j, ∃ chunk l,
        (ofConfig (d.oracle Metric.chars) d none).decompose s s.render j = .ok (chunk, l) ∧
        chunk.expand d.placeholder ≠ flatten s.render := by
  obtain ⟨hrestores, hmisreads⟩ := accepted_config_restores (.error []) (atConfig 60 12) Metric.chars
    (by decide) rfl (.inl rfl)
  constructor
  · have hfree : ¬ (atConfig 60 12).placeholder <:+: flatten sampleBody.render := by decide
    have hblank : ∀ n ∈ ((atSplitter 60 12).dissect sampleBody
        (flatten sampleBody.render) 0).nodes 0,
        ∀ gap ∈ n.2.frame.gaps, gap.getLast?.all isBlank = true := by decide +kernel
    obtain ⟨hlegible, chunk, l, hrun, hchunk⟩ := hrestores none sampleBody Journal.empty hfree
    replace hrun : (atSplitter 60 12).decompose sampleBody sampleBody.render Journal.empty =
        .ok (chunk, l) := hrun
    have hsize : ((atSplitter 60 12).decompose sampleBody sampleBody.render
        Journal.empty).map (fun r => (r.1.nodeCount, r.2.stats.truncated)) = .ok (4, 0) := rfl
    simp only [hrun, Except.map, Except.ok.injEq, Prod.mk.injEq] at hsize
    have hall : ∀ n ∈ ((atSplitter 60 12).dissect sampleBody
        (flatten sampleBody.render) 0).nodes 0, n.2.frame.Legible "@@".toList := by
      intro n hn
      apply (hlegible n hn).2
      right
      intro gap hgap x hx
      have hgapBlank := hblank n hn gap hgap
      rwa [Option.mem_def.mp hx] at hgapBlank
    obtain ⟨hconsistent, hexpand⟩ := hchunk hall hsize.2
    exact ⟨chunk, l, hrun, hsize.1, hconsistent, hexpand⟩
  · obtain ⟨d, hvalid, hplaceholder, -, s, hfree, hrun⟩ := hmisreads (by decide)
    refine ⟨d, hvalid, hplaceholder, s, hfree, fun j => ?_⟩
    obtain ⟨chunk, l, hrun, -, -, hexpand⟩ := hrun j
    exact ⟨chunk, l, hrun, hexpand⟩

theorem selector_misread :
    (atConfig 100 10).flaw? = none ∧ (atConfig 100 10).metric = .chars ∧
    ¬ "@@".toList <:+: flatten selectorBody.render ∧
    ¬ LeadsTo "@@".toList "\x7b switch (@".toList ∧
    ∃ chunk l, (atSplitter 100 10).decompose selectorBody selectorBody.render
        Journal.empty = .ok (chunk, l) ∧
      l.stats.truncated = 0 ∧ chunk.isConsistent "@@".toList = true ∧
      chunk.expand "@@".toList =
        "\x7b switch (longstmt();@) \x7b default: longstmt(); \x7d \x7d".toList ∧
      chunk.expand "@@".toList ≠ flatten selectorBody.render := by
  refine ⟨by decide, rfl, by decide +kernel, by decide, _, _, rfl, rfl, ?_, ?_, ?_⟩
  · decide +kernel
  · decide +kernel
  · decide +kernel

end Splitter
end ChunkTree

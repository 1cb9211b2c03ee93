import ChunkTree.Json.Reader
import ChunkTree.Proofs.Json.Numbers
import ChunkTree.Proofs.Json.Strings

namespace ChunkTree
namespace Json

variable {t r : Text} {v : Json} {c : Char} {fuel depth : Nat}

theorem skipSpace_cons (h : isSpace c = false) (t : Text) : skipSpace (c :: t) = c :: t := by
  simp [skipSpace, h]

theorem skipSpace_newLine (level : Nat) (t : Text) : skipSpace (newLine level ++ t) = skipSpace t := by
  refine List.dropWhile_append_of_pos fun c hc => ?_
  rw [newLine, List.mem_cons] at hc
  rcases hc with rfl | hc
  · decide
  · rw [List.eq_of_mem_replicate hc]
    decide

theorem readValue?_congr (h : skipSpace t = skipSpace r) (fuel depth : Nat) :
    readValue? fuel depth t = readValue? fuel depth r := by
  cases fuel with
  | zero => rw [readValue?, readValue?]
  | succ fuel => rw [readValue?, readValue?, h]

theorem readValue?_blank (fuel depth : Nat) (t : Text) :
    readValue? fuel depth (' ' :: t) = readValue? fuel depth t :=
  readValue?_congr (List.dropWhile_cons_of_pos (by decide)) fuel depth

theorem readItems?_newLine (fuel depth level : Nat) (read : List Json) (t : Text) :
    readItems? fuel depth read (newLine level ++ t) = readItems? fuel depth read t := by
  cases fuel with
  | zero => rw [readItems?, readItems?]
  | succ fuel => rw [readItems?, readItems?, readValue?_congr (skipSpace_newLine level t)]

theorem readFields?_newLine (fuel depth level : Nat) (read : Option (List (Text × Json))) (t : Text) :
    readFields? fuel depth read (newLine level ++ t) = readFields? fuel depth read t := by
  cases fuel with
  | zero => rw [readFields?, readFields?]
  | succ fuel => rw [readFields?, readFields?, readName?, readName?, skipSpace_newLine]

theorem readName?_stringText (name r : Text) :
    readName? (stringText name ++ ':' :: r) = some (some name, r) := by
  have hcolon : skipSpace (':' :: r) = ':' :: r := skipSpace_cons (by decide) r
  simp [readName?, stringText, skipSpace_cons (c := '"') (by decide), readString?_escaped, hcolon]

structure Spells (t : Text) (v : Json) : Prop where
  first : ∃ c s, t = c :: s ∧ isSpace c = false ∧ c ≠ '[' ∧ c ≠ '{' ∧ c ≠ ']'
  read : ∀ {r}, EndsNumber r → readScalar? (t ++ r) = some (v, r)

theorem endsNumber_nil : EndsNumber [] := by
  rintro c ⟨⟩

theorem endsNumber_cons (h : c = ',' ∨ c = '\n') (t : Text) : EndsNumber (c :: t) := by
  rintro c' ⟨⟩
  rcases h with rfl | rfl <;> decide

theorem readWord?_append (word : String) (value : Json) (r : Text) :
    readWord? word value (word.toList ++ r) = some (value, r) := by
  rw [readWord?, if_pos (by simp), ← String.length_toList, List.drop_left]

theorem spells_null : Spells "null".toList null :=
  ⟨⟨'n', _, rfl, by decide⟩, fun _ => readWord?_append "null" null _⟩

theorem spells_bool (b : Bool) : Spells (boolText b) (bool b) := by
  cases b with
  | true => exact ⟨⟨'t', _, rfl, by decide⟩, fun _ => readWord?_append "true" (bool true) _⟩
  | false => exact ⟨⟨'f', _, rfl, by decide⟩, fun _ => readWord?_append "false" (bool false) _⟩

theorem spells_string (s : Text) : Spells (stringText s) (string s) :=
  ⟨⟨'"', _, rfl, by decide⟩, fun _ => by simp [stringText, readScalar?, readString?_escaped]⟩

def Numeric (c : Char) : Prop := Text.isDigit c = true ∨ c = '-'

theorem Numeric.ne (h : Numeric c) {x : Char} (hx : ¬ Numeric x) : c ≠ x := by
  rintro rfl
  exact hx h

instance (c : Char) : Decidable (Numeric c) := inferInstanceAs (Decidable (_ ∨ _))

theorem Numeric.isSpace (h : Numeric c) : isSpace c = false := by
  have hblank := h.ne (x := ' ') (by decide)
  have hfeed := h.ne (x := '\n') (by decide)
  have hreturn := h.ne (x := '\r') (by decide)
  have htab := h.ne (x := '\t') (by decide)
  simp [Json.isSpace, hblank, hfeed, hreturn, htab]

theorem readScalar?_numeric (h : Numeric c) (t : Text) :
    readScalar? (c :: t) = readNumber? (c :: t) := by
  rw [readScalar?]
  · exact fun _ ht => h.ne (by decide) (List.cons.inj ht).1
  · exact fun _ ht => h.ne (by decide) (List.cons.inj ht).1
  · exact fun _ ht => h.ne (by decide) (List.cons.inj ht).1
  · exact fun _ ht => h.ne (by decide) (List.cons.inj ht).1

theorem spells_number (negative : Bool) {w f e : Text} {x : Option Text} {y : Option (Bool × Text)}
    (hw : Whole w) (hf : Fraction f x) (he : Power e y) :
    Spells ((if negative then ['-'] else []) ++ (w ++ (f ++ e)))
      ((numberOf? negative w x y).getD unreadable) := by
  obtain ⟨c, s, hfirst, hc⟩ : ∃ c s, (if negative = true then ['-'] else []) ++ (w ++ (f ++ e)) =
      c :: s ∧ Numeric c := by
    cases negative with
    | true => exact ⟨'-', _, rfl, .inr rfl⟩
    | false =>
      obtain ⟨c, s, rfl, hc⟩ := hw.exists_cons
      exact ⟨c, _, rfl, .inl hc⟩
  constructor
  · exact ⟨c, s, hfirst, hc.isSpace, hc.ne (by decide), hc.ne (by decide), hc.ne (by decide)⟩
  · intro r hr
    have hread := readNumber?_append negative hw hf he hr
    simp only [← List.append_assoc] at hfirst hread ⊢
    rw [hfirst, List.cons_append] at hread ⊢
    rw [readScalar?_numeric hc, hread]

def readBack (t : Text) : Json := ((readScalar? t).map Prod.fst).getD unreadable

theorem readBack_of_spells (h : Spells t v) : readBack t = v := by
  have hread := h.read endsNumber_nil
  rw [List.append_nil] at hread
  rw [readBack, hread]
  rfl

theorem spells_count (n : Nat) : Spells (Text.decimal n) (readBack (Text.decimal n)) := by
  have hspells := spells_number false (whole_decimal n) .none .none
  simp only [Bool.false_eq_true, if_false, List.nil_append, List.append_nil] at hspells
  rwa [readBack_of_spells hspells]

theorem spells_real (x : Float) : Spells (realText x) (readBack (realText x)) := by
  rcases realText_eq x with hnull | ⟨negative, t, ⟨hw, hf, he⟩, ht⟩
  · rw [hnull, readBack_of_spells spells_null]
    exact spells_null
  · have hspells := spells_number negative hw hf he
    rwa [ht, readBack_of_spells hspells]

mutual

def reread : Json → Json
  | count n => readBack (Text.decimal n)
  | real x => readBack (realText x)
  | array items => array (rereadItems items)
  | object fields => object (rereadFields fields)
  | unreadable => null
  | j => j

def rereadItems : List Json → List Json
  | [] => []
  | item :: rest => item.reread :: rereadItems rest

def rereadFields : List (Text × Json) → List (Text × Json)
  | [] => []
  | (name, value) :: rest => (name, value.reread) :: rereadFields rest

end

theorem reread_count {n : Nat} (hn : n < countLimit) : (count n).reread = count n := by
  have hread := readNumber?_decimal hn endsNumber_nil
  obtain ⟨c, s, hfirst, hc⟩ := (whole_decimal n).exists_cons
  rw [List.append_nil, hfirst] at hread
  rw [reread, readBack, hfirst, readScalar?_numeric (.inl hc), hread]
  rfl

mutual

/-- Steps that are enough to read a value. -/
def size : Json → Nat
  | array items => itemsSize items + 1
  | object fields => fieldsSize fields + 1
  | _ => 1

def itemsSize : List Json → Nat
  | [] => 0
  | item :: rest => item.size + itemsSize rest + 1

def fieldsSize : List (Text × Json) → Nat
  | [] => 0
  | (_, value) :: rest => value.size + fieldsSize rest + 1

end

theorem readValue?_of_spells (h : Spells t v) (hfuel : 1 ≤ fuel) (hr : EndsNumber r) :
    readValue? fuel depth (t ++ r) = some (v, r) := by
  obtain ⟨c, s, rfl, hspace, hsquare, hcurly, -⟩ := h.first
  have hread := h.read hr
  obtain ⟨fuel, rfl⟩ := Nat.exists_eq_add_of_le' hfuel
  rw [List.cons_append] at hread
  rw [readValue?, List.cons_append, skipSpace_cons hspace]
  split
  · rename_i heq
    exact absurd (List.cons.inj heq).1 hsquare
  · rename_i heq
    exact absurd (List.cons.inj heq).1 hcurly
  · exact hread

theorem pretty_first (j : Json) (level : Nat) :
    ∃ c s, j.pretty level = c :: s ∧ isSpace c = false ∧ c ≠ ']' := by
  have hscalar {t : Text} {v : Json} (h : Spells t v) : ∃ c s, t = c :: s ∧ isSpace c = false ∧ c ≠ ']' := by
    obtain ⟨c, s, ht, hspace, -, -, hsquare⟩ := h.first
    exact ⟨c, s, ht, hspace, hsquare⟩
  cases j with
  | null => exact hscalar spells_null
  | bool b => exact hscalar (spells_bool b)
  | count n => exact hscalar (spells_count n)
  | real x => exact hscalar (spells_real x)
  | string s => exact hscalar (spells_string s)
  | unreadable => exact hscalar spells_null
  | array items =>
    cases items with
    | nil => exact ⟨'[', _, rfl, by decide⟩
    | cons item rest => exact ⟨'[', _, rfl, by decide⟩
  | object fields =>
    cases fields with
    | nil => exact ⟨'{', _, rfl, by decide⟩
    | cons field rest => exact ⟨'{', _, rfl, by decide⟩

theorem readValue?_square (h : ∃ c s, skipSpace t = c :: s ∧ c ≠ ']') :
    readValue? (fuel + 1) (depth + 1) ('[' :: t) = readItems? fuel depth [] (skipSpace t) := by
  obtain ⟨c, s, ht, hc⟩ := h
  rw [readValue?, skipSpace_cons (by decide)]
  simp only [ht]
  split
  · rename_i heq
    exact absurd (List.cons.inj heq).1 hc
  · rfl

theorem readValue?_curly (h : ∃ c s, skipSpace t = c :: s ∧ c ≠ '}') :
    readValue? (fuel + 1) (depth + 1) ('{' :: t) = readFields? fuel depth (some []) (skipSpace t) := by
  obtain ⟨c, s, ht, hc⟩ := h
  rw [readValue?, skipSpace_cons (by decide)]
  simp only [ht]
  split
  · rename_i heq
    exact absurd (List.cons.inj heq).1 hc
  · rfl

theorem bracketed_cons (start stop : Char) (level : Nat) (entry : Text) (rest : List Text) :
    bracketed start stop level (entry :: rest) =
      start :: (newLine (level + 1) ++ ((',' :: newLine (level + 1)).intercalate (entry :: rest) ++
        (newLine level ++ [stop]))) := by
  simp [bracketed]

theorem skipSpace_entries (entry : Text) (stop : Char) (rest : List Text) (level : Nat) (sep t : Text)
    (h : ∃ c s, entry = c :: s ∧ isSpace c = false ∧ c ≠ stop) :
    ∃ c s, skipSpace (newLine level ++ (sep.intercalate (entry :: rest) ++ t)) = c :: s ∧
      sep.intercalate (entry :: rest) ++ t = c :: s ∧ c ≠ stop := by
  obtain ⟨c, s, rfl, hspace, hc⟩ := h
  obtain ⟨u, hu⟩ : ∃ u, sep.intercalate ((c :: s) :: rest) = c :: u := by
    cases rest with
    | nil => exact ⟨s, List.intercalate_singleton⟩
    | cons next rest => exact ⟨s ++ sep ++ sep.intercalate (next :: rest), List.intercalate_cons_cons⟩
  refine ⟨c, u ++ t, ?_, ?_, hc⟩
  · rw [skipSpace_newLine, hu, List.cons_append, skipSpace_cons hspace]
  · rw [hu, List.cons_append]

theorem endsNumber_newLine (level : Nat) (t : Text) : EndsNumber (newLine level ++ t) :=
  endsNumber_cons (.inr rfl) _

mutual

theorem readValue?_pretty : ∀ (j : Json) (level fuel depth : Nat) (r : Text),
    j.size ≤ fuel → j.height ≤ depth → EndsNumber r →
      readValue? fuel depth (j.pretty level ++ r) = some (j.reread, r)
  | null, level, fuel, depth, r, hfuel, _, hr => readValue?_of_spells spells_null hfuel hr
  | bool b, level, fuel, depth, r, hfuel, _, hr => readValue?_of_spells (spells_bool b) hfuel hr
  | count n, level, fuel, depth, r, hfuel, _, hr => readValue?_of_spells (spells_count n) hfuel hr
  | real x, level, fuel, depth, r, hfuel, _, hr => readValue?_of_spells (spells_real x) hfuel hr
  | string s, level, fuel, depth, r, hfuel, _, hr => readValue?_of_spells (spells_string s) hfuel hr
  | unreadable, level, fuel, depth, r, hfuel, _, hr => readValue?_of_spells spells_null hfuel hr
  | array [], level, fuel + 1, depth + 1, r, _, _, _ => rfl
  | array (item :: rest), level, fuel + 1, depth + 1, r, hfuel, hdepth, _ => by
    have hitems := readItems?_pretty (item :: rest) level (level + 1) fuel depth [] r
      (List.cons_ne_nil _ _) (Nat.le_of_succ_le_succ hfuel) (Nat.le_of_succ_le_succ hdepth)
    have hfirst := skipSpace_entries (item.pretty (level + 1)) ']' (prettyItems (level + 1) rest)
      (level + 1) (',' :: newLine (level + 1)) (newLine level ++ ']' :: r)
      (pretty_first item (level + 1))
    obtain ⟨c, s, hskip, htext, hc⟩ := hfirst
    rw [prettyItems, htext] at hitems
    rw [pretty, prettyItems, bracketed_cons]
    simp only [List.cons_append, List.append_assoc, List.nil_append] at hskip ⊢
    rw [readValue?_square ⟨c, s, hskip, hc⟩, hskip, hitems]
    rfl
  | object [], level, fuel + 1, depth + 1, r, _, _, _ => rfl
  | object (field :: rest), level, fuel + 1, depth + 1, r, hfuel, hdepth, _ => by
    have hfields := readFields?_pretty (field :: rest) level (level + 1) fuel depth [] r
      (List.cons_ne_nil _ _) (Nat.le_of_succ_le_succ hfuel) (Nat.le_of_succ_le_succ hdepth)
    have hfirst := skipSpace_entries (stringText field.1 ++ ':' :: ' ' :: field.2.pretty (level + 1)) '}'
      (prettyFields (level + 1) rest) (level + 1) (',' :: newLine (level + 1))
      (newLine level ++ '}' :: r) ⟨'"', _, rfl, by decide⟩
    obtain ⟨c, s, hskip, htext, hc⟩ := hfirst
    rw [prettyFields, htext] at hfields
    rw [pretty, prettyFields, bracketed_cons]
    simp only [List.cons_append, List.append_assoc, List.nil_append] at hskip ⊢
    rw [readValue?_curly ⟨c, s, hskip, hc⟩, hskip, hfields]
    rfl

theorem readItems?_pretty : ∀ (items : List Json) (level inner fuel depth : Nat)
    (read : List Json) (r : Text), items ≠ [] → itemsSize items ≤ fuel → itemsHeight items ≤ depth →
      readItems? fuel depth read ((',' :: newLine inner).intercalate (prettyItems inner items) ++
        (newLine level ++ ']' :: r)) = some (array (read.reverse ++ rereadItems items), r)
  | [item], level, inner, fuel + 1, depth, read, r, _, hfuel, hdepth => by
    rw [itemsSize, itemsSize] at hfuel
    have hdepth := Nat.le_trans (Nat.le_max_left _ _) hdepth
    have hitem := readValue?_pretty item inner fuel depth _ (Nat.le_of_succ_le_succ hfuel) hdepth
      (endsNumber_newLine level (']' :: r))
    have hclosing : skipSpace (']' :: r) = ']' :: r := skipSpace_cons (by decide) r
    rw [prettyItems, prettyItems, List.intercalate_singleton, readItems?, hitem]
    simp [skipSpace_newLine, hclosing, rereadItems]
  | item :: next :: rest, level, inner, fuel + 1, depth, read, r, _, hfuel, hdepth => by
    rw [itemsSize] at hfuel
    have hhere := Nat.le_trans (Nat.le_max_left _ _) hdepth
    have hthere := Nat.le_trans (Nat.le_max_right _ _) hdepth
    have hrest := readItems?_pretty (next :: rest) level inner fuel depth (item.reread :: read) r
      (List.cons_ne_nil _ _) (by omega) hthere
    have hitem := readValue?_pretty item inner fuel depth _ (by omega) hhere
      (endsNumber_cons (.inl rfl) (newLine inner ++
        ((',' :: newLine inner).intercalate (prettyItems inner (next :: rest)) ++
          (newLine level ++ ']' :: r))))
    have hcomma (t : Text) : skipSpace (',' :: t) = ',' :: t := skipSpace_cons (by decide) t
    rw [prettyItems] at hrest hitem ⊢
    rw [prettyItems, List.intercalate_cons_cons, readItems?]
    simp only [List.append_assoc, List.cons_append] at hitem ⊢
    simp only [hitem, hcomma, readItems?_newLine, hrest]
    simp [rereadItems]

theorem readFields?_pretty : ∀ (fields : List (Text × Json)) (level inner fuel depth : Nat)
    (read : List (Text × Json)) (r : Text), fields ≠ [] → fieldsSize fields ≤ fuel →
      fieldsHeight fields ≤ depth →
      readFields? fuel depth (some read) ((',' :: newLine inner).intercalate (prettyFields inner fields) ++
        (newLine level ++ '}' :: r)) = some (object (read.reverse ++ rereadFields fields), r)
  | [(name, value)], level, inner, fuel + 1, depth, read, r, _, hfuel, hdepth => by
    rw [fieldsSize, fieldsSize] at hfuel
    have hdepth := Nat.le_trans (Nat.le_max_left _ _) hdepth
    have hvalue := readValue?_pretty value inner fuel depth _ (Nat.le_of_succ_le_succ hfuel) hdepth
      (endsNumber_newLine level ('}' :: r))
    have hclosing : skipSpace ('}' :: r) = '}' :: r := skipSpace_cons (by decide) r
    rw [prettyFields, prettyFields, List.intercalate_singleton, readFields?, List.append_assoc,
      List.cons_append, readName?_stringText]
    simp [readValue?_blank, hvalue, skipSpace_newLine, hclosing, rereadFields]
  | (name, value) :: next :: rest, level, inner, fuel + 1, depth, read, r, _, hfuel, hdepth => by
    rw [fieldsSize] at hfuel
    have hhere := Nat.le_trans (Nat.le_max_left _ _) hdepth
    have hthere := Nat.le_trans (Nat.le_max_right _ _) hdepth
    have hrest := readFields?_pretty (next :: rest) level inner fuel depth
      ((name, value.reread) :: read) r (List.cons_ne_nil _ _) (by omega) hthere
    have hvalue := readValue?_pretty value inner fuel depth _ (by omega) hhere
      (endsNumber_cons (.inl rfl) (newLine inner ++
        ((',' :: newLine inner).intercalate (prettyFields inner (next :: rest)) ++
          (newLine level ++ '}' :: r))))
    have hcomma (t : Text) : skipSpace (',' :: t) = ',' :: t := skipSpace_cons (by decide) t
    rw [prettyFields] at hrest hvalue ⊢
    rw [prettyFields, List.intercalate_cons_cons, readFields?]
    simp only [List.append_assoc, List.cons_append] at hvalue ⊢
    simp only [readName?_stringText, readValue?_blank, hvalue, hcomma]
    simp only [readFields?_newLine, Option.bind_some, Option.map_some, hrest]
    simp [rereadFields]

end

theorem one_le_length_pretty (j : Json) (level : Nat) : 1 ≤ (j.pretty level).length := by
  obtain ⟨c, s, ht, -⟩ := pretty_first j level
  rw [ht]
  exact Nat.succ_le_succ (Nat.zero_le _)

mutual

theorem size_le_length : ∀ (j : Json) (level : Nat), j.size ≤ (j.pretty level).length
  | null, level => one_le_length_pretty null level
  | bool b, level => one_le_length_pretty (bool b) level
  | count n, level => one_le_length_pretty (count n) level
  | real x, level => one_le_length_pretty (real x) level
  | string s, level => one_le_length_pretty (string s) level
  | unreadable, level => one_le_length_pretty unreadable level
  | array [], level => one_le_length_pretty (array []) level
  | array (item :: rest), level => by
    have hitems := itemsSize_le_length (item :: rest) (level + 1) (List.cons_ne_nil _ _)
    rw [pretty, prettyItems, bracketed_cons, size]
    rw [prettyItems] at hitems
    simp only [List.length_cons, List.length_append]
    omega
  | object [], level => one_le_length_pretty (object []) level
  | object (field :: rest), level => by
    have hfields := fieldsSize_le_length (field :: rest) (level + 1) (List.cons_ne_nil _ _)
    rw [pretty, prettyFields, bracketed_cons, size]
    rw [prettyFields] at hfields
    simp only [List.length_cons, List.length_append]
    omega

theorem itemsSize_le_length : ∀ (items : List Json) (level : Nat), items ≠ [] →
    itemsSize items ≤ ((',' :: newLine level).intercalate (prettyItems level items)).length + 1
  | [item], level, _ => by
    have hitem := size_le_length item level
    rw [prettyItems, prettyItems, List.intercalate_singleton, itemsSize, itemsSize]
    omega
  | item :: next :: rest, level, _ => by
    have hitem := size_le_length item level
    have hrest := itemsSize_le_length (next :: rest) level (List.cons_ne_nil _ _)
    rw [prettyItems] at hrest
    rw [prettyItems, prettyItems, List.intercalate_cons_cons, itemsSize]
    simp only [List.length_cons, List.length_append]
    omega

theorem fieldsSize_le_length : ∀ (fields : List (Text × Json)) (level : Nat), fields ≠ [] →
    fieldsSize fields ≤ ((',' :: newLine level).intercalate (prettyFields level fields)).length + 1
  | [(name, value)], level, _ => by
    have hvalue := size_le_length value level
    rw [prettyFields, prettyFields, List.intercalate_singleton, fieldsSize, fieldsSize]
    simp only [List.length_cons, List.length_append]
    omega
  | (name, value) :: next :: rest, level, _ => by
    have hvalue := size_le_length value level
    have hrest := fieldsSize_le_length (next :: rest) level (List.cons_ne_nil _ _)
    rw [prettyFields] at hrest
    rw [prettyFields, prettyFields, List.intercalate_cons_cons, fieldsSize]
    simp only [List.length_cons, List.length_append]
    omega

end

theorem read?_pretty (j : Json) (level : Nat) {depth : Nat} (h : j.height ≤ depth) :
    read? depth (j.pretty level) = some j.reread := by
  have hsize := size_le_length j level
  have hread := readValue?_pretty j level (2 * (j.pretty level).length + 2) depth [] (by omega) h
    endsNumber_nil
  rw [List.append_nil] at hread
  rw [read?, hread]
  rfl

end Json
end ChunkTree

import ChunkTree.Json.Reader
import ChunkTree.Json.Writer
import Mathlib.Data.List.TakeDrop

/-!
Written numbers keep to the grammar of numbers. A count comes back as it was, a double as the number
that its text is read as.
-/

namespace ChunkTree

namespace Text

theorem isDigit_of_mem_decimal {n : Nat} {c : Char} (h : c ∈ decimal n) : isDigit c = true := by
  have hdigit := Nat.isDigit_of_mem_toDigits (by decide) (by decide) h
  rw [Char.isDigit, Bool.and_eq_true, decide_eq_true_eq, decide_eq_true_eq] at hdigit
  simp only [isDigit, Bool.and_eq_true, decide_eq_true_eq]
  exact hdigit

theorem decimal_ne_nil (n : Nat) : decimal n ≠ [] := Nat.toDigits_ne_nil

theorem head?_decimal {n : Nat} (h : n ≠ 0) : (decimal n).head? ≠ some '0' := by
  induction n using Nat.base_induction 10 (by decide) with
  | single m hm => simpa [decimal, Nat.toDigits_of_lt_base hm] using h
  | digit m k hk hm ih =>
    rw [decimal, ← Nat.toDigits_append_toDigits (by decide) hm hk, List.head?_append]
    have hfirst := ih (Nat.ne_of_gt hm)
    rw [decimal] at hfirst
    cases hdigits : Nat.toDigits 10 m with
    | nil => exact absurd hdigits Nat.toDigits_ne_nil
    | cons c ds =>
      rw [hdigits] at hfirst
      exact hfirst

theorem digits_append {ds r : Text} (hds : ∀ c ∈ ds, isDigit c = true)
    (hr : ∀ c ∈ r.head?, isDigit c = false) : digits (ds ++ r) = (ds, r) := by
  rw [digits, List.span_eq_takeWhile_dropWhile, List.takeWhile_append_of_pos hds,
    List.dropWhile_append_of_pos hds]
  cases r with
  | nil => simp
  | cons c r => simp [hr c rfl]

theorem digitValue_digitChar : ∀ k < 10, digitValue (Nat.digitChar k) = k := by decide

theorem ofDigits_decimal (n : Nat) : ofDigits 10 (decimal n) = n := by
  induction n using Nat.base_induction 10 (by decide) with
  | single m hm =>
    rw [decimal, Nat.toDigits_of_lt_base hm]
    simp [ofDigits, digitValue_digitChar m hm]
  | digit m k hk hm ih =>
    rw [decimal, ← Nat.toDigits_append_toDigits (by decide) hm hk, Nat.toDigits_of_lt_base hk,
      ofDigits_append, ← decimal, ih, digitValue_digitChar k hk]

end Text

theorem scaled_zero (base : Nat) (e : Int) : (scaled 0 base e).1 = 0 := by
  rw [scaled]
  split <;> simp

theorem scaled_pos {n base : Nat} (hn : 0 < n) (hbase : 0 < base) (e : Int) :
    0 < (scaled n base e).1 ∧ 0 < (scaled n base e).2 := by
  have hpower : 0 < base ^ e.natAbs := Nat.pow_pos hbase
  rw [scaled]
  split
  · exact ⟨hn, hpower⟩
  · exact ⟨Nat.mul_pos hn hpower, Nat.one_pos⟩

theorem Interval.contains_zero {i : Interval} (h : 0 < i.low.1) (p : Int) : i.contains 0 p = false := by
  have hx := scaled_zero 10 p
  have hy : 0 < (scaled 0 10 p).2 := by
    rw [scaled]
    split
    · exact Nat.pow_pos (by decide)
    · exact Nat.one_pos
  have hbelow : gridBelow i.closed 0 p i.low.1 i.low.2 = true := by
    simp only [gridBelow, hx]
    split <;> simp [Nat.mul_pos h hy]
  simp [Interval.contains, hbelow]

theorem Interval.contains_of_gridPoint? {i : Interval} {p : Int} {s : Scientific}
    (h : i.gridPoint? p = some s) : i.contains s.coefficient p = true := by
  rw [gridPoint?] at h
  dsimp only at h
  split at h
  · obtain rfl := Option.some.inj h
    dsimp only
    split
    · assumption
    · split
      · assumption
      · split <;> assumption
  · obtain rfl := Option.some.inj h
    assumption
  · obtain rfl := Option.some.inj h
    assumption
  · cases h

namespace Scientific

/-- Zero is written in one way only. -/
def Canonical (s : Scientific) : Prop := s.coefficient = 0 → s.exponent = 0

theorem canonical_coarsest {i : Interval} (h : 0 < i.low.1) (p : Int) (steps : Nat) :
    (i.coarsest p steps).Canonical := by
  induction steps generalizing p with
  | zero => exact fun _ => rfl
  | succ steps ih =>
    rw [Interval.coarsest]
    split
    · rename_i point hpoint
      intro hzero
      have hcontains := Interval.contains_of_gridPoint? hpoint
      rw [hzero, Interval.contains_zero h] at hcontains
      cases hcontains
    · exact ih (p - 1)

theorem canonical_stripZeros {s : Scientific} (h : s.Canonical) (fuel : Nat) :
    (s.stripZeros fuel).Canonical := by
  induction fuel generalizing s with
  | zero => exact h
  | succ fuel ih =>
    rw [stripZeros]
    split
    · rename_i hdivides
      refine ih fun hzero => ?_
      dsimp only at hzero
      omega
    · exact h

theorem canonical_shortest (m : Magnitude) : m.shortest.Canonical := by
  rw [Magnitude.shortest]
  split
  · exact fun _ => rfl
  · rename_i hm
    refine canonical_stripZeros (canonical_coarsest ?_ _ _) _
    refine (scaled_pos ?_ (by decide) _).1
    split <;> omega

end Scientific

namespace Json

variable {ds r t w f e : Text} {x : Option Text} {y : Option (Bool × Text)}

structure Digits (ds : Text) : Prop where
  ne_nil : ds ≠ []
  all : ∀ c ∈ ds, Text.isDigit c = true

theorem digits_decimal (n : Nat) : Digits (Text.decimal n) :=
  ⟨Text.decimal_ne_nil n, fun _ => Text.isDigit_of_mem_decimal⟩

theorem Digits.append (h : Digits ds) (ht : ∀ c ∈ t, Text.isDigit c = true) : Digits (ds ++ t) where
  ne_nil := List.append_ne_nil_of_left_ne_nil h.ne_nil t
  all c hc := (List.mem_append.mp hc).elim (h.all c) (ht c)

theorem Digits.take (h : Digits ds) {n : Nat} (hn : 0 < n) : Digits (ds.take n) where
  ne_nil := by simp [List.take_eq_nil_iff, h.ne_nil, Nat.pos_iff_ne_zero.mp hn]
  all c hc := h.all c (List.mem_of_mem_take hc)

theorem Digits.drop (h : Digits ds) {n : Nat} (hn : n < ds.length) : Digits (ds.drop n) where
  ne_nil := by simp [List.drop_eq_nil_iff, hn]
  all c hc := h.all c (List.mem_of_mem_drop hc)

inductive Whole : Text → Prop where
  | zero : Whole ['0']
  | digits {ds : Text} (h : Digits ds) (hhead : ds.head? ≠ some '0') : Whole ds

inductive Fraction : Text → Option Text → Prop where
  | none : Fraction [] none
  | digits {ds : Text} (h : Digits ds) : Fraction ('.' :: ds) (some ds)

inductive Power : Text → Option (Bool × Text) → Prop where
  | none : Power [] none
  | digits {ds : Text} (negative : Bool) (h : Digits ds) :
    Power ('e' :: ((if negative then ['-'] else []) ++ ds)) (some (negative, ds))

/-- The numbers of the grammar that have no sign. -/
inductive Numeral : Text → Prop where
  | intro {w f e : Text} {x : Option Text} {y : Option (Bool × Text)} (hw : Whole w)
    (hf : Fraction f x) (he : Power e y) : Numeral (w ++ (f ++ e))

def EndsNumber (r : Text) : Prop :=
  ∀ c ∈ r.head?, c ≠ '.' ∧ c ≠ 'e' ∧ c ≠ 'E' ∧ Text.isDigit c = false

theorem EndsNumber.isDigit (hr : EndsNumber r) : ∀ c ∈ r.head?, Text.isDigit c = false :=
  fun c hc => (hr c hc).2.2.2

theorem Power.isDigit (he : Power e y) (hr : EndsNumber r) :
    ∀ c ∈ (e ++ r).head?, Text.isDigit c = false := by
  cases he with
  | none => exact hr.isDigit
  | digits negative h =>
    rintro c ⟨⟩
    decide

theorem Fraction.isDigit (hf : Fraction f x) (he : Power e y) (hr : EndsNumber r) :
    ∀ c ∈ (f ++ (e ++ r)).head?, Text.isDigit c = false := by
  cases hf with
  | none => exact he.isDigit hr
  | digits h =>
    rintro c ⟨⟩
    decide

theorem wholePart?_append (hw : Whole w) (hr : ∀ c ∈ r.head?, Text.isDigit c = false) :
    wholePart? (w ++ r) = some (w, r) := by
  cases hw with
  | zero => rfl
  | digits h hhead =>
    rw [wholePart?]
    · rw [Text.digits_append h.all hr]
      simp [h.ne_nil]
    · rintro t ht
      cases w with
      | nil => exact h.ne_nil rfl
      | cons c ds =>
        obtain ⟨rfl, -⟩ := List.cons.inj ht
        exact hhead rfl

theorem fractionPart?_append (hf : Fraction f x) (he : Power e y) (hr : EndsNumber r) :
    fractionPart? (f ++ (e ++ r)) = some (x, e ++ r) := by
  cases hf with
  | none =>
    cases he with
    | digits negative h => rfl
    | none =>
      rw [List.nil_append, List.nil_append, fractionPart?]
      rintro t rfl
      exact (hr '.' rfl).1 rfl
  | @digits ds h =>
    rw [List.cons_append, fractionPart?, Text.digits_append h.all (he.isDigit hr)]
    simp [h.ne_nil]

theorem exponentPart?_append (he : Power e y) (hr : EndsNumber r) :
    exponentPart? (e ++ r) = some (y, r) := by
  cases he with
  | none =>
    cases r with
    | nil => rfl
    | cons c r =>
      have hc := hr c rfl
      simp [exponentPart?, hc.2.1, hc.2.2.1]
  | @digits ds negative h =>
    cases ds with
    | nil => exact absurd rfl h.ne_nil
    | cons c ds =>
      have hc : Text.isDigit c = true := h.all c List.mem_cons_self
      have hdigits : Text.digits (c :: (ds ++ r)) = (c :: ds, r) := Text.digits_append h.all hr.isDigit
      cases negative with
      | true => simp [exponentPart?, hdigits]
      | false =>
        -- a digit is no sign
        have hplus : c ≠ '+' := by
          rintro rfl
          exact absurd hc (by decide)
        have hminus : c ≠ '-' := by
          rintro rfl
          exact absurd hc (by decide)
        simp [exponentPart?, hplus, hminus, hdigits]

theorem Whole.exists_cons (hw : Whole w) : ∃ c ds, w = c :: ds ∧ Text.isDigit c = true := by
  cases hw with
  | zero => exact ⟨'0', [], rfl, rfl⟩
  | digits h hhead =>
    obtain ⟨c, ds, rfl⟩ := List.exists_cons_of_ne_nil h.ne_nil
    exact ⟨c, ds, rfl, h.all c List.mem_cons_self⟩

theorem readNumber?_append (negative : Bool) (hw : Whole w) (hf : Fraction f x) (he : Power e y)
    (hr : EndsNumber r) :
    readNumber? ((if negative then ['-'] else []) ++ (w ++ (f ++ (e ++ r)))) =
      some ((numberOf? negative w x y).getD unreadable, r) := by
  have hwhole := wholePart?_append hw (hf.isDigit he hr)
  have hfraction := fractionPart?_append hf he hr
  have hexponent := exponentPart?_append he hr
  obtain ⟨c, ds, rfl, hc⟩ := hw.exists_cons
  have hminus : c ≠ '-' := by
    rintro rfl
    exact absurd hc (by decide)
  rw [List.cons_append] at hwhole
  cases negative with
  | true => simp [readNumber?, hwhole, hfraction, hexponent]
  | false => simp [readNumber?, hminus, hwhole, hfraction, hexponent]

theorem le_foldl_digits (ds : Text) (m : Nat) :
    m ≤ ds.foldl (fun n c => 10 * n + Text.digitValue c) m := by
  induction ds generalizing m with
  | nil => exact Nat.le_refl m
  | cons c ds ih => exact Nat.le_trans (by omega) (ih (10 * m + Text.digitValue c))

theorem gather_eq {m : Nat} (h : ds.foldl (fun n c => 10 * n + Text.digitValue c) m < countLimit) :
    gather m ds = (ds.foldl (fun n c => 10 * n + Text.digitValue c) m, ds.length) := by
  induction ds generalizing m with
  | nil => rfl
  | cons c ds ih =>
    have hnext : 10 * m + Text.digitValue c < countLimit := Nat.lt_of_le_of_lt (le_foldl_digits ds _) h
    rw [gather]
    simp only [if_pos hnext, ih h]
    rfl

theorem gather_decimal {n : Nat} (hn : n < countLimit) :
    gather 0 (Text.decimal n) = (n, (Text.decimal n).length) := by
  have htotal := Text.ofDigits_decimal n
  rw [Text.ofDigits] at htotal
  rw [gather_eq (htotal.symm ▸ hn), htotal]

theorem whole_decimal (n : Nat) : Whole (Text.decimal n) := by
  by_cases hn : n = 0
  · rw [hn]
    exact .zero
  · exact .digits (digits_decimal n) (Text.head?_decimal hn)

theorem readNumber?_decimal {n : Nat} (hn : n < countLimit) (hr : EndsNumber r) :
    readNumber? (Text.decimal n ++ r) = some (count n, r) := by
  have hread := readNumber?_append false (whole_decimal n) .none .none hr
  simpa [numberOf?, gather_decimal hn] using hread

theorem isDigit_of_mem_zeros {n : Nat} : ∀ c ∈ List.replicate n '0', Text.isDigit c = true := by
  intro c hc
  rw [List.eq_of_mem_replicate hc]
  decide

theorem numeral_pointAfter {n : Nat} (hn : 0 < n) (hlen : n < ds.length) (h : Digits ds)
    (hhead : ds.head? ≠ some '0') (he : Power e y) :
    Numeral (pointAfter n ds ++ e) := by
  have hwhole : Whole (ds.take n) := by
    refine .digits (h.take hn) ?_
    rwa [List.head?_take, if_neg (Nat.pos_iff_ne_zero.mp hn)]
  have hnumeral := Numeral.intro hwhole (.digits (h.drop hlen)) he
  simpa [pointAfter] using hnumeral

theorem numeral_jsonText {s : Scientific} (hs : s.Canonical) : Numeral s.jsonText := by
  have hfirst (h : s.exponent ≠ 0) : (Text.decimal s.coefficient).head? ≠ some '0' :=
    Text.head?_decimal fun hzero => h (hs hzero)
  have hall := whole_decimal s.coefficient
  have hds := digits_decimal s.coefficient
  rw [Scientific.jsonText]
  simp only [Int.ofNat_eq_natCast]
  generalize Text.decimal s.coefficient = ds at hfirst hall hds
  have hlen : 0 < ds.length := List.length_pos_iff.mpr hds.ne_nil
  split
  · have hw : Whole (ds ++ List.replicate s.exponent.natAbs '0') := by
      by_cases he : s.exponent = 0
      · rwa [he, Int.natAbs_zero, List.replicate_zero, List.append_nil]
      · refine .digits (hds.append isDigit_of_mem_zeros) ?_
        rw [List.head?_append, Option.or_of_isSome (by simpa using hds.ne_nil)]
        exact hfirst he
    have hplace : Digits ['0'] := ⟨List.cons_ne_nil _ _, List.forall_mem_singleton.mpr rfl⟩
    simpa using Numeral.intro hw (.digits hplace) .none
  · rename_i hwhole
    split
    · rename_i hpoint
      have hinside := numeral_pointAfter (n := ((ds.length : Int) + s.exponent).natAbs) (by omega)
        (by omega) hds (hfirst (by omega)) .none
      simpa using hinside
    · split
      · have hplaces : Digits (List.replicate ((ds.length : Int) + s.exponent).natAbs '0' ++ ds) :=
          ⟨List.append_ne_nil_of_right_ne_nil _ hds.ne_nil,
            fun c hc => (List.mem_append.mp hc).elim (isDigit_of_mem_zeros c) (hds.all c)⟩
        simpa using Numeral.intro .zero (.digits hplaces) .none
      · rename_i hpoint hsmall
        have hpower := Power.digits (decide ((ds.length : Int) + s.exponent - 1 < 0))
          (digits_decimal ((ds.length : Int) + s.exponent - 1).natAbs)
        simp only [decide_eq_true_eq] at hpower
        split
        · have hnumeral := Numeral.intro hall .none hpower
          simpa using hnumeral
        · have hhead : ds.head? ≠ some '0' := by
            cases hall with
            | zero => contradiction
            | digits h hhead => exact hhead
          simpa using numeral_pointAfter Nat.one_pos (by omega) hds hhead hpower

theorem realText_eq (x : Float) : realText x = "null".toList ∨
    ∃ (negative : Bool) (t : Text), Numeral t ∧ realText x = (if negative then ['-'] else []) ++ t := by
  rw [realText]
  cases Double.ofBits x.toBits with
  | finite negative m => exact .inr ⟨negative, _, numeral_jsonText (Scientific.canonical_shortest m), rfl⟩
  | infinite negative => exact .inl rfl
  | notANumber => exact .inl rfl

end Json
end ChunkTree

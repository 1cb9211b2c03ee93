import ChunkTree.Proofs.Oracle.Truncation
import ChunkTree.Proofs.Text.Bytes

/-!
The truncation as its loops run, with nothing that bounds them from outside. The bisection always comes
to an end. Dropping characters comes to one exactly when some first part fits the budget, which the
empty text decides, and then leaves the longest first part that does.
-/

namespace ChunkTree
namespace Truncation

def backOff : Truncation → Text → Text
  | hard, t => t
  | wordBoundary, t => backToWord t

inductive Bisects (fits : Nat → Bool) : Nat → Nat → Nat → Prop where
  | closed {low high : Nat} (h : high - low ≤ 1) : Bisects fits low high low
  | upper {low high last : Nat} (h : 1 < high - low)
      (hmid : fits (low + (high - low) / 2) = true)
      (hrest : Bisects fits (low + (high - low) / 2) high last) : Bisects fits low high last
  | lower {low high last : Nat} (h : 1 < high - low)
      (hmid : fits (low + (high - low) / 2) = false)
      (hrest : Bisects fits low (low + (high - low) / 2) last) : Bisects fits low high last

/-- The empty text has no character to drop: where it is over the budget, the loop goes on for ever. -/
inductive Shrinks (measure : Metric) (budget : Nat) : Text → Text → Prop where
  | fits {t : Text} (h : measure t ≤ budget) : Shrinks measure budget t t
  | drop {t r : Text} (h : budget < measure t) (hrest : Shrinks measure budget t.dropLast r) :
      Shrinks measure budget t r

inductive Cuts (strategy : Truncation) (measure : Metric) (budget : Nat) (t : Text) : Text → Prop where
  | whole (h : measure t ≤ budget) : Cuts strategy measure budget t t
  | part {n : Nat} {r : Text} (h : budget < measure t)
      (hbisects : Bisects (fun n => measure (t.take n) ≤ budget) 0 t.length n)
      (hshrinks : Shrinks measure budget (strategy.backOff (t.take n)) r) :
      Cuts strategy measure budget t r

structure Longest (measure : Metric) (budget : Nat) (t r : Text) : Prop where
  boundary : ∃ rest, Text.splitAtByte? (Text.byteLength r) t = some (r, rest)
  fits : measure r ≤ budget
  longest : ∀ n s rest, Text.splitAtByte? n t = some (s, rest) → measure s ≤ budget →
    n ≤ Text.byteLength r

variable {measure : Metric} {budget : Nat} {t r s : Text}

theorem longest_iff : Longest measure budget t r ↔
    r <+: t ∧ measure r ≤ budget ∧ ∀ s, s <+: t → measure s ≤ budget → s <+: r := by
  constructor
  · intro h
    obtain ⟨rest, hboundary⟩ := h.boundary
    have hr := Text.isPrefix_of_splitAtByte? hboundary
    refine ⟨hr, h.fits, ?_⟩
    intro s hs hfits
    obtain ⟨after, hsplit⟩ := Text.splitAtByte?_of_isPrefix hs
    exact Text.isPrefix_of_byteLength_le hs hr (h.longest _ s after hsplit hfits)
  · rintro ⟨hr, hfits, hall⟩
    constructor
    · exact Text.splitAtByte?_of_isPrefix hr
    · exact hfits
    · intro n s rest hsplit hs
      obtain ⟨-, rfl⟩ := Text.splitAtByte?_eq_some hsplit
      exact Text.byteLength_le_of_isPrefix (hall s (Text.isPrefix_of_splitAtByte? hsplit) hs)

theorem longest_of_fits (h : measure t ≤ budget) : Longest measure budget t t :=
  longest_iff.mpr ⟨List.prefix_refl t, h, fun _ hs _ => hs⟩

theorem Longest.unique (hr : Longest measure budget t r) (hs : Longest measure budget t s) :
    r = s := by
  obtain ⟨hrt, hrfits, hrall⟩ := longest_iff.mp hr
  obtain ⟨hst, hsfits, hsall⟩ := longest_iff.mp hs
  exact (hsall r hrt hrfits).eq_of_length_le (hrall s hst hsfits).length_le

theorem isPrefix_dropLast (hover : budget < measure t) (hs : s <+: t) (hfits : measure s ≤ budget) :
    s <+: t.dropLast := by
  have hne : s ≠ t := by
    rintro rfl
    omega
  have hlength : s.length < t.length := by
    by_contra hlong
    exact hne (hs.eq_of_length_le (by omega))
  exact List.prefix_of_prefix_length_le hs (List.dropLast_prefix t) (by simp; omega)

theorem longest_dropLast (hover : budget < measure t) :
    Longest measure budget t.dropLast r ↔ Longest measure budget t r := by
  rw [longest_iff, longest_iff]
  constructor
  · rintro ⟨hr, hfits, hall⟩
    refine ⟨hr.trans (List.dropLast_prefix t), hfits, ?_⟩
    intro s hs hsfits
    exact hall s (isPrefix_dropLast hover hs hsfits) hsfits
  · rintro ⟨hr, hfits, hall⟩
    refine ⟨isPrefix_dropLast hover hr hfits, hfits, ?_⟩
    intro s hs hsfits
    exact hall s (hs.trans (List.dropLast_prefix t)) hsfits

theorem shrinks_iff : Shrinks measure budget t r ↔ Longest measure budget t r := by
  constructor
  · intro h
    induction h with
    | fits h => exact longest_of_fits h
    | drop h hrest ih => exact (longest_dropLast h).mp ih
  · intro h
    induction t using List.reverseRecOn with
    | nil =>
      obtain ⟨hr, hfits, -⟩ := longest_iff.mp h
      obtain rfl := List.prefix_nil.mp hr
      exact .fits hfits
    | append_singleton t c ih =>
      by_cases hover : measure (t ++ [c]) ≤ budget
      · rw [h.unique (longest_of_fits hover)]
        exact .fits hover
      · have hover := Nat.lt_of_not_le hover
        have hdrop := (longest_dropLast hover).mpr h
        refine .drop hover ?_
        rw [List.dropLast_concat] at hdrop ⊢
        exact ih hdrop

theorem longest_shrink_take (hnil : measure [] ≤ budget) {n : Nat} (hn : n ≤ t.length) :
    Longest measure budget (t.take n) (shrink measure budget t n) := by
  induction n with
  | zero => exact longest_of_fits hnil
  | succ n ih =>
    rw [shrink]
    split
    · rename_i hfits
      exact longest_of_fits hfits
    · rename_i hover
      have hdrop : (t.take (n + 1)).dropLast = t.take n := by
        rw [List.dropLast_eq_take, List.take_take, List.length_take]
        congr 1
        omega
      apply (longest_dropLast (Nat.lt_of_not_le hover)).mp
      rw [hdrop]
      exact ih (by omega)

theorem longest_shrink (hnil : measure [] ≤ budget) (t : Text) :
    Longest measure budget t (shrink measure budget t t.length) := by
  have htake := longest_shrink_take (t := t) hnil (Nat.le_refl t.length)
  rwa [List.take_length] at htake

theorem bisects_bisect {fits : Nat → Bool} {steps low high : Nat} (h : high - low ≤ steps + 1) :
    Bisects fits low high (bisect fits steps low high) := by
  induction steps generalizing low high with
  | zero => exact .closed h
  | succ steps ih =>
    rw [bisect]
    split
    · rename_i hclosed
      exact .closed hclosed
    · rename_i hwide
      have hwide : 1 < high - low := Nat.lt_of_not_le hwide
      simp only
      split
      · rename_i hmid
        exact .upper hwide hmid (ih (by omega))
      · rename_i hmid
        exact .lower hwide (by simpa using hmid) (ih (by omega))

theorem Bisects.unique {fits : Nat → Bool} {low high m n : Nat} (hm : Bisects fits low high m)
    (hn : Bisects fits low high n) : m = n := by
  induction hm with
  | closed h =>
    cases hn with
    | closed => rfl
    | upper hwide => omega
    | lower hwide => omega
  | upper h hmid hrest ih =>
    cases hn with
    | closed hclosed => omega
    | upper hwide hmid' hrest' => exact ih hrest'
    | lower hwide hmid' => simp [hmid] at hmid'
  | lower h hmid hrest ih =>
    cases hn with
    | closed hclosed => omega
    | upper hwide hmid' => simp [hmid] at hmid'
    | lower hwide hmid' hrest' => exact ih hrest'

theorem bisects_iff {n : Nat} :
    Bisects (fun n => measure (t.take n) ≤ budget) 0 t.length n ↔
      n = hardLength measure budget t := by
  have hends : Bisects (fun n => measure (t.take n) ≤ budget) 0 t.length
      (hardLength measure budget t) := bisects_bisect (by omega)
  constructor
  · intro h
    exact h.unique hends
  · rintro rfl
    exact hends

theorem cut_of_over (h : budget < measure t) (strategy : Truncation) :
    strategy.cut measure budget t =
      shrink measure budget (strategy.backOff (t.take (hardLength measure budget t)))
        (strategy.backOff (t.take (hardLength measure budget t))).length := by
  rw [cut, if_neg (by omega)]
  cases strategy <;> rfl

theorem cuts_iff (strategy : Truncation) : strategy.Cuts measure budget t r ↔
    measure t ≤ budget ∧ r = t ∨ budget < measure t ∧
      Longest measure budget (strategy.backOff (t.take (hardLength measure budget t))) r := by
  constructor
  · intro h
    cases h with
    | whole h => exact .inl ⟨h, rfl⟩
    | part h hbisects hshrinks =>
      obtain rfl := bisects_iff.mp hbisects
      exact .inr ⟨h, shrinks_iff.mp hshrinks⟩
  · rintro (⟨h, rfl⟩ | ⟨h, hlongest⟩)
    · exact .whole h
    · exact .part h (bisects_iff.mpr rfl) (shrinks_iff.mpr hlongest)

theorem cuts_cut_iff (hnil : measure [] ≤ budget) (strategy : Truncation) :
    strategy.Cuts measure budget t r ↔ r = strategy.cut measure budget t := by
  rw [cuts_iff]
  by_cases h : measure t ≤ budget
  · simp [h, cut_of_fits h, Nat.not_lt.mpr h]
  · have hover := Nat.lt_of_not_le h
    have hlongest := longest_shrink hnil (strategy.backOff (t.take (hardLength measure budget t)))
    rw [← cut_of_over hover] at hlongest
    constructor
    · rintro (⟨hfits, -⟩ | ⟨-, hr⟩)
      · exact absurd hfits h
      · exact hr.unique hlongest
    · rintro rfl
      exact .inr ⟨hover, hlongest⟩

theorem cut_ends_within_budget {measure : Metric} {budget : Nat} (hnil : measure [] ≤ budget)
    (strategy : Truncation) (t : Text) :
    (∀ r, strategy.Cuts measure budget t r ↔ r = strategy.cut measure budget t) ∧
    (∃ rest, Text.splitAtByte? (Text.byteLength (strategy.cut measure budget t)) t =
      some (strategy.cut measure budget t, rest)) ∧
    measure (strategy.cut measure budget t) ≤ budget ∧
    strategy.cut measure budget (strategy.cut measure budget t) = strategy.cut measure budget t := by
  have hfits := cut_fits hnil strategy t
  refine ⟨?_, ?_, hfits, ?_⟩
  · intro r
    exact cuts_cut_iff hnil strategy
  · exact Text.splitAtByte?_of_isPrefix (cut_isPrefix strategy measure budget t)
  · exact cut_of_fits hfits strategy

end Truncation

/-- Counts characters, and three more for a text that ends a statement. -/
def Metric.semicolonPenalty : Metric := fun t =>
  if t.getLast? = some ';' then t.length + 3 else t.length

namespace Truncation

/-- Taken back to the word, the first part that fits is over the budget once more. -/
theorem cut_ends_within_budget_shrinking :
    Metric.semicolonPenalty [] ≤ 8 ∧
    Metric.semicolonPenalty (backToWord ("été(); boum".toList.take 8)) = 9 ∧
    (∀ r, wordBoundary.Cuts Metric.semicolonPenalty 8 "été(); boum".toList r ↔
      r = "été()".toList) ∧
    (∃ rest, Text.splitAtByte? 7 "été(); boum".toList = some ("été()".toList, rest)) ∧
    Metric.semicolonPenalty "été()".toList ≤ 8 ∧
    wordBoundary.cut Metric.semicolonPenalty 8 "été()".toList = "été()".toList := by
  have hnil : Metric.semicolonPenalty [] ≤ 8 := by decide
  have hcontract := cut_ends_within_budget hnil wordBoundary "été(); boum".toList
  have hcut : wordBoundary.cut Metric.semicolonPenalty 8 "été(); boum".toList = "été()".toList := by
    decide
  rw [hcut] at hcontract
  exact ⟨hnil, by decide, hcontract⟩

end Truncation
end ChunkTree

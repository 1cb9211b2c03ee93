import ChunkTree.Proofs.Oracle.Loops

namespace ChunkTree

theorem Metric.Monotone.le_of_isPrefix {measure : Metric} (hm : Monotone measure) {s t : Text}
    (h : s <+: t) : measure s ≤ measure t := by
  obtain ⟨rest, rfl⟩ := h
  exact hm s rest

namespace Truncation

variable {measure : Metric} {budget : Nat} {s t : Text}

theorem bisect_last {fits : Nat → Bool} {steps low high : Nat} (hlow : low < high)
    (hgap : high - low ≤ steps + 1) (hhigh : fits high = false) :
    fits (bisect fits steps low high + 1) = false := by
  induction steps generalizing low high with
  | zero =>
    obtain rfl : high = low + 1 := by omega
    exact hhigh
  | succ steps ih =>
    rw [bisect]
    split
    · obtain rfl : high = low + 1 := by omega
      exact hhigh
    · rename_i hwide
      simp only
      split
      · exact ih (by omega) (by omega) hhigh
      · rename_i hmid
        exact ih (by omega) (by omega) (by simpa using hmid)

theorem measure_take_hardLength (hnil : measure [] ≤ budget) :
    measure (t.take (hardLength measure budget t)) ≤ budget := by
  have hzero : decide (measure (t.take 0) ≤ budget) = true := decide_eq_true hnil
  have hfits := @bisect_fits (fun n => measure (t.take n) ≤ budget) t.length 0 t.length hzero
  exact of_decide_eq_true hfits

theorem measure_take_hardLength_succ (hne : t ≠ []) (hover : budget < measure t) :
    budget < measure (t.take (hardLength measure budget t + 1)) := by
  have hlength : 0 < t.length := List.length_pos_iff.mpr hne
  have hall : decide (measure (t.take t.length) ≤ budget) = false := by simpa using hover
  have hlast := @bisect_last (fun n => measure (t.take n) ≤ budget) t.length 0 t.length hlength
    (by omega) hall
  simpa [hardLength] using hlast

theorem shrink_of_fits (h : measure t ≤ budget) : shrink measure budget t t.length = t := by
  cases t with
  | nil => rfl
  | cons c t => simp [shrink, h]

theorem cut_hard_eq_take (hnil : measure [] ≤ budget) (hover : budget < measure t) :
    cut .hard measure budget t = t.take (hardLength measure budget t) := by
  rw [cut, if_neg (by omega)]
  exact shrink_of_fits (measure_take_hardLength hnil)

theorem isPrefix_cut_hard (hm : Metric.Monotone measure) (hs : s <+: t) (hfits : measure s ≤ budget) :
    s <+: cut .hard measure budget t := by
  have hnil : measure [] ≤ budget := (hm.le_of_isPrefix List.nil_prefix).trans hfits
  by_cases hover : measure t ≤ budget
  · rwa [cut_of_fits hover]
  · have hne : t ≠ [] := by
      rintro rfl
      exact hover hnil
    rw [cut_hard_eq_take hnil (by omega)]
    have hbeyond := measure_take_hardLength_succ hne (Nat.lt_of_not_le hover)
    -- one character more is over the budget, so a part that fits has no more than that length
    have hlength : s.length ≤ hardLength measure budget t := by
      by_contra hlong
      have htake : t.take (hardLength measure budget t + 1) <+: s :=
        List.prefix_of_prefix_length_le (List.take_prefix _ t) hs (by simp; omega)
      have := hm.le_of_isPrefix htake
      omega
    have hwithin := hs.length_le
    exact List.prefix_of_prefix_length_le hs (List.take_prefix _ t) (by simp; omega)

theorem cut_hard_isPrefix_cut_hard (hm : Metric.Monotone measure) {larger : Nat}
    (hnil : measure [] ≤ budget) (h : budget ≤ larger) (t : Text) :
    cut .hard measure budget t <+: cut .hard measure larger t :=
  isPrefix_cut_hard hm (cut_isPrefix .hard measure budget t) ((cut_fits hnil .hard t).trans h)

theorem longest_cut_hard (hm : Metric.Monotone measure) (hnil : measure [] ≤ budget) (t : Text) :
    Longest measure budget t (cut .hard measure budget t) := by
  apply longest_iff.mpr
  refine ⟨cut_isPrefix .hard measure budget t, cut_fits hnil .hard t, ?_⟩
  intro s hs hfits
  exact isPrefix_cut_hard hm hs hfits

theorem monotone_of_mem (hmeasure : measure ∈ [Metric.chars, Metric.approxTokens]) (budget : Nat) :
    measure.Monotone ∧ measure [] ≤ budget := by
  simp only [List.mem_cons, List.not_mem_nil, or_false] at hmeasure
  rcases hmeasure with rfl | rfl
  · exact ⟨Metric.chars_monotone, Nat.zero_le budget⟩
  · exact ⟨Metric.approxTokens_monotone, Nat.zero_le budget⟩

theorem hard_cut_longest (budget : Nat) :
    (∀ measure : Metric, measure.Monotone → measure [] ≤ budget → ∀ t r : Text,
      Longest measure budget t r ↔ r = cut .hard measure budget t) ∧
    ∀ measure ∈ [Metric.chars, Metric.approxTokens], measure.Monotone ∧ measure [] ≤ budget := by
  constructor
  · intro measure hm hnil t r
    have hlongest := longest_cut_hard hm hnil t
    constructor
    · intro h
      exact h.unique hlongest
    · rintro rfl
      exact hlongest
  · intro measure hmeasure
    exact monotone_of_mem hmeasure budget

/-- Of the first parts with two tokens, those of five to eight bytes, the longest has seven. -/
theorem hard_cut_longest_ties :
    Metric.approxTokens.Monotone ∧ Metric.approxTokens [] ≤ 2 ∧
    Metric.approxTokens "naïv".toList = 2 ∧ Metric.approxTokens "naïve é".toList = 3 ∧
    (∀ r, Longest Metric.approxTokens 2 "naïve été".toList r ↔ r = "naïve ".toList) ∧
    ∀ r, Longest Metric.chars 2 "été".toList r ↔ r = "ét".toList := by
  have hcut : cut .hard Metric.approxTokens 2 "naïve été".toList = "naïve ".toList := by decide
  have hcutChars : cut .hard Metric.chars 2 "été".toList = "ét".toList := by decide
  obtain ⟨hlongest, hmetrics⟩ := hard_cut_longest 2
  obtain ⟨hmono, hnil⟩ := hmetrics Metric.approxTokens (by simp)
  obtain ⟨hmonoChars, hnilChars⟩ := hmetrics Metric.chars (by simp)
  have htokens := hlongest Metric.approxTokens hmono hnil "naïve été".toList
  have hchars := hlongest Metric.chars hmonoChars hnilChars "été".toList
  rw [hcut] at htokens
  rw [hcutChars] at hchars
  exact ⟨hmono, hnil, by decide, by decide, htokens, hchars⟩

end Truncation
end ChunkTree

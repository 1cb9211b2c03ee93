import ChunkTree.Proofs.Oracle.Longest
import ChunkTree.Proofs.Text.Words

/-!
The cut at a word boundary, by a metric that never falls along a text. It is the hard cut without its
last run of white space and the word after it.
-/

namespace ChunkTree
namespace Truncation

open Text

variable {measure : Metric} {budget : Nat} {t : Text}

theorem backToWord_cases (t : Text) :
    (∀ c ∈ t.tail, isBlank c = false) ∧ backToWord t = t ∨ ∃ s r, Parted t (backToWord t) s r := by
  cases hbefore : beforeLastBlank? t with
  | none =>
    refine .inl ⟨?_, by rw [backToWord, hbefore]⟩
    intro c hc
    exact beforeLastBlank?_eq_none.mp hbefore c (List.mem_of_mem_tail hc)
  | some before =>
    obtain ⟨c, after, rfl, hc, hafter⟩ := eq_append_of_beforeLastBlank? hbefore
    cases before with
    | nil => exact .inl ⟨hafter, by rw [backToWord, hbefore]⟩
    | cons d before =>
      obtain ⟨s, hparted⟩ := parted_trimEnd (d :: before) hc hafter
      rw [backToWord, hbefore]
      exact .inr ⟨s, after, hparted⟩

theorem cut_wordBoundary_eq (hm : Metric.Monotone measure) (hnil : measure [] ≤ budget)
    (hover : budget < measure t) :
    cut .wordBoundary measure budget t = backToWord (cut .hard measure budget t) := by
  rw [cut_hard_eq_take hnil hover, cut_of_over hover]
  apply shrink_of_fits
  have hback := hm.le_of_isPrefix (backToWord_isPrefix (t.take (hardLength measure budget t)))
  exact hback.trans (measure_take_hardLength hnil)

theorem wordBoundary_between_words (budget : Nat) (t : Text) :
    ∀ measure ∈ [Metric.chars, Metric.approxTokens], budget < measure t →
      let h := cut .hard measure budget t
      let w := cut .wordBoundary measure budget t
      (∀ c ∈ h.tail, isBlank c = false) ∧ w = h ∨
      ∃ s r, Parted h w s r ∧ (∃ c rest, t = w ++ c :: rest ∧ isBlank c = true) ∧
        words h = words w ++ words r ∧ (words r).length ≤ 1 := by
  intro measure hmeasure hover h w
  obtain ⟨hm, hnil⟩ := monotone_of_mem hmeasure budget
  have hw : w = backToWord h := cut_wordBoundary_eq hm hnil hover
  rw [hw]
  rcases backToWord_cases h with hkept | ⟨s, r, hparted⟩
  · exact .inl hkept
  · refine .inr ⟨s, r, hparted, ?_, hparted.words_eq, length_words_le hparted.word⟩
    exact hparted.exists_blank (cut_isPrefix .hard measure budget t)

theorem wordBoundary_between_words_wide :
    10 < Metric.chars "go();\u2003 \nstop();".toList ∧
    cut .hard Metric.chars 10 "go();\u2003 \nstop();".toList = "go();\u2003 \nst".toList ∧
    cut .wordBoundary Metric.chars 10 "go();\u2003 \nstop();".toList = "go();".toList ∧
    ∃ s r, Parted "go();\u2003 \nst".toList "go();".toList s r ∧
      (∃ c rest, "go();\u2003 \nstop();".toList = "go();".toList ++ c :: rest ∧ isBlank c = true) ∧
      words "go();\u2003 \nst".toList = words "go();".toList ++ words r ∧ (words r).length ≤ 1 := by
  have hover : 10 < Metric.chars "go();\u2003 \nstop();".toList := by decide
  have hhard : cut .hard Metric.chars 10 "go();\u2003 \nstop();".toList =
      "go();\u2003 \nst".toList := by decide
  have hword : cut .wordBoundary Metric.chars 10 "go();\u2003 \nstop();".toList =
      "go();".toList := by decide
  have hcases := wordBoundary_between_words 10 "go();\u2003 \nstop();".toList Metric.chars
    (by simp) hover
  simp only [hhard, hword] at hcases
  rcases hcases with ⟨-, hsame⟩ | hparted
  · exact absurd hsame (by decide)
  · exact ⟨hover, hhard, hword, hparted⟩

end Truncation
end ChunkTree

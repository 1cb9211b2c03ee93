import ChunkTree.Oracle.Basic
import ChunkTree.Proofs.Text.Trim

namespace ChunkTree

theorem Text.beforeLastBlank?_isPrefix {t before : Text} (h : beforeLastBlank? t = some before) :
    before <+: t := by
  induction t generalizing before with
  | nil => simp [beforeLastBlank?] at h
  | cons c t ih =>
    rw [beforeLastBlank?] at h
    cases ht : beforeLastBlank? t with
    | some r =>
      simp only [ht, Option.some.injEq] at h
      subst h
      exact (List.prefix_cons_inj c).mpr (ih ht)
    | none =>
      simp only [ht] at h
      split at h
      · simp_all
      · simp at h

namespace Truncation

theorem backToWord_isPrefix (t : Text) : backToWord t <+: t := by
  rw [backToWord]
  split
  · rename_i c before h
    exact (Text.trimEnd_isPrefix _).trans (Text.beforeLastBlank?_isPrefix h)
  · exact List.prefix_refl t

theorem isPrefix_shrink (measure : Metric) (budget : Nat) (t : Text) (n : Nat) :
    shrink measure budget t n <+: t := by
  obtain ⟨rest, h⟩ := shrink_isPrefix measure budget t n
  exact ⟨rest, h.symm⟩

theorem shrink_fits {measure : Metric} {budget : Nat} (h : measure [] ≤ budget) (t : Text)
    (n : Nat) : measure (shrink measure budget t n) ≤ budget := by
  induction n with
  | zero => exact h
  | succ n ih =>
    rw [shrink]
    split
    · assumption
    · exact ih

theorem cut_isPrefix (strategy : Truncation) (measure : Metric) (budget : Nat) (t : Text) :
    strategy.cut measure budget t <+: t := by
  rw [cut]
  split
  · exact List.prefix_refl t
  · refine (isPrefix_shrink measure budget _ _).trans ?_
    cases strategy with
    | hard => exact List.take_prefix _ t
    | wordBoundary => exact (backToWord_isPrefix _).trans (List.take_prefix _ t)

theorem cut_fits {measure : Metric} {budget : Nat} (h : measure [] ≤ budget)
    (strategy : Truncation) (t : Text) : measure (strategy.cut measure budget t) ≤ budget := by
  rw [cut]
  split
  · assumption
  · exact shrink_fits h _ _

theorem cut_of_fits {measure : Metric} {budget : Nat} {t : Text} (h : measure t ≤ budget)
    (strategy : Truncation) : strategy.cut measure budget t = t := by
  rw [cut, if_pos h]

end Truncation

namespace Oracle

theorem honest_ofMetric {metric : Metric} {budgets : Budgets} (h : metric [] ≤ budgets.unit)
    (strategy : Truncation) : (ofMetric metric budgets strategy).Honest where
  isPrefix t := Truncation.cut_isPrefix strategy metric budgets.unit t
  fits t := decide_eq_true (Truncation.cut_fits h strategy t)
  stable t := Truncation.cut_of_fits (Truncation.cut_fits h strategy t) strategy

end Oracle
end ChunkTree

import ChunkTree.Proofs.Oracle.WordBoundary

/-!
Cuts of one text by two budgets. The hard cut by the larger budget begins with the one by the smaller.
The cut at a word boundary does too, but for one margin: a text may begin with more than one
white-space character, of which a budget keeps the first alone and a larger budget keeps none.
-/

namespace ChunkTree

namespace Text

theorem isPrefix_trimEnd {s t : Text} (h : s <+: t) (hlast : ∀ c ∈ s.getLast?, isBlank c = false) :
    s <+: trimEnd t := by
  obtain ⟨r, rfl⟩ := h
  rw [trimEnd_append]
  split
  · have hsame : trimEnd s = s := by
      rw [trimEnd_eq_rdropWhile]
      apply List.rdropWhile_eq_self_iff.mpr
      intro hne
      have hc := hlast (s.getLast hne) (List.getLast?_eq_some_getLast hne)
      simp [hc]
    exact ⟨[], by rw [List.append_nil, hsame]⟩
  · exact List.prefix_append s _

theorem beforeLastBlank?_append {before after : Text} {c : Char} (hc : isBlank c = true)
    (hafter : ∀ d ∈ after, isBlank d = false) :
    beforeLastBlank? (before ++ c :: after) = some before := by
  induction before with
  | nil => rw [List.nil_append, beforeLastBlank?, beforeLastBlank?_eq_none.mpr hafter, if_pos hc]
  | cons d before ih => rw [List.cons_append, beforeLastBlank?, ih]

end Text

namespace Truncation

open Text

variable {measure : Metric} {budget larger : Nat} {s t : Text}

theorem backToWord_eq_trimEnd {d c : Char} {before after : Text} (hc : isBlank c = true)
    (hafter : ∀ x ∈ after, isBlank x = false) :
    backToWord (d :: before ++ c :: after) = trimEnd (d :: before) := by
  rw [backToWord, beforeLastBlank?_append hc hafter]

theorem getLast?_backToWord (t : Text) :
    (∃ c, isBlank c = true ∧ t = [c]) ∨ ∀ c ∈ (backToWord t).getLast?, isBlank c = false := by
  rcases backToWord_cases t with ⟨htail, hkept⟩ | ⟨s, r, hparted⟩
  · rw [hkept]
    cases t with
    | nil => exact .inr (by simp)
    | cons c t =>
      rcases List.eq_nil_or_concat t with rfl | ⟨t, d, rfl⟩
      · cases hc : isBlank c with
        | true => exact .inl ⟨c, hc, rfl⟩
        | false => exact .inr (by simpa using hc)
      · refine .inr ?_
        intro x hx
        rw [List.concat_eq_append] at htail hx
        rw [← List.cons_append, List.getLast?_concat, Option.mem_some] at hx
        exact htail x (by simp [hx])
  · exact .inr hparted.tight

theorem backToWord_isPrefix_trimEnd (h : s <+: t) :
    backToWord s <+: trimEnd t ∨ ∃ c, isBlank c = true ∧ s = [c] ∧ trimEnd t = [] := by
  rcases getLast?_backToWord s with ⟨c, hc, rfl⟩ | hlast
  · cases htrim : trimEnd t with
    | nil => exact .inr ⟨c, hc, rfl, rfl⟩
    | cons d rest =>
      have htop := trimEnd_isPrefix t
      rw [htrim] at htop
      have hfirst : [c] <+: d :: rest := List.prefix_of_prefix_length_le h htop (by simp)
      exact .inl ((backToWord_isPrefix [c]).trans hfirst)
  · exact .inl (isPrefix_trimEnd ((backToWord_isPrefix s).trans h) hlast)

theorem backToWord_isPrefix_backToWord (h : s <+: t) :
    backToWord s <+: backToWord t ∨ ∃ c, isBlank c = true ∧ s = [c] ∧ backToWord t = [] := by
  cases hbefore : beforeLastBlank? t with
  | none =>
    have hkept : backToWord t = t := by rw [backToWord, hbefore]
    rw [hkept]
    exact .inl ((backToWord_isPrefix s).trans h)
  | some before =>
    obtain ⟨c, after, rfl, hc, hafter⟩ := eq_append_of_beforeLastBlank? hbefore
    cases before with
    | nil =>
      have hkept : backToWord ([] ++ c :: after) = [] ++ c :: after := by rw [backToWord, hbefore]
      rw [hkept]
      exact .inl ((backToWord_isPrefix s).trans h)
    | cons d before =>
      rw [backToWord_eq_trimEnd hc hafter]
      by_cases hlong : (d :: before).length < s.length
      · -- both texts have the same last white space
        have hfront : d :: before ++ [c] <+: s := by
          apply List.prefix_of_prefix_length_le ⟨after, by simp⟩ h
          rw [List.length_append]
          exact hlong
        obtain ⟨rest, rfl⟩ := hfront
        rw [List.append_assoc, List.prefix_append_right_inj, List.singleton_append,
          List.prefix_cons_inj] at h
        have hrest : ∀ x ∈ rest, isBlank x = false := fun x hx => hafter x (h.mem hx)
        rw [List.append_assoc, List.singleton_append, backToWord_eq_trimEnd hc hrest]
        exact .inl (List.prefix_refl _)
      · apply backToWord_isPrefix_trimEnd
        exact List.prefix_of_prefix_length_le h (List.prefix_append _ _) (by omega)

theorem backToWord_eq_self {c : Char} {r : Text} (hc : isBlank c = true)
    (hr : ∀ x ∈ r, isBlank x = false) : backToWord (c :: r) = c :: r := by
  have hbefore : beforeLastBlank? (c :: r) = some [] := @beforeLastBlank?_append [] r c hc hr
  rw [backToWord, hbefore]

theorem backToWord_eq_nil {c : Char} {r : Text} (hne : s ≠ [])
    (hs : ∀ x ∈ c :: s, isBlank x = true) (hr : ∀ x ∈ r, isBlank x = false) :
    backToWord (c :: (s ++ r)) = [] := by
  rcases List.eq_nil_or_concat s with rfl | ⟨s, d, rfl⟩
  · exact absurd rfl hne
  · rw [List.concat_eq_append, ← List.cons_append] at hs
    obtain ⟨hfront, hlast⟩ := List.forall_mem_append.mp hs
    have hd := hlast d List.mem_cons_self
    rw [List.concat_eq_append, List.append_assoc, List.singleton_append, ← List.cons_append,
      backToWord_eq_trimEnd hd hr, trimEnd_eq_rdropWhile]
    exact List.rdropWhile_eq_nil_iff.mpr hfront

/-- The text begins with a run of white space. The smaller budget keeps the first character of the run;
the larger one has room for more of the run, but not for the white space behind the next word. -/
def MarginLost (measure : Metric) (budget larger : Nat) (t : Text) : Prop :=
  ∃ c s r, s ≠ [] ∧ (∀ x ∈ c :: s, isBlank x = true) ∧ (∀ x ∈ r, isBlank x = false) ∧
    cut .hard measure budget t = [c] ∧ cut .hard measure larger t = c :: (s ++ r) ∧
    larger < measure t

theorem exists_run_of_backToWord_nil {c : Char} (hc : isBlank c = true) (h : [c] <+: t)
    (hback : backToWord t = []) : ∃ s r, s ≠ [] ∧ (∀ x ∈ c :: s, isBlank x = true) ∧
      (∀ x ∈ r, isBlank x = false) ∧ t = c :: (s ++ r) := by
  rcases backToWord_cases t with ⟨-, hkept⟩ | ⟨s, r, hparted⟩
  · rw [← hkept, hback] at h
    exact absurd (List.prefix_nil.mp h) (List.cons_ne_nil c [])
  · rw [hback] at hparted
    obtain ⟨d, s, rfl⟩ := List.exists_cons_of_ne_nil hparted.ne_nil
    have hparts : t = d :: (s ++ r) := hparted.parts
    obtain rfl : c = d := by
      rw [hparts] at h
      exact (List.cons_prefix_cons.mp h).1
    refine ⟨s, r, ?_, hparted.blank, hparted.word, hparts⟩
    rintro rfl
    rw [hparts, List.nil_append, backToWord_eq_self hc hparted.word] at hback
    exact absurd hback (List.cons_ne_nil c r)

theorem cut_wordBoundary_isPrefix_iff (hm : Metric.Monotone measure) (hnil : measure [] ≤ budget)
    (h : budget ≤ larger) (t : Text) :
    cut .wordBoundary measure budget t <+: cut .wordBoundary measure larger t ↔
      ¬ MarginLost measure budget larger t := by
  by_cases hfits : measure t ≤ larger
  · rw [cut_of_fits hfits]
    constructor
    · rintro - ⟨c, s, r, -, -, -, -, -, hover⟩
      omega
    · intro _
      exact cut_isPrefix .wordBoundary measure budget t
  · have hover : larger < measure t := Nat.lt_of_not_le hfits
    have hhard := cut_hard_isPrefix_cut_hard hm hnil h t
    rw [cut_wordBoundary_eq hm hnil (by omega), cut_wordBoundary_eq hm (hnil.trans h) hover]
    constructor
    · rintro hprefix ⟨c, s, r, hne, hs, hr, hsmall, hlarge, -⟩
      have hc := hs c List.mem_cons_self
      rw [hsmall, hlarge, backToWord_eq_self hc (List.forall_mem_nil _), backToWord_eq_nil hne hs hr]
        at hprefix
      exact absurd (List.prefix_nil.mp hprefix) (List.cons_ne_nil c [])
    · intro hkept
      rcases backToWord_isPrefix_backToWord hhard with hprefix | ⟨c, hc, hsmall, hlost⟩
      · exact hprefix
      · rw [hsmall] at hhard
        obtain ⟨s, r, hne, hs, hr, hlarge⟩ := exists_run_of_backToWord_nil hc hhard hlost
        exact absurd ⟨c, s, r, hne, hs, hr, hsmall, hlarge, hover⟩ hkept

theorem not_marginLost (hmargin : ∀ c d rest, t = c :: d :: rest → isBlank c = true →
    isBlank d = false) : ¬ MarginLost measure budget larger t := by
  rintro ⟨c, s, r, hne, hs, -, -, hlarge, -⟩
  obtain ⟨d, s, rfl⟩ := List.exists_cons_of_ne_nil hne
  obtain ⟨rest, ht⟩ := cut_isPrefix .hard measure larger t
  rw [hlarge] at ht
  have hd := hmargin c d (s ++ r ++ rest) (by simp [← ht]) (hs c (by simp))
  rw [hs d (by simp)] at hd
  cases hd

theorem larger_budget_keeps {budget larger : Nat} (h : budget ≤ larger) :
    ∀ measure ∈ [Metric.chars, Metric.approxTokens], ∀ t,
      cut .hard measure budget t <+: cut .hard measure larger t ∧
      (cut .wordBoundary measure budget t <+: cut .wordBoundary measure larger t ↔
        ¬ MarginLost measure budget larger t) ∧
      ((∀ c d rest, t = c :: d :: rest → isBlank c = true → isBlank d = false) →
        cut .wordBoundary measure budget t <+: cut .wordBoundary measure larger t) := by
  intro measure hmeasure t
  obtain ⟨hm, hnil⟩ := monotone_of_mem hmeasure budget
  have hword := cut_wordBoundary_isPrefix_iff hm hnil h t
  refine ⟨cut_hard_isPrefix_cut_hard hm hnil h t, hword, ?_⟩
  intro hmargin
  exact hword.mpr (not_marginLost hmargin)

theorem larger_budget_keeps_words :
    4 ≤ 6 ∧ cut .wordBoundary Metric.approxTokens 4 " naïve	 été là-bas, au loin".toList =
      " naïve	 été".toList ∧
    cut .wordBoundary Metric.approxTokens 6 " naïve	 été là-bas, au loin".toList =
      " naïve	 été là-bas,".toList ∧
    " naïve	 été".toList <+: " naïve	 été là-bas,".toList ∧
    cut .hard Metric.approxTokens 4 " naïve	 été là-bas, au loin".toList <+:
      cut .hard Metric.approxTokens 6 " naïve	 été là-bas, au loin".toList := by
  have hsmall : cut .wordBoundary Metric.approxTokens 4 " naïve	 été là-bas, au loin".toList =
      " naïve	 été".toList := by decide
  have hlarge : cut .wordBoundary Metric.approxTokens 6 " naïve	 été là-bas, au loin".toList =
      " naïve	 été là-bas,".toList := by decide
  obtain ⟨hhard, -, hword⟩ := larger_budget_keeps (show 4 ≤ 6 by decide) Metric.approxTokens (by simp)
    " naïve	 été là-bas, au loin".toList
  have hmargin := hword (by
    intro c d rest ht hc
    obtain ⟨-, ht⟩ := List.cons.inj ht
    obtain ⟨rfl, -⟩ := List.cons.inj ht
    decide)
  rw [hsmall, hlarge] at hmargin
  exact ⟨by decide, hsmall, hlarge, hmargin, hhard⟩

/-- The larger budget has room for all but the last character and keeps nothing at all. -/
theorem margin_lost :
    cut .wordBoundary Metric.chars 1 "		go();".toList = "	".toList ∧
    cut .wordBoundary Metric.chars 6 "		go();".toList = [] ∧
    cut .hard Metric.chars 6 "		go();".toList = "		go()".toList ∧
    ¬ cut .wordBoundary Metric.chars 1 "		go();".toList <+:
      cut .wordBoundary Metric.chars 6 "		go();".toList := by decide

end Truncation
end ChunkTree

import ChunkTree.Proofs.Split.Backstop

/-!
Splits that end for a metric that need not be monotone. The backstop only ever takes half a placeholder
off a text, so it is enough that the text in front of it does not measure more than the budget then.
-/

namespace ChunkTree

def Metric.Sheds (m : Metric) (placeholder : Text) (limit : Nat) : Prop :=
  ∀ before cut, Frame.Halved placeholder before cut → m cut ≤ limit → m before ≤ limit

theorem Metric.Monotone.sheds {m : Metric} (hm : m.Monotone) (placeholder : Text) (limit : Nat) :
    m.Sheds placeholder limit := by
  rintro before _ ⟨half, rfl, -⟩ hcut
  exact (hm before half).trans hcut

/-- What a run relies on where it counts with a byte-pair tokenizer: the vocabulary is there, nothing has
no tokens, and half a placeholder taken off the end does not bring a text back over the unit budget. The
search for a cut assumes more, that counts never fall along a text, which tokens keep to only roughly. -/
structure Tokenizer.Serves (t : Tokenizer) (c : Config) : Prop where
  loads : ∃ tokens, t = .ok tokens
  empty : ∀ tokens, t = .ok tokens → tokens [] = 0
  sheds : ∀ tokens, t = .ok tokens → tokens.Sheds c.placeholder c.unitBudget

namespace Splitter

variable {S : Splitter}

theorem spares_of_sheds {δ : Type} (ho : S.oracle.Honest)
    (hs : S.oracle.measure.Sheds S.placeholder S.oracle.budgets.unit) (f : Frame δ) : S.Spares f := by
  intro _ before hbefore
  have hprefix := ho.isPrefix (f.content S.placeholder)
  obtain ⟨-, hhalved⟩ := (Frame.divides_iff hprefix).mp hbefore
  have hcut := ho.fits (f.content S.placeholder)
  rw [Oracle.fitsUnit, decide_eq_true_eq] at hcut ⊢
  exact hs before _ hhalved hcut

theorem splitUnits_returns (ho : S.oracle.Honest)
    (hs : S.oracle.measure.Sheds S.placeholder S.oracle.budgets.unit) (units : List SourceUnit)
    (j : Journal) : ∃ cs l, S.splitUnits units j = .ok (cs, l) := by
  induction units generalizing j with
  | nil => exact ⟨[], j, rfl⟩
  | cons u rest ih =>
    have hunit : ∃ c k, S.splitUnit u j = .ok (c, k) := by
      rw [splitUnit]
      split
      · exact ⟨_, _, rfl⟩
      · exact (settle_returns_iff ho _ 0 _).mpr fun p _ => spares_of_sheds ho hs p.2.frame
    obtain ⟨c, k, hunit⟩ := hunit
    obtain ⟨cs, l, hrest⟩ := ih k
    exact ⟨c :: cs, l, by simp [splitUnits, hunit, hrest]⟩

end Splitter

theorem exists_load {t : Tokenizer} {c : Config} (h : c.metric = .bpe → t.Serves c) :
    ∃ measure, c.metric.load t = .ok measure ∧ measure [] = 0 ∧
      measure.Sheds c.placeholder c.unitBudget := by
  cases hkind : c.metric with
  | chars => exact ⟨_, rfl, rfl, Metric.chars_monotone.sheds _ _⟩
  | approxTokens => exact ⟨_, rfl, rfl, Metric.approxTokens_monotone.sheds _ _⟩
  | bpe =>
    have hserves := h hkind
    obtain ⟨tokens, ht⟩ := hserves.loads
    exact ⟨tokens, by rw [ht]; rfl, hserves.empty tokens ht, hserves.sheds tokens ht⟩

end ChunkTree

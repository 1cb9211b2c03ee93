import ChunkTree.Text.Search
import Mathlib.Data.List.Infix

namespace ChunkTree
namespace Text

def Unbordered (p : Text) : Prop := ∀ b, b <+: p → b <:+ p → b = [] ∨ b = p

instance (p : Text) : Decidable (Unbordered p) :=
  decidable_of_iff (∀ b ∈ p.inits, b <:+ p → b = [] ∨ b = p) (by simp [Unbordered])

theorem ne_nil_of_free {p t : Text} (h : ¬ p <:+: t) : p ≠ [] := fun hp => h (hp ▸ List.nil_infix)

theorem free_of_isInfix {p s t : Text} (hst : s <:+: t) (h : ¬ p <:+: t) : ¬ p <:+: s :=
  fun hs => h (hs.trans hst)

theorem not_prefix_gap {p g t : Text} (hp : Unbordered p) (hg : ¬ p <:+: g) (hne : g ≠ []) :
    ¬ p <+: g ++ (p ++ t) := by
  intro h
  rcases List.prefix_or_prefix_of_prefix h (List.prefix_append g (p ++ t)) with hpg | hgp
  · exact hg hpg.isInfix
  · obtain ⟨q, rfl⟩ := hgp
    have hq : q <+: (g ++ q) ++ t := (List.prefix_append_right_inj g).mp h
    have hqp : q <+: g ++ q :=
      List.prefix_of_prefix_length_le hq (List.prefix_append _ _) (by simp)
    rcases hp q hqp (List.suffix_append g q) with rfl | hsame
    · exact hg (by simp)
    · exact hne (List.append_left_eq_self.mp hsame.symm)

theorem piecesAfter_skip (p s t : Text) : piecesAfter p s.length (s ++ t) = piecesAfter p 0 t := by
  induction s with
  | nil => rfl
  | cons c s ih => simpa [piecesAfter] using ih

theorem piecesAfter_self {p : Text} (hne : p ≠ []) (t : Text) :
    piecesAfter p 0 (p ++ t) = [] :: piecesAfter p 0 t := by
  cases p with
  | nil => exact absurd rfl hne
  | cons c p =>
    have hpre : (c :: p).isPrefixOf (c :: (p ++ t)) = true := by
      rw [List.isPrefixOf_iff_prefix]
      exact List.prefix_append (c :: p) t
    rw [List.cons_append, piecesAfter, if_pos hpre]
    exact congrArg _ (piecesAfter_skip (c :: p) p t)

theorem piecesAfter_cons {p : Text} {c : Char} {t : Text} (h : ¬ p <+: c :: t) {piece : Text}
    {rest : List Text} (ht : piecesAfter p 0 t = piece :: rest) :
    piecesAfter p 0 (c :: t) = (c :: piece) :: rest := by
  have hpre : ¬ p.isPrefixOf (c :: t) = true := by rwa [List.isPrefixOf_iff_prefix]
  rw [piecesAfter, if_neg hpre, ht]

theorem piecesAfter_gap {p g : Text} (hp : Unbordered p) (hg : ¬ p <:+: g) (t : Text) :
    piecesAfter p 0 (g ++ (p ++ t)) = g :: piecesAfter p 0 t := by
  induction g with
  | nil => exact piecesAfter_self (ne_nil_of_free hg) t
  | cons c g ih =>
    exact piecesAfter_cons (not_prefix_gap hp hg (by simp))
      (ih (free_of_isInfix (List.suffix_cons c g).isInfix hg))

theorem piecesAfter_free {p t : Text} (h : ¬ p <:+: t) : piecesAfter p 0 t = [t] := by
  induction t with
  | nil => rfl
  | cons c t ih =>
    exact piecesAfter_cons (fun hpre => h hpre.isInfix)
      (ih (free_of_isInfix (List.suffix_cons c t).isInfix h))

theorem pieces_eq {p : Text} (hne : p ≠ []) (t : Text) : pieces p t = piecesAfter p 0 t := by
  simp [pieces, hne]

theorem pieces_free {p t : Text} (h : ¬ p <:+: t) : pieces p t = [t] := by
  rw [pieces_eq (ne_nil_of_free h), piecesAfter_free h]

theorem pieces_gap {p g : Text} (hp : Unbordered p) (hg : ¬ p <:+: g) (t : Text) :
    pieces p (g ++ (p ++ t)) = g :: pieces p t := by
  rw [pieces_eq (ne_nil_of_free hg), pieces_eq (ne_nil_of_free hg), piecesAfter_gap hp hg]

theorem pieces_ne_nil (p t : Text) : pieces p t ≠ [] := by
  rw [pieces]
  split
  · simp
  · exact piecesAfter_ne_nil p 0 t

theorem occurrences_free {p t : Text} (h : ¬ p <:+: t) : occurrences p t = 0 := by
  simp [occurrences, pieces_free h]

theorem occurrences_gap {p g : Text} (hp : Unbordered p) (hg : ¬ p <:+: g) (t : Text) :
    occurrences p (g ++ (p ++ t)) = occurrences p t + 1 := by
  have hpos : 0 < (pieces p t).length := List.length_pos_iff.mpr (pieces_ne_nil p t)
  simp only [occurrences, pieces_gap hp hg, List.length_cons]
  omega

theorem refill_cons {rest : List Text} (hne : rest ≠ []) (p piece filling : Text)
    (fillings : List Text) :
    refill p (piece :: rest) (filling :: fillings) =
      piece ++ (filling ++ refill p rest fillings) := by
  cases rest with
  | nil => exact absurd rfl hne
  | cons next rest => simp [refill]

theorem refill_gap {p g : Text} (hp : Unbordered p) (hg : ¬ p <:+: g) (t filling : Text)
    (fillings : List Text) :
    refill p (pieces p (g ++ (p ++ t))) (filling :: fillings) =
      g ++ (filling ++ refill p (pieces p t) fillings) := by
  rw [pieces_gap hp hg, refill_cons (pieces_ne_nil p t)]

theorem refill_free {p t : Text} (h : ¬ p <:+: t) (fillings : List Text) :
    refill p (pieces p t) fillings = t := by
  simp [pieces_free h, refill]

end Text
end ChunkTree

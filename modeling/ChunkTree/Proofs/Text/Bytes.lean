import ChunkTree.Text.Basic

namespace ChunkTree
namespace Text

theorem byteLength_eq_zero {t : Text} (h : byteLength t = 0) : t = [] := by
  cases t with
  | nil => rfl
  | cons c t =>
    have := c.utf8Size_pos
    rw [byteLength_cons] at h
    omega

theorem isPrefix_of_byteLength_le {s t u : Text} (hs : s <+: u) (ht : t <+: u)
    (h : byteLength s ≤ byteLength t) : s <+: t := by
  rcases List.prefix_or_prefix_of_prefix hs ht with hst | ⟨r, rfl⟩
  · exact hst
  · have hr : r = [] := byteLength_eq_zero (by rw [byteLength_append] at h; omega)
    simp [hr]

theorem byteLength_le_of_isPrefix {s t : Text} (h : s <+: t) : byteLength s ≤ byteLength t := by
  obtain ⟨r, rfl⟩ := h
  rw [byteLength_append]
  omega

theorem splitAtByte?_of_isPrefix {s t : Text} (h : s <+: t) :
    ∃ r, splitAtByte? (byteLength s) t = some (s, r) := by
  obtain ⟨r, rfl⟩ := h
  exact ⟨r, splitAtByte?_append s r⟩

theorem splitAtByte?_behind (before middle after : Text) :
    splitAtByte? (byteLength before + byteLength middle) (before ++ (middle ++ after)) =
      some (before ++ middle, after) := by
  rw [← byteLength_append, ← List.append_assoc]
  exact splitAtByte?_append _ _

theorem isPrefix_of_splitAtByte? {n : Nat} {t s r : Text} (h : splitAtByte? n t = some (s, r)) :
    s <+: t := by
  obtain ⟨rfl, -⟩ := splitAtByte?_eq_some h
  exact List.prefix_append s r

end Text
end ChunkTree

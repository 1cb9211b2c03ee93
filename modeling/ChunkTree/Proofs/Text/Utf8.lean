import ChunkTree.Proofs.Text.Bytes

/-!
Texts in their UTF-8 form. The first byte of a character is told from its further bytes, so the bytes
of a text that is not empty stand in those of another text only where whole characters do.
-/

namespace ChunkTree
namespace Text

def utf8 (t : Text) : List UInt8 := t.flatMap String.utf8EncodeChar

@[simp] theorem utf8_cons (c : Char) (t : Text) :
    utf8 (c :: t) = String.utf8EncodeChar c ++ utf8 t :=
  List.flatMap_cons

@[simp] theorem utf8_append (s t : Text) : utf8 (s ++ t) = utf8 s ++ utf8 t := List.flatMap_append

@[simp] theorem length_utf8 (t : Text) : (utf8 t).length = byteLength t := by
  induction t with
  | nil => rfl
  | cons c t ih => rw [utf8_cons, List.length_append, String.length_utf8EncodeChar, ih, byteLength_cons]

theorem drop_utf8 (s t : Text) : (utf8 (s ++ t)).drop (byteLength s) = utf8 t := by
  rw [utf8_append, ← length_utf8, List.drop_left]

theorem isPrefix_of_utf8 {s t : Text} (h : utf8 s <+: utf8 t) : s <+: t := by
  obtain ⟨bytes, hbytes⟩ := h
  apply List.isPrefix_of_utf8Encode_append_eq_utf8Encode bytes.toByteArray
  rw [List.utf8Encode, List.utf8Encode, ← List.toByteArray_append]
  exact congrArg List.toByteArray hbytes

def Boundary (t : Text) (n : Nat) : Prop :=
  n = byteLength t ∨ ∃ byte ∈ (utf8 t)[n]?, byte.IsUTF8FirstByte

theorem boundary_cons_add (c : Char) (t : Text) (n : Nat) :
    Boundary (c :: t) (c.utf8Size + n) ↔ Boundary t n := by
  have hbyte : (utf8 (c :: t))[c.utf8Size + n]? = (utf8 t)[n]? := by
    rw [utf8_cons, List.getElem?_append_right (by simp), String.length_utf8EncodeChar,
      Nat.add_sub_cancel_left]
  rw [Boundary, Boundary, hbyte, byteLength_cons, Nat.add_left_cancel_iff]

theorem boundary_cons_lt {c : Char} {n : Nat} (h : n < c.utf8Size) (t : Text) :
    Boundary (c :: t) n ↔ n = 0 := by
  have hlt : n < (String.utf8EncodeChar c).length := by rwa [String.length_utf8EncodeChar]
  have hbyte : (utf8 (c :: t))[n]? = some (String.utf8EncodeChar c)[n] := by
    rw [utf8_cons, List.getElem?_append_left hlt, List.getElem?_eq_getElem hlt]
  have hend : n ≠ byteLength (c :: t) := by
    rw [byteLength_cons]
    omega
  have hzero : (String.utf8EncodeChar c)[n].IsUTF8FirstByte ↔ n = 0 :=
    UInt8.isUTF8FirstByte_getElem_utf8EncodeChar
  rw [Boundary, hbyte, ← hzero]
  constructor
  · rintro (hlast | ⟨byte, hmem, hfirst⟩)
    · exact absurd hlast hend
    · rwa [Option.some.inj hmem]
  · intro hfirst
    exact .inr ⟨_, rfl, hfirst⟩

theorem boundary_iff {t : Text} {n : Nat} :
    Boundary t n ↔ ∃ before, before <+: t ∧ byteLength before = n := by
  induction t generalizing n with
  | nil => simp [Boundary, utf8, eq_comm]
  | cons c t ih =>
    by_cases hn : n < c.utf8Size
    · rw [boundary_cons_lt hn]
      constructor
      · rintro rfl
        exact ⟨[], List.nil_prefix, rfl⟩
      · rintro ⟨before, hbefore, rfl⟩
        rcases List.prefix_cons_iff.mp hbefore with rfl | ⟨s, rfl, -⟩
        · rfl
        · rw [byteLength_cons] at hn
          omega
    · obtain ⟨m, rfl⟩ := Nat.exists_eq_add_of_le (Nat.le_of_not_lt hn)
      rw [boundary_cons_add, ih]
      constructor
      · rintro ⟨before, hbefore, rfl⟩
        exact ⟨c :: before, List.cons_prefix_cons.mpr ⟨rfl, hbefore⟩, byteLength_cons c before⟩
      · rintro ⟨before, hbefore, hlength⟩
        rcases List.prefix_cons_iff.mp hbefore with rfl | ⟨s, rfl, hs⟩
        · have := c.utf8Size_pos
          rw [byteLength_nil] at hlength
          omega
        · exact ⟨s, hs, by rw [byteLength_cons] at hlength; omega⟩

theorem boundary_append (s t : Text) : Boundary (s ++ t) (byteLength s) :=
  boundary_iff.mpr ⟨s, List.prefix_append s t, rfl⟩

theorem boundary_of_splitAtByte? {n : Nat} {t before after : Text}
    (h : splitAtByte? n t = some (before, after)) : Boundary t n := by
  obtain ⟨rfl, rfl⟩ := splitAtByte?_eq_some h
  exact boundary_append before after

def StandsAt (needle t : Text) (n : Nat) : Prop := utf8 needle <+: (utf8 t).drop n

theorem standsAt_append (before needle after : Text) :
    StandsAt needle (before ++ (needle ++ after)) (byteLength before) := by
  rw [StandsAt, drop_utf8, utf8_append]
  exact List.prefix_append _ _

theorem boundary_of_standsAt {needle t : Text} {n : Nat} (hne : needle ≠ [])
    (h : StandsAt needle t n) : Boundary t n := by
  obtain ⟨c, needle, rfl⟩ := List.exists_cons_of_ne_nil hne
  have hpos : 0 < (String.utf8EncodeChar c).length := by
    rw [String.length_utf8EncodeChar]
    exact c.utf8Size_pos
  have hfirst : (utf8 (c :: needle))[0]? = some (String.utf8EncodeChar c)[0] := by
    rw [utf8_cons, List.getElem?_append_left hpos, List.getElem?_eq_getElem hpos]
  obtain ⟨bytes, hbytes⟩ := h
  have hbyte : (utf8 t)[n]? = some (String.utf8EncodeChar c)[0] := by
    rw [← Nat.add_zero n, ← List.getElem?_drop, ← hbytes, List.getElem?_append_left, hfirst]
    simpa using Nat.lt_of_lt_of_le hpos (Nat.le_add_right _ _)
  exact .inr ⟨_, hbyte, UInt8.isUTF8FirstByte_getElem_zero_utf8EncodeChar⟩

theorem standsAt_iff {needle t : Text} {n : Nat} (hne : needle ≠ []) :
    StandsAt needle t n ↔
      ∃ before after, t = before ++ (needle ++ after) ∧ byteLength before = n := by
  constructor
  · intro h
    obtain ⟨before, ⟨rest, rfl⟩, rfl⟩ := boundary_iff.mp (boundary_of_standsAt hne h)
    rw [StandsAt, drop_utf8] at h
    obtain ⟨after, rfl⟩ := isPrefix_of_utf8 h
    exact ⟨before, after, rfl, rfl⟩
  · rintro ⟨before, after, rfl, rfl⟩
    exact standsAt_append before needle after

end Text
end ChunkTree

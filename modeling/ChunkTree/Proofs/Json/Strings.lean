import ChunkTree.Json.Strings
import ChunkTree.Json.Writer

namespace ChunkTree
namespace Json

variable {l : List Char} {r : Text}

theorem hexUnit?_low : ∀ n < 0x10, hexUnit? ['0', '0', '0', Nat.digitChar n] = some n := by decide

theorem hexUnit?_high : ∀ n < 0x10, hexUnit? ['0', '0', '1', Nat.digitChar n] = some (0x10 + n) := by
  decide

theorem readStringAfter?_unit {a b c d : Char} {n : Nat} (h : hexUnit? [a, b, c, d] = some n)
    (hn : n < 0x20) :
    readStringAfter? (some ⟨l, none⟩) ('\\' :: 'u' :: a :: b :: c :: d :: r) =
      readStringAfter? (some ⟨Char.ofNat n :: l, none⟩) r := by
  have hhigh : isHighSurrogate n = false := by
    rw [isHighSurrogate, Bool.and_eq_false_iff, decide_eq_false_iff_not]
    exact .inl (by omega)
  have hlow : isLowSurrogate n = false := by
    rw [isLowSurrogate, Bool.and_eq_false_iff, decide_eq_false_iff_not]
    exact .inl (by omega)
  rw [readStringAfter?, h]
  simp [Spelling.addUnit?, hhigh, hlow]

theorem readStringAfter?_escape {c e : Char} (h : simpleEscape? c = some e) (hc : c ≠ 'u') :
    readStringAfter? (some ⟨l, none⟩) ('\\' :: c :: r) =
      readStringAfter? (some ⟨e :: l, none⟩) r := by
  rw [readStringAfter?]
  · simp [h, Spelling.addChar?]
  · rintro a b x y t hu -
    exact hc hu

theorem readStringAfter?_plain {c : Char} (hquote : c ≠ '"') (hslash : c ≠ '\\')
    (hc : 0x20 ≤ c.toNat) :
    readStringAfter? (some ⟨l, none⟩) (c :: r) = readStringAfter? (some ⟨c :: l, none⟩) r := by
  rw [readStringAfter?]
  · simp [hquote, hslash, Nat.not_lt.mpr hc, Spelling.addChar?]
  · rintro a b x y t hu -
    exact hslash hu
  · rintro a t hu -
    exact hslash hu

theorem readStringAfter?_escapedChar (c : Char) :
    readStringAfter? (some ⟨l, none⟩) (escapedChar c ++ r) =
      readStringAfter? (some ⟨c :: l, none⟩) r := by
  rw [escapedChar]
  -- the characters whose escape is a letter or a sign
  iterate 7
    split
    · subst c
      exact readStringAfter?_escape rfl (by decide)
  split
  · rename_i hlow
    have hunit := readStringAfter?_unit (l := l) (r := r) (hexUnit?_low c.toNat hlow) (by omega)
    rw [Char.ofNat_toNat] at hunit
    rw [Text.hexadecimal, Nat.toDigits_of_lt_base hlow]
    exact hunit
  split
  · rename_i hlow hhigh
    have hdigits : Text.hexadecimal c.toNat = ['1', Nat.digitChar (c.toNat - 0x10)] := by
      rw [Text.hexadecimal, Nat.toDigits_of_base_le (by decide) (by omega)]
      have hquotient : c.toNat / 16 = 1 := by omega
      have hremainder : c.toNat % 16 = c.toNat - 0x10 := by omega
      rw [hquotient, hremainder]
      rfl
    have hunit := readStringAfter?_unit (l := l) (r := r)
      (hexUnit?_high (c.toNat - 0x10) (by omega)) (by omega)
    rw [show 0x10 + (c.toNat - 0x10) = c.toNat by omega, Char.ofNat_toNat] at hunit
    rw [hdigits]
    exact hunit
  · rename_i hquote hslash _ _ _ _ _ _ hcontrol
    exact readStringAfter?_plain hquote hslash (Nat.not_lt.mp hcontrol)

theorem readStringAfter?_escaped (t : Text) :
    readStringAfter? (some ⟨l, none⟩) (t.flatMap escapedChar ++ '"' :: r) =
      some (some (l.reverse ++ t), r) := by
  induction t generalizing l with
  | nil => simp [readStringAfter?, Spelling.text?]
  | cons c t ih =>
    rw [List.flatMap_cons, List.append_assoc, readStringAfter?_escapedChar, ih, List.reverse_cons,
      List.append_assoc]
    rfl

theorem readString?_escaped (t : Text) :
    readString? (t.flatMap escapedChar ++ '"' :: r) = some (some t, r) :=
  readStringAfter?_escaped t

end Json
end ChunkTree

/-!
Texts as lists of characters. Lengths and offsets that leave the library are counted in bytes of the
UTF-8 form, so a position inside a character is no position of the text.
-/

namespace ChunkTree

abbrev Text := List Char

namespace Text

def byteLength : Text → Nat
  | [] => 0
  | c :: t => c.utf8Size + byteLength t

@[simp] theorem byteLength_nil : byteLength [] = 0 := rfl

@[simp] theorem byteLength_cons (c : Char) (t : Text) :
    byteLength (c :: t) = c.utf8Size + byteLength t := rfl

@[simp] theorem byteLength_append (s t : Text) :
    byteLength (s ++ t) = byteLength s + byteLength t := by
  induction s with
  | nil => simp
  | cons c s ih => simp [ih, Nat.add_assoc]

def splitAtByte? : Nat → Text → Option (Text × Text)
  | 0, t => some ([], t)
  | _ + 1, [] => none
  | n + 1, c :: t =>
    if c.utf8Size ≤ n + 1 then
      (splitAtByte? (n + 1 - c.utf8Size) t).map (fun (before, after) => (c :: before, after))
    else none

theorem splitAtByte?_eq_some {n : Nat} {t before after : Text}
    (h : splitAtByte? n t = some (before, after)) :
    t = before ++ after ∧ byteLength before = n := by
  induction t generalizing n before after with
  | nil =>
    cases n with
    | zero => simp_all [splitAtByte?]
    | succ n => simp [splitAtByte?] at h
  | cons c t ih =>
    cases n with
    | zero => simp_all [splitAtByte?]
    | succ n =>
      rw [splitAtByte?] at h
      split at h
      · obtain ⟨⟨b, a⟩, hb, he⟩ := Option.map_eq_some_iff.mp h
        obtain ⟨rfl, hn⟩ := ih hb
        simp only [Prod.mk.injEq] at he
        obtain ⟨rfl, rfl⟩ := he
        exact ⟨rfl, by rw [byteLength_cons, hn]; omega⟩
      · simp at h

theorem splitAtByte?_append (s t : Text) : splitAtByte? (byteLength s) (s ++ t) = some (s, t) := by
  induction s with
  | nil => cases t <;> rfl
  | cons c s ih =>
    obtain ⟨n, hn⟩ : ∃ n, byteLength (c :: s) = n + 1 :=
      ⟨byteLength (c :: s) - 1, by have := c.utf8Size_pos; rw [byteLength_cons]; omega⟩
    have hs : n + 1 - c.utf8Size = byteLength s := by rw [← hn, byteLength_cons]; omega
    have hc : c.utf8Size ≤ n + 1 := by rw [← hn, byteLength_cons]; omega
    simp [hn, splitAtByte?, hc, hs, ih]

def decimal (n : Nat) : Text := Nat.toDigits 10 n

def hexadecimal (n : Nat) : Text := Nat.toDigits 16 n

end Text
end ChunkTree

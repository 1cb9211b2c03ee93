import ChunkTree.Proofs.Text.Order
import ChunkTree.Proofs.Text.Utf8

namespace ChunkTree
namespace Text

variable {t needle before after : Text} {start i : Nat}

theorem ne_nil_of_cutAt? (h : cutAt? needle t = some (before, after)) : needle ≠ [] := by
  rintro rfl
  simp [cutAt?] at h

theorem byteLength_le_of_cutAt? (h : cutAt? needle t = some (before, after)) {front behind : Text}
    (ht : t = front ++ (needle ++ behind)) : byteLength before ≤ byteLength front := by
  have hend : needle ++ behind <:+ t := ⟨front, ht.symm⟩
  obtain ⟨gap, rest, hcut, ⟨between, hrest⟩⟩ := cutAt?_of_suffix (ne_nil_of_cutAt? h) hend
  rw [h, Option.some.injEq, Prod.mk.injEq] at hcut
  obtain ⟨rfl, rfl⟩ := hcut
  have hlengths := congrArg byteLength (cutAt?_eq_append h)
  rw [ht, ← hrest] at hlengths
  simp only [byteLength_append] at hlengths
  omega

theorem locate?_append (front tail needle : Text) :
    locate? (front ++ tail) (byteLength front) needle =
      (cutAt? needle tail).map fun cut => byteLength front + byteLength cut.1 := by
  rw [locate?, splitAtByte?_append]
  change (cutAt? needle tail).bind (fun cut => some (byteLength front + byteLength cut.1)) = _
  cases cutAt? needle tail <;> rfl

theorem locate?_eq_some (h : locate? t start needle = some i) :
    ∃ front before after, t = front ++ (before ++ (needle ++ after)) ∧ byteLength front = start ∧
      cutAt? needle (before ++ (needle ++ after)) = some (before, after) ∧
      byteLength (front ++ before) = i := by
  obtain ⟨⟨front, tail⟩, hsplit, hfound⟩ := Option.bind_eq_some_iff.mp h
  obtain ⟨rfl, rfl⟩ := splitAtByte?_eq_some hsplit
  rw [locate?_append] at h
  obtain ⟨⟨before, after⟩, hcut, rfl⟩ := Option.map_eq_some_iff.mp h
  obtain rfl : tail = before ++ (needle ++ after) := by
    rw [cutAt?_eq_append hcut, List.append_assoc]
  exact ⟨front, before, after, rfl, rfl, hcut, byteLength_append front before⟩

theorem isSome_locate? (hne : needle ≠ []) (hstart : Boundary t start) (hle : start ≤ i)
    (hstands : StandsAt needle t i) : ∃ k, locate? t start needle = some k := by
  obtain ⟨front, hfront, rfl⟩ := boundary_iff.mp hstart
  obtain ⟨before, after, rfl, rfl⟩ := (standsAt_iff hne).mp hstands
  obtain ⟨gap, rfl⟩ := isPrefix_of_byteLength_le hfront (List.prefix_append _ _) hle
  have hend : needle ++ after <:+ gap ++ (needle ++ after) := List.suffix_append _ _
  obtain ⟨before, rest, hcut, -⟩ := cutAt?_of_suffix hne hend
  rw [List.append_assoc, locate?_append, hcut]
  exact ⟨_, rfl⟩

theorem locate?_least (h : locate? t start needle = some i) :
    needle ≠ [] ∧ Boundary t start ∧ start ≤ i ∧ StandsAt needle t i ∧
      ∀ j, start ≤ j → j < i → ¬ StandsAt needle t j := by
  obtain ⟨front, before, after, rfl, rfl, hcut, rfl⟩ := locate?_eq_some h
  have hne := ne_nil_of_cutAt? hcut
  refine ⟨hne, boundary_append front _, by simp, ?_, fun j hj hlt hstands => ?_⟩
  · rw [← List.append_assoc]
    exact standsAt_append _ needle after
  · obtain ⟨front', after', ht, rfl⟩ := (standsAt_iff hne).mp hstands
    -- an occurrence behind the start lies in what was searched
    have hfront : front <+: front ++ (before ++ (needle ++ after)) := List.prefix_append _ _
    obtain ⟨gap, rfl⟩ := isPrefix_of_byteLength_le hfront ⟨_, ht.symm⟩ hj
    rw [List.append_assoc, List.append_cancel_left_eq] at ht
    have hfirst := byteLength_le_of_cutAt? hcut ht
    simp only [byteLength_append] at hlt
    omega

theorem locate?_eq_some_iff :
    locate? t start needle = some i ↔
      needle ≠ [] ∧ Boundary t start ∧ start ≤ i ∧ StandsAt needle t i ∧
        ∀ j, start ≤ j → j < i → ¬ StandsAt needle t j := by
  constructor
  · exact locate?_least
  · rintro ⟨hne, hstart, hle, hstands, hleast⟩
    obtain ⟨k, hk⟩ := isSome_locate? hne hstart hle hstands
    obtain ⟨-, -, hkle, hkstands, hkleast⟩ := locate?_least hk
    -- two least offsets are the same
    rcases Nat.lt_trichotomy k i with hlt | rfl | hgt
    · exact absurd hkstands (hleast k hkle hlt)
    · exact hk
    · exact absurd hstands (hkleast i hle hgt)

theorem splitAtByte?_of_locate? (h : locate? t start needle = some i) :
    ∃ before after, splitAtByte? i t = some (before, needle ++ after) ∧
      splitAtByte? (i + byteLength needle) t = some (before ++ needle, after) := by
  obtain ⟨front, before, after, rfl, -, -, rfl⟩ := locate?_eq_some h
  rw [← List.append_assoc]
  exact ⟨_, after, splitAtByte?_append _ _, splitAtByte?_behind _ needle after⟩

def replaceRange? (start stop : Nat) (replacement t : Text) : Option Text := do
  let (before, _) ← splitAtByte? start t
  let (_, after) ← splitAtByte? stop t
  return before ++ (replacement ++ after)

theorem replaceRange?_append (before old after replacement : Text) :
    replaceRange? (byteLength before) (byteLength before + byteLength old) replacement
      (before ++ (old ++ after)) = some (before ++ (replacement ++ after)) := by
  rw [replaceRange?, splitAtByte?_append, splitAtByte?_behind]
  rfl

theorem replaceRange?_behind (front gap old after replacement : Text) :
    replaceRange? (byteLength front + byteLength gap)
      (byteLength front + byteLength gap + byteLength old) replacement
      (front ++ (gap ++ (old ++ after))) = some (front ++ (gap ++ (replacement ++ after))) := by
  have h := replaceRange?_append (front ++ gap) old after replacement
  simpa only [byteLength_append, List.append_assoc] using h

theorem replaceFirst_eq (t needle replacement : Text) :
    some (replaceFirst t needle replacement) =
      match locate? t 0 needle with
      | some i => replaceRange? i (i + byteLength needle) replacement t
      | none => some t := by
  have hlocate := locate?_append [] t needle
  rw [List.nil_append, byteLength_nil] at hlocate
  rw [replaceFirst, hlocate]
  cases hcut : cutAt? needle t with
  | none => rfl
  | some cut =>
    obtain ⟨before, after⟩ := cut
    have ht := cutAt?_eq_append hcut
    rw [List.append_assoc] at ht
    simp only [Option.map_some, Nat.zero_add]
    rw [ht, replaceRange?_append, List.append_assoc]

theorem literal_search_exact (haystack needle replacement : Text) (start : Nat) :
    (∀ i, locate? haystack start needle = some i ↔
      needle ≠ [] ∧ Boundary haystack start ∧ start ≤ i ∧ StandsAt needle haystack i ∧
        ∀ j, start ≤ j → j < i → ¬ StandsAt needle haystack j) ∧
    (∀ i, locate? haystack start needle = some i →
      Boundary haystack i ∧ Boundary haystack (i + byteLength needle) ∧
      ∃ before after, splitAtByte? i haystack = some (before, needle ++ after) ∧
        splitAtByte? (i + byteLength needle) haystack = some (before ++ needle, after)) ∧
    some (replaceFirst haystack needle replacement) =
      match locate? haystack 0 needle with
      | some i => replaceRange? i (i + byteLength needle) replacement haystack
      | none => some haystack := by
  refine ⟨fun i => locate?_eq_some_iff, fun i h => ?_, replaceFirst_eq haystack needle replacement⟩
  obtain ⟨before, after, hbegin, hend⟩ := splitAtByte?_of_locate? h
  exact ⟨boundary_of_splitAtByte? hbegin, boundary_of_splitAtByte? hend, before, after, hbegin, hend⟩

theorem literal_search_exact_overlapping :
    StandsAt "aba".toList "éababa".toList 4 ∧ Boundary "éababa".toList 7 ∧
      (∀ j, 3 ≤ j → j < 4 → ¬ StandsAt "aba".toList "éababa".toList j) ∧
      locate? "éababa".toList 1 "aba".toList = none ∧ ¬ Boundary "éababa".toList 1 ∧
      some (replaceFirst "éababa".toList "aba".toList ".*".toList) =
        replaceRange? 2 5 ".*".toList "éababa".toList := by
  obtain ⟨hiff, hsplit, -⟩ := literal_search_exact "éababa".toList "aba".toList [] 3
  obtain ⟨-, -, -, hstands, hleast⟩ := (hiff 4).mp rfl
  obtain ⟨-, hend, -⟩ := hsplit 4 rfl
  obtain ⟨-, -, hreplaced⟩ := literal_search_exact "éababa".toList "aba".toList ".*".toList 0
  refine ⟨hstands, hend, hleast, rfl, ?_, hreplaced⟩
  exact fun h => Nat.one_ne_zero ((boundary_cons_lt (by decide) _).mp h)

end Text
end ChunkTree

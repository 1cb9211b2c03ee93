import ChunkTree.Text.Basic

namespace ChunkTree
namespace Text

def blankRanges : List (Nat × Nat) :=
  [(0x09, 0x0D), (0x20, 0x20), (0x85, 0x85), (0xA0, 0xA0), (0x1680, 0x1680), (0x2000, 0x200A),
   (0x2028, 0x2029), (0x202F, 0x202F), (0x205F, 0x205F), (0x3000, 0x3000)]

def isBlank (c : Char) : Bool :=
  blankRanges.any (fun (low, high) => low ≤ c.toNat && c.toNat ≤ high)

def trimStart (t : Text) : Text := t.dropWhile isBlank

def trimEnd : Text → Text
  | [] => []
  | c :: t =>
    match trimEnd t with
    | [] => if isBlank c then [] else [c]
    | d :: r => c :: d :: r

def trim (t : Text) : Text := trimEnd (trimStart t)

def beforeLastBlank? : Text → Option Text
  | [] => none
  | c :: t =>
    match beforeLastBlank? t with
    | some before => some (c :: before)
    | none => if isBlank c then some [] else none

theorem beforeLastBlank?_eq_none {t : Text} :
    beforeLastBlank? t = none ↔ ∀ c ∈ t, isBlank c = false := by
  induction t with
  | nil => simp [beforeLastBlank?]
  | cons c t ih =>
    rw [beforeLastBlank?]
    cases h : beforeLastBlank? t with
    | some before =>
      simp only [reduceCtorEq, false_iff]
      intro hall
      rw [ih.mpr (fun d hd => hall d (List.mem_cons_of_mem c hd))] at h
      cases h
    | none =>
      cases hc : isBlank c with
      | true => simp [hc]
      | false => simpa [hc] using ih.mp h

end Text
end ChunkTree

import ChunkTree.Oracle.Metric
import ChunkTree.Text.Blank

/-!
Cutting a text down to a budget. A cut keeps a first part of the text and never divides a character.
-/

namespace ChunkTree

inductive Truncation where
  /-- The longest first part that fits. -/
  | hard
  /-- The longest first part that fits, taken back to the last white space in it. -/
  | wordBoundary
deriving DecidableEq, Repr

namespace Truncation

def all : List Truncation := [hard, wordBoundary]

def name : Truncation → Text
  | hard => "hard".toList
  | wordBoundary => "word_boundary".toList

def ofName? (name : Text) : Option Truncation := all.find? (fun t => t.name == name)

/-- Bisection between a length `low` that fits and a length `high` that does not. Each step shortens
the gap, so a gap of `steps` at most is closed. -/
def bisect (fits : Nat → Bool) : Nat → Nat → Nat → Nat
  | 0, low, _ => low
  | steps + 1, low, high =>
    if high - low ≤ 1 then low
    else
      let mid := low + (high - low) / 2
      if fits mid then bisect fits steps mid high else bisect fits steps low mid

theorem bisect_fits {fits : Nat → Bool} {steps low high : Nat} (h : fits low = true) :
    fits (bisect fits steps low high) = true := by
  induction steps generalizing low high with
  | zero => exact h
  | succ steps ih =>
    simp only [bisect]
    split
    · exact h
    · split
      · rename_i hm
        exact ih hm
      · exact ih h

def hardLength (measure : Metric) (budget : Nat) (t : Text) : Nat :=
  bisect (fun n => measure (t.take n) ≤ budget) t.length 0 t.length

/-- Back to the last white space, unless the text begins with it or has none. -/
def backToWord (t : Text) : Text :=
  match Text.beforeLastBlank? t with
  | some (c :: before) => Text.trimEnd (c :: before)
  | _ => t

def shrink (measure : Metric) (budget : Nat) (t : Text) : Nat → Text
  | 0 => []
  | n + 1 =>
    if measure (t.take (n + 1)) ≤ budget then t.take (n + 1) else shrink measure budget t n

theorem shrink_isPrefix (measure : Metric) (budget : Nat) (t : Text) (n : Nat) :
    ∃ rest, t = shrink measure budget t n ++ rest := by
  induction n with
  | zero => exact ⟨t, rfl⟩
  | succ n ih =>
    rw [shrink]
    split
    · exact ⟨t.drop (n + 1), (List.take_append_drop _ _).symm⟩
    · exact ih

def cut (strategy : Truncation) (measure : Metric) (budget : Nat) (t : Text) : Text :=
  if measure t ≤ budget then t
  else
    let fitting := t.take (hardLength measure budget t)
    let backed :=
      match strategy with
      | hard => fitting
      | wordBoundary => backToWord fitting
    shrink measure budget backed backed.length

end Truncation
end ChunkTree

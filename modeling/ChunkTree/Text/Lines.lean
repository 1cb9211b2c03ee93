import ChunkTree.Text.Basic

/-!
Lines of a text and their indentation. A line ends at a line feed, which takes one carriage return
before it along; after the last line feed there is no further empty line.
-/

namespace ChunkTree
namespace Text

def lines : Text → List Text
  | [] => []
  | c :: t =>
    if c = '\n' then [] :: lines t
    else if c = '\r' ∧ t.head? = some '\n' then lines t
    else
      match lines t with
      | [] => [[c]]
      | line :: rest =>
        (c :: line) :: rest

theorem lines_eq_nil {t : Text} : lines t = [] ↔ t = [] := by
  induction t with
  | nil => simp [lines]
  | cons c t ih =>
    simp only [lines, reduceCtorEq, iff_false]
    split
    · simp
    · split
      · rename_i h
        intro hn
        rw [ih.mp hn] at h
        simp at h
      · split <;> simp

def indentation : Text := [' ', ' ', ' ', ' ']

def joinLines (parts : List Text) : Text := ['\n'].intercalate parts

def hang (t : Text) : Text := t.flatMap (fun c => if c = '\n' then '\n' :: indentation else [c])

def indent (t : Text) : Text := joinLines ((lines t).map (indentation ++ ·))

end Text
end ChunkTree

import ChunkTree.Text.Basic

/-!
What is left of a text where nothing may control the terminal. Control characters are left out, except
those of the layout, and so are the sequences that an escape character opens.
-/

namespace ChunkTree
namespace Text

def isLayout (c : Char) : Bool := c = '\t' || c = '\n' || c = '\x0c' || c = '\r'

def isBeyondAscii (c : Char) : Bool := 0x80 ≤ c.toNat

def isBetween (low high : Nat) (c : Char) : Bool := low ≤ c.toNat && c.toNat ≤ high

def isPrinted (c : Char) : Bool := isBetween 0x20 0x7E c || isLayout c || isBeyondAscii c

/-- The byte `9C` is the string terminator of the eight-bit controls. Inside a string it counts also as
a part of a longer character. -/
def holdsTerminator (c : Char) : Bool := (String.utf8EncodeChar c).contains 0x9C

inductive Sequence where
  | outside
  | escape
  | escapeTail
  | control
  | device
  | deviceParameters
  | deviceTail
  | string
  | title
deriving DecidableEq, Repr

namespace Sequence

def afterEscape (c : Char) : Sequence :=
  if c = '[' then control
  else if c = ']' then title
  else if c = 'P' then device
  else if c = 'X' || c = '^' || c = '_' then string
  else if isBetween 0x20 0x2F c then escapeTail
  else if isBetween 0x30 0x7E c then outside
  else escape

/-- An escape opens a sequence and a cancel or substitute ends one, wherever they stand. -/
def next (s : Sequence) (c : Char) : Sequence :=
  if c = '\x1b' then escape
  else if c = '\x18' || c = '\x1a' then outside
  else
    match s with
    | outside => outside
    | escape => afterEscape c
    | escapeTail => if isBetween 0x30 0x7E c then outside else escapeTail
    | control => if isBetween 0x40 0x7E c then outside else control
    | device =>
      if isBetween 0x20 0x2F c then deviceTail
      else if isBetween 0x30 0x3F c then deviceParameters
      else if isBetween 0x40 0x7E c then string
      else device
    | deviceParameters =>
      if isBetween 0x20 0x2F c then deviceTail
      else if isBetween 0x3C 0x7E c then string
      else deviceParameters
    | deviceTail => if isBetween 0x30 0x7E c then string else deviceTail
    | string => if holdsTerminator c then outside else string
    | title => if c = '\x07' then outside else title

/-- Layout is printed also between the parts of the short sequences. -/
def prints (s : Sequence) (c : Char) : Bool :=
  match s with
  | outside => isPrinted c
  | escape => isLayout c
  | escapeTail => isLayout c
  | control => isLayout c
  | _ => false

end Sequence

/-- What is printed of a text that begins within a sequence. Once layout was printed (`paused`) the
sequence goes on only at the next character that is never printed, and a character beyond ASCII ends
it before. -/
def printedWithin (s : Sequence) (paused : Bool) : Text → Text
  | [] => []
  | c :: t =>
    if paused && isPrinted c then
      c :: printedWithin (if isBeyondAscii c then .outside else s) true t
    else if s.prints c then c :: printedWithin (s.next c) true t
    else printedWithin (s.next c) false t

def printed (t : Text) : Text := printedWithin .outside false t

theorem isPrinted_of_prints {s : Sequence} {c : Char} (h : s.prints c = true) : isPrinted c = true := by
  cases s <;> simp_all [Sequence.prints, isPrinted]

theorem isPrinted_of_mem_printed {c : Char} {t : Text} (h : c ∈ printed t) : isPrinted c = true := by
  have within : ∀ t s paused, c ∈ printedWithin s paused t → isPrinted c = true := by
    intro t
    induction t with
    | nil => intro s paused h; simp [printedWithin] at h
    | cons d t ih =>
      intro s paused h
      rw [printedWithin] at h
      split at h
      · rename_i hd
        simp only [Bool.and_eq_true] at hd
        rcases List.mem_cons.mp h with rfl | h
        · exact hd.2
        · exact ih _ _ h
      · split at h
        · rename_i hd
          rcases List.mem_cons.mp h with rfl | h
          · exact isPrinted_of_prints hd
          · exact ih _ _ h
        · exact ih _ _ h
  exact within t .outside false h

theorem printed_of_isPrinted {t : Text} (h : ∀ c ∈ t, isPrinted c = true) : printed t = t := by
  have paused : ∀ t : Text, (∀ c ∈ t, isPrinted c = true) → ∀ s, printedWithin s true t = t := by
    intro t
    induction t with
    | nil => intro _ s; rfl
    | cons c t ih =>
      intro h s
      simp [printedWithin, h c List.mem_cons_self, ih (fun d hd => h d (List.mem_cons_of_mem c hd))]
  cases t with
  | nil => rfl
  | cons c t =>
    simp [printed, printedWithin, Sequence.prints, h c List.mem_cons_self,
      paused t (fun d hd => h d (List.mem_cons_of_mem c hd))]

end Text
end ChunkTree

import ChunkTree.Json.Number
import ChunkTree.Json.Strings

/-!
Reading JSON texts. Nothing beyond the grammar is accepted. A value whose brackets nest too deep and an
object with a name that has no text keep to the grammar, but are unreadable.
-/

namespace ChunkTree
namespace Json

def isSpace (c : Char) : Bool := c = ' ' || c = '\n' || c = '\r' || c = '\t'

def skipSpace (t : Text) : Text := t.dropWhile isSpace

def readWord? (word : String) (value : Json) (t : Text) : Option (Json × Text) :=
  if word.toList.isPrefixOf t then some (value, t.drop word.length) else none

def readScalar? : Text → Option (Json × Text)
  | '"' :: t => (readString? t).map (fun (s, t) => ((s.map string).getD unreadable, t))
  | 'n' :: t => readWord? "null" null ('n' :: t)
  | 't' :: t => readWord? "true" (bool true) ('t' :: t)
  | 'f' :: t => readWord? "false" (bool false) ('f' :: t)
  | t => readNumber? t

def readName? (t : Text) : Option (Option Text × Text) :=
  match skipSpace t with
  | '"' :: t =>
    match readString? t with
    | none => none
    | some (name, t) =>
      match skipSpace t with
      | ':' :: t => some (name, t)
      | _ => none
  | _ => none

inductive Bracket where
  | square
  | curly
deriving DecidableEq, Repr

namespace Bracket

def closing : Bracket → Char
  | square => ']'
  | curly => '}'

def entry? : Bracket → Text → Option Text
  | square, t => some t
  | curly, t => (readName? t).map Prod.snd

end Bracket

inductive Place where
  | opened
  | before
  | behind
deriving DecidableEq, Repr

/-- Passes over what is left inside open brackets, the innermost first. Out of two steps at least one
takes a character, so `fuel` is enough if it exceeds twice the length of the text. -/
def passOver? (fuel : Nat) (brackets : List Bracket) (place : Place) (t : Text) : Option Text :=
  match fuel, brackets with
  | _, [] => some t
  | 0, _ => none
  | fuel + 1, bracket :: outer =>
    match place, skipSpace t with
    | .before, '[' :: t => passOver? fuel (.square :: bracket :: outer) .opened t
    | .before, '{' :: t => passOver? fuel (.curly :: bracket :: outer) .opened t
    | .before, t =>
      match readScalar? t with
      | some (_, t) => passOver? fuel (bracket :: outer) .behind t
      | none => none
    | _, [] => none
    | place, c :: t =>
      if c = bracket.closing then passOver? fuel outer .behind t
      else
        match if place = .opened then bracket.entry? (c :: t)
          else if c = ',' then bracket.entry? t else none with
        | some t => passOver? fuel (bracket :: outer) .before t
        | none => none

def readNothing? (fuel : Nat) (bracket : Bracket) (t : Text) : Option (Json × Text) :=
  (passOver? fuel [bracket] .opened t).map (fun t => (unreadable, t))

mutual

/-- A value with at most `depth` brackets around any part of it that can be read. Each step takes a
character or ends, so twice the length of the text is `fuel` enough. -/
def readValue? (fuel depth : Nat) (t : Text) : Option (Json × Text) :=
  match fuel with
  | 0 => none
  | fuel + 1 =>
    match skipSpace t with
    | '[' :: t =>
      match depth with
      | 0 => readNothing? fuel .square t
      | depth + 1 =>
        match skipSpace t with
        | ']' :: t => some (array [], t)
        | t => readItems? fuel depth [] t
    | '{' :: t =>
      match depth with
      | 0 => readNothing? fuel .curly t
      | depth + 1 =>
        match skipSpace t with
        | '}' :: t => some (object [], t)
        | t => readFields? fuel depth (some []) t
    | t => readScalar? t

def readItems? (fuel depth : Nat) (read : List Json) (t : Text) : Option (Json × Text) :=
  match fuel with
  | 0 => none
  | fuel + 1 =>
    match readValue? fuel depth t with
    | none => none
    | some (item, t) =>
      match skipSpace t with
      | ',' :: t => readItems? fuel depth (item :: read) t
      | ']' :: t => some (array (item :: read).reverse, t)
      | _ => none

/-- The fields read so far are given up at the first name that has no text. -/
def readFields? (fuel depth : Nat) (read : Option (List (Text × Json))) (t : Text) :
    Option (Json × Text) :=
  match fuel with
  | 0 => none
  | fuel + 1 =>
    match readName? t with
    | none => none
    | some (name, t) =>
      match readValue? fuel depth t with
      | none => none
      | some (value, t) =>
        let read := read.bind (fun fields => name.map (fun name => (name, value) :: fields))
        match skipSpace t with
        | ',' :: t => readFields? fuel depth read t
        | '}' :: t => some ((read.map (fun fields => object fields.reverse)).getD unreadable, t)
        | _ => none

end

def read? (depth : Nat) (t : Text) : Option Json :=
  match readValue? (2 * t.length + 2) depth t with
  | some (value, rest) => if (skipSpace rest).isEmpty then some value else none
  | none => none

/-- Brackets nest this deep in the texts that a model is read from. -/
def modelDepth : Nat := 127

end Json
end ChunkTree

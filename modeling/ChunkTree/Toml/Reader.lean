import ChunkTree.Toml.Strings
import ChunkTree.Toml.Numbers

namespace ChunkTree
namespace Toml

def depthLimit : Nat := 80

def skipSpace (t : Text) : Text := t.dropWhile isSpace

def skipLoose (inComment : Bool) : Text → Text
  | [] => []
  | c :: t =>
    if c = '\n' then skipLoose false t
    else if c = '\r' ∧ t.head? = some '\n' then skipLoose inComment t
    else if inComment then if isPlain c then skipLoose true t else c :: t
    else if isSpace c then skipLoose false t
    else if c = '#' then skipLoose true t
    else c :: t

def isBareKeyChar (c : Char) : Bool := c.isAlphanum || c = '_' || c = '-'

def readSimpleKey? : Text → Option (Text × Text)
  | '"' :: t => readBasic? [] t
  | '\'' :: t => readLiteral? [] t
  | t =>
    match t.span isBareKeyChar with
    | ([], _) => none
    | (key, rest) => some (key, rest)

def readKeyParts? : Nat → List Text → Text → Option (List Text × Text × Text)
  | 0, _, _ => none
  | fuel + 1, read, t => do
    let (key, t) ← readSimpleKey? (skipSpace t)
    match skipSpace t with
    | '.' :: t => readKeyParts? fuel (key :: read) t
    | t => some (read.reverse, key, t)

def readKey? (t : Text) : Option (List Text × Text × Text) := readKeyParts? (depthLimit - 1) [] t

def readWord? (word : String) (value : Toml) (t : Text) : Option (Toml × Text) :=
  if word.toList.isPrefixOf t then some (value, t.drop word.length) else none

def isNumberStart (c : Char) : Bool :=
  Text.isDigit c || c = '+' || c = '-' || c = 'i' || c = 'n'

mutual

/-- A value with at most `depth` brackets around any part of it. Each step takes a character or ends,
so twice the length of the text is `fuel` enough. -/
def readValue? (fuel depth : Nat) (t : Text) : Option (Toml × Text) :=
  match fuel with
  | 0 => none
  | fuel + 1 =>
    match t with
    | [] => none
    | '[' :: t =>
      match depth with
      | 0 => none
      | depth + 1 =>
        match skipLoose false t with
        | ']' :: t => some (array [], t)
        | t => readItems? fuel depth [] t
    | '{' :: t =>
      match depth with
      | 0 => none
      | depth + 1 =>
        match skipSpace t with
        | '}' :: t => some (table .inline [], t)
        | t => readPairs? fuel depth [] t
    | 't' :: t => readWord? "true" (boolean true) ('t' :: t)
    | 'f' :: t => readWord? "false" (boolean false) ('f' :: t)
    | c :: t =>
      if isNumberStart c then
        match readMoment? (c :: t) with
        | some result => some result
        | none => readNumber? (c :: t)
      else (readString? (c :: t)).map (fun (s, t) => (string s, t))

def readItems? (fuel depth : Nat) (read : List Toml) (t : Text) : Option (Toml × Text) :=
  match fuel with
  | 0 => none
  | fuel + 1 =>
    match readValue? fuel depth t with
    | none => none
    | some (item, t) =>
      match skipLoose false t with
      | ']' :: t => some (array (item :: read).reverse, t)
      | ',' :: t =>
        match skipLoose false t with
        | ']' :: t => some (array (item :: read).reverse, t)
        | t => readItems? fuel depth (item :: read) t
      | _ => none

def readPairs? (fuel depth : Nat) (fields : Fields) (t : Text) : Option (Toml × Text) :=
  match fuel with
  | 0 => none
  | fuel + 1 =>
    match readKey? t with
    | some (path, key, '=' :: t) =>
      match readValue? fuel depth (skipSpace t) with
      | none => none
      | some (value, t) =>
        match insertDotted? key value path fields with
        | none => none
        | some fields =>
          match skipSpace t with
          | '}' :: t => some (table .inline fields, t)
          | ',' :: t => readPairs? fuel depth fields t
          | _ => none
    | _ => none

end

def readLineEnd? (t : Text) : Option Text :=
  let rest :=
    match skipSpace t with
    | '#' :: t => t.dropWhile isPlain
    | t => t
  match rest with
  | [] => some []
  | '\n' :: t => some t
  | '\r' :: '\n' :: t => some t
  | _ => none

/-- The document so far, and the path of the header that the next fields stand under. -/
structure Draft where
  fields : Fields
  path : List Text

def readHeader? (draft : Draft) (t : Text) : Option (Draft × Text) :=
  match t with
  | '[' :: t => do
    let (path, key, t) ← readKey? t
    let fields ← within? (pushTable? key) path draft.fields
    match t with
    | ']' :: ']' :: t => some (⟨fields, path ++ [key]⟩, t)
    | _ => none
  | t => do
    let (path, key, t) ← readKey? t
    let fields ← within? (openTable? key) path draft.fields
    match t with
    | ']' :: t => some (⟨fields, path ++ [key]⟩, t)
    | _ => none

def readPair? (draft : Draft) (t : Text) : Option (Draft × Text) :=
  match readKey? t with
  | some (path, key, '=' :: t) => do
    let (value, t) ← readValue? (2 * t.length + 2) (depthLimit - 1) (skipSpace t)
    let fields ← within? (insertDotted? key value path) draft.path draft.fields
    return (⟨fields, draft.path⟩, t)
  | _ => none

/-- Reads lines; each takes a character at least, so the length of the text is `fuel` enough. -/
def readLines? : Nat → Draft → Text → Option Draft
  | 0, _, _ => none
  | fuel + 1, draft, t =>
    match skipSpace t with
    | [] => some draft
    | c :: t => do
      let (draft, t) ←
        if c = '#' ∨ c = '\n' ∨ c = '\r' then some (draft, c :: t)
        else if c = '[' then readHeader? draft t
        else readPair? draft (c :: t)
      readLines? fuel draft (← readLineEnd? t)

def dropByteOrderMark : Text → Text
  | '\ufeff' :: t => t
  | t => t

def read? (t : Text) : Option Fields :=
  let t := dropByteOrderMark t
  (readLines? (t.length + 1) ⟨[], []⟩ t).map Draft.fields

end Toml
end ChunkTree

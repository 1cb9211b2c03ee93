import ChunkTree.Text.Basic

/-!
Values of the TOML data format and the rules by which tables are built up. A table is opened by a
header, implied by a header below it, made by a dotted key, or written inline; only some of these may
be added to later.
-/

namespace ChunkTree

inductive TableOrigin where
  | header
  | implied
  | dotted
  | inline
deriving DecidableEq, Repr

/-- Numbers with a fraction and points in time are only told apart from the rest. -/
inductive Toml where
  | string (t : Text)
  | integer (n : Int)
  | float
  | boolean (b : Bool)
  | moment
  | array (items : List Toml)
  | table (origin : TableOrigin) (fields : List (Text × Toml))
  | tables (entries : List (List (Text × Toml)))

namespace Toml

abbrev Fields := List (Text × Toml)

def lookup? (key : Text) (fields : Fields) : Option Toml :=
  (fields.find? (fun f => f.1 == key)).map Prod.snd

def replace (key : Text) (value : Toml) (fields : Fields) : Fields :=
  fields.map (fun f => if f.1 == key then (key, value) else f)

def insert? (key : Text) (value : Toml) (fields : Fields) : Option Fields :=
  match lookup? key fields with
  | none => some (fields ++ [(key, value)])
  | some _ => none

def editLast? (edit : Fields → Option Fields) : List Fields → Option (List Fields)
  | [] => none
  | [last] => (edit last).map (fun fields => [fields])
  | entry :: rest => (editLast? edit rest).map (fun entries => entry :: entries)

/-- Edits the table that the path of a header leads to. Tables on the way are implied where they are
missing, and in an array of tables the way goes through the last one. -/
def within? (edit : Fields → Option Fields) : List Text → Fields → Option Fields
  | [], fields => edit fields
  | key :: path, fields =>
    match lookup? key fields with
    | none => do
      let inner ← within? edit path []
      return fields ++ [(key, table .implied inner)]
    | some (table .inline _) => none
    | some (table origin inner) => do
      let inner ← within? edit path inner
      return replace key (table origin inner) fields
    | some (tables entries) => do
      let entries ← editLast? (within? edit path) entries
      return replace key (tables entries) fields
    | some _ => none

/-- Opens a table by its header; a table that was only implied so far may be opened once. -/
def openTable? (key : Text) (fields : Fields) : Option Fields :=
  match lookup? key fields with
  | none => some (fields ++ [(key, table .header [])])
  | some (table .implied inner) => some (replace key (table .header inner) fields)
  | some _ => none

def pushTable? (key : Text) (fields : Fields) : Option Fields :=
  match lookup? key fields with
  | none => some (fields ++ [(key, tables [[]])])
  | some (tables entries) => some (replace key (tables (entries ++ [[]])) fields)
  | some _ => none

/-- Puts a value under a dotted key. Tables on the way must not have been opened by a header or
written inline, and the last of them has to be one that dotted keys made. -/
def insertDotted? (key : Text) (value : Toml) : List Text → Fields → Option Fields
  | [], fields => insert? key value fields
  | [step], fields =>
    match lookup? step fields with
    | none => some (fields ++ [(step, table .dotted [(key, value)])])
    | some (table .dotted inner) => do
      let inner ← insert? key value inner
      return replace step (table .dotted inner) fields
    | some _ => none
  | step :: path, fields =>
    match lookup? step fields with
    | none => do
      let inner ← insertDotted? key value path []
      return fields ++ [(step, table .dotted inner)]
    | some (table .header _) => none
    | some (table .inline _) => none
    | some (table origin inner) => do
      let inner ← insertDotted? key value path inner
      return replace step (table origin inner) fields
    | some (tables entries) => do
      let entries ← editLast? (insertDotted? key value path) entries
      return replace step (tables entries) fields
    | some _ => none

end Toml
end ChunkTree

import ChunkTree.Model.Span
import ChunkTree.Statement.Basic

/-!
JSON form of statements and units. A statement is a record of its kind, which is a variant, and of its
span, which is written only when there is one.
-/

namespace ChunkTree

inductive StatementTag where
  | plain
  | block
  | conditional
  | switch
  | guarded
  | countedLoop
  | conditionLoop
  | postTestLoop
  | collectionLoop
  | synchronized
  | other
deriving DecidableEq, Repr

namespace StatementTag

def name : StatementTag → Text
  | plain => "plain".toList
  | block => "block".toList
  | conditional => "conditional".toList
  | switch => "switch".toList
  | guarded => "try".toList
  | countedLoop => "counted_loop".toList
  | conditionLoop => "condition_loop".toList
  | postTestLoop => "post_test_loop".toList
  | collectionLoop => "collection_loop".toList
  | synchronized => "synchronized".toList
  | other => "other".toList

def all : List StatementTag :=
  [plain, block, conditional, switch, guarded, countedLoop, conditionLoop, postTestLoop,
   collectionLoop, synchronized, other]

def choices : List (Text × StatementTag) := all.map (fun tag => (tag.name, tag))

end StatementTag

def Json.tagged (tag : StatementTag) (fields : List (String × Json)) : Json :=
  record ((tagName, string tag.name) :: fields)

def Json.texts (ts : List Text) : Json := array (ts.map string)

def Head.toJson (body : Json) : Head → Json
  | counted init condition update =>
    .tagged .countedLoop [("init", .string init), ("condition", .string condition),
      ("update", .string update), ("body", body)]
  | preTest condition => .tagged .conditionLoop [("condition", .string condition), ("body", body)]
  | postTest condition => .tagged .postTestLoop [("body", body), ("condition", .string condition)]
  | collection element iterable =>
    .tagged .collectionLoop [("variable", .string element), ("iterable", .string iterable),
      ("body", body)]
  | lock subject => .tagged .synchronized [("lock", .string subject), ("body", body)]

def Json.statement (kind : Json) (span : Option Span) : Json :=
  record (("kind", kind) :: ifPresent "span" Span.toJson span)

namespace Statement

mutual

def toJson : Statement → Json
  | .plain span text => .statement (.tagged .plain [("text", .string text)]) span
  | .block span statements =>
    .statement (.tagged .block [("statements", .array (allToJson statements))]) span
  | .conditional span condition thenBranch elseBranch =>
    .statement (.tagged .conditional [("condition", .string condition),
      ("then_branch", thenBranch.toJson), ("else_branch", optionToJson elseBranch)]) span
  | .switch span selector entries =>
    .statement (.tagged .switch [("selector", .string selector),
      ("entries", .array (entriesToJson entries))]) span
  | .guarded span resources body clauses cleanup =>
    .statement (.tagged .guarded [("resources", .texts resources), ("block", body.toJson),
      ("catches", .array (clausesToJson clauses)), ("finally", optionToJson cleanup)]) span
  | .headed span head body => .statement (head.toJson body.toJson) span
  | .other span label header children =>
    .statement (.tagged .other [("label", .string label), ("header", .string header),
      ("children", .array (allToJson children))]) span

def allToJson : List Statement → List Json
  | [] => []
  | s :: rest => s.toJson :: allToJson rest

def optionToJson : Option Statement → Json
  | none => .null
  | some s => s.toJson

def entriesToJson : List (SwitchEntry Statement) → List Json
  | [] => []
  | ⟨labels, statements⟩ :: rest =>
    .record [("labels", .texts labels), ("statements", .array (allToJson statements))] ::
      entriesToJson rest

def clausesToJson : List (CatchClause Statement) → List Json
  | [] => []
  | ⟨parameter, body⟩ :: rest =>
    .record [("parameter", .string parameter), ("body", body.toJson)] :: clausesToJson rest

end

def textsOf? : Json → Option (List Text) := Json.listOf? Json.text?

def entryOf? (read : Json → Option Statement) (j : Json) : Option (SwitchEntry Statement) := do
  let [labels, statements] ← j.slots? ["labels", "statements"] | none
  return ⟨← labels.orElse? [] textsOf?, ← statements.orElse? [] (Json.listOf? read)⟩

def clauseOf? (read : Json → Option Statement) (j : Json) : Option (CatchClause Statement) := do
  let [parameter, body] ← j.slots? ["parameter", "body"] | none
  return ⟨← parameter.required? Json.text?, ← body.required? read⟩

def ofFields? (read : Json → Option Statement) (tag : StatementTag) (j : Json) : Option Statement :=
  match tag with
  | .plain => do
    let [text] ← j.slots? ["text"] | none
    return .plain none (← text.required? Json.text?)
  | .block => do
    let [statements] ← j.slots? ["statements"] | none
    return .block none (← statements.required? (Json.listOf? read))
  | .conditional => do
    let [condition, thenBranch, elseBranch] ←
      j.slots? ["condition", "then_branch", "else_branch"] | none
    return .conditional none (← condition.required? Json.text?) (← thenBranch.required? read)
      (← elseBranch.omissible? read)
  | .switch => do
    let [selector, entries] ← j.slots? ["selector", "entries"] | none
    return .switch none (← selector.required? Json.text?)
      (← entries.required? (Json.listOf? (entryOf? read)))
  | .guarded => do
    let [resources, body, catches, cleanup] ←
      j.slots? ["resources", "block", "catches", "finally"] | none
    return .guarded none (← resources.orElse? [] textsOf?) (← body.required? read)
      (← catches.orElse? [] (Json.listOf? (clauseOf? read))) (← cleanup.omissible? read)
  | .countedLoop => do
    let [init, condition, update, body] ← j.slots? ["init", "condition", "update", "body"] | none
    return .headed none
      (.counted (← init.orElse? [] Json.text?) (← condition.orElse? [] Json.text?)
        (← update.orElse? [] Json.text?))
      (← body.required? read)
  | .conditionLoop => do
    let [condition, body] ← j.slots? ["condition", "body"] | none
    return .headed none (.preTest (← condition.required? Json.text?)) (← body.required? read)
  | .postTestLoop => do
    let [body, condition] ← j.slots? ["body", "condition"] | none
    return .headed none (.postTest (← condition.required? Json.text?)) (← body.required? read)
  | .collectionLoop => do
    let [element, iterable, body] ← j.slots? ["variable", "iterable", "body"] | none
    return .headed none
      (.collection (← element.required? Json.text?) (← iterable.required? Json.text?))
      (← body.required? read)
  | .synchronized => do
    let [subject, body] ← j.slots? ["lock", "body"] | none
    return .headed none (.lock (← subject.required? Json.text?)) (← body.required? read)
  | .other => do
    let [label, header, children] ← j.slots? ["label", "header", "children"] | none
    return .other none (← label.required? Json.text?) (← header.orElse? [] Json.text?)
      (← children.orElse? [] (Json.listOf? read))

/-- Reads a statement from a value whose brackets nest at most `height` deep. Below another statement
(`inner`) a tag may be given by its position. -/
def read? (inner : Bool) : Nat → Json → Option Statement
  | 0, _ => none
  | height + 1, j => do
    let [kind, span] ← j.slots? ["kind", "span"] | none
    let (tag, fields) ← kind.required? (Json.variant? inner StatementTag.choices)
    let s ← ofFields? (read? true height) tag fields
    return s.withSpan (← span.omissible? Span.ofJson?)

def ofJson? (j : Json) : Option Statement := read? false j.height j

end Statement

namespace SourceUnit

def toJson (u : SourceUnit) : Json :=
  .record ([("name", .string u.name), ("signature", .string u.signature), ("body", u.body.toJson)] ++
    Json.ifPresent "span" Span.toJson u.span)

def ofJson? (j : Json) : Option SourceUnit := do
  let [name, signature, body, span] ← j.slots? ["name", "signature", "body", "span"] | none
  return ⟨← name.required? Json.text?, ← signature.required? Json.text?,
    ← body.required? Statement.ofJson?, ← span.omissible? Span.ofJson?⟩

end SourceUnit
end ChunkTree

import ChunkTree.Model.Statement
import ChunkTree.Model.Chunk
import ChunkTree.Proofs.Model.Values
import ChunkTree.Proofs.Statement.Nested

/-!
Round trips of statements, units and chunks. A reader that may go as deep as the brackets of a value
nest never runs out on what was written, since each part is less deep than the whole.
-/

namespace ChunkTree

open Json (RoundTrips)

theorem Json.textsOf?_texts (ts : List Text) : Statement.textsOf? (.texts ts) = some ts :=
  listOf?_map fun _ _ => rfl

theorem Json.isReadable_texts (ts : List Text) : (Json.texts ts).isReadable = true :=
  isReadable_array_map fun _ _ => rfl

namespace Head

def tag : Head → StatementTag
  | counted .. => .countedLoop
  | preTest .. => .conditionLoop
  | postTest .. => .postTestLoop
  | collection .. => .collectionLoop
  | lock .. => .synchronized

def fields (body : Json) : Head → List (String × Json)
  | counted init condition update =>
    [("init", .string init), ("condition", .string condition), ("update", .string update),
      ("body", body)]
  | preTest condition => [("condition", .string condition), ("body", body)]
  | postTest condition => [("body", body), ("condition", .string condition)]
  | collection element iterable =>
    [("variable", .string element), ("iterable", .string iterable), ("body", body)]
  | lock subject => [("lock", .string subject), ("body", body)]

theorem toJson_eq (body : Json) (head : Head) :
    head.toJson body = .tagged head.tag (head.fields body) := by
  cases head <;> rfl

end Head

namespace Statement

def entryToJson (e : SwitchEntry Statement) : Json :=
  .record [("labels", .texts e.labels), ("statements", .array (e.statements.map toJson))]

def clauseToJson (c : CatchClause Statement) : Json :=
  .record [("parameter", .string c.parameter), ("body", c.body.toJson)]

def tag : Statement → StatementTag
  | .plain .. => .plain
  | .block .. => .block
  | .conditional .. => .conditional
  | .switch .. => .switch
  | .guarded .. => .guarded
  | .headed _ head _ => head.tag
  | .other .. => .other

def fields : Statement → List (String × Json)
  | .plain _ text => [("text", .string text)]
  | .block _ statements => [("statements", .array (statements.map toJson))]
  | .conditional _ condition thenBranch elseBranch =>
    [("condition", .string condition), ("then_branch", thenBranch.toJson),
      ("else_branch", .orNull toJson elseBranch)]
  | .switch _ selector entries =>
    [("selector", .string selector), ("entries", .array (entries.map entryToJson))]
  | .guarded _ resources body clauses cleanup =>
    [("resources", .texts resources), ("block", body.toJson),
      ("catches", .array (clauses.map clauseToJson)), ("finally", .orNull toJson cleanup)]
  | .headed _ head body => head.fields body.toJson
  | .other _ label header children =>
    [("label", .string label), ("header", .string header),
      ("children", .array (children.map toJson))]

theorem allToJson_eq_map (statements : List Statement) :
    allToJson statements = statements.map toJson := by
  induction statements with
  | nil => rfl
  | cons s rest ih => rw [allToJson, ih, List.map_cons]

theorem optionToJson_eq (s : Option Statement) : optionToJson s = .orNull toJson s := by
  cases s <;> rfl

theorem entriesToJson_eq_map (entries : List (SwitchEntry Statement)) :
    entriesToJson entries = entries.map entryToJson := by
  induction entries with
  | nil => rfl
  | cons e rest ih => rw [entriesToJson, ih, allToJson_eq_map, List.map_cons, entryToJson]

theorem clausesToJson_eq_map (clauses : List (CatchClause Statement)) :
    clausesToJson clauses = clauses.map clauseToJson := by
  induction clauses with
  | nil => rfl
  | cons c rest ih => rw [clausesToJson, ih, List.map_cons, clauseToJson]

theorem toJson_eq (s : Statement) : s.toJson = .statement (.tagged s.tag s.fields) s.span := by
  cases s with
  | headed span head body => rw [toJson, Head.toJson_eq]; rfl
  | _ =>
    simp only [toJson, allToJson_eq_map, optionToJson_eq, entriesToJson_eq_map,
      clausesToJson_eq_map]
    rfl

theorem choice?_name (inner : Bool) (tag : StatementTag) :
    Json.choice? inner StatementTag.choices (.string tag.name) = some tag := by
  cases tag <;> rfl

theorem fields_ne_tagName (s : Statement) : ∀ f ∈ s.fields, f.1 ≠ Json.tagName := by
  cases s with
  | headed span head body => cases head <;> simp [fields, Head.fields, Json.tagName]
  | _ => simp [fields, Json.tagName]

theorem isNull_toJson (s : Statement) : s.toJson.isNull = false := by
  rw [toJson_eq]
  rfl

section Reading

variable {read : Json → Option Statement}

theorem entryOf?_entryToJson (e : SwitchEntry Statement)
    (h : ∀ c ∈ e.statements, read c.toJson = some c) : entryOf? read (entryToJson e) = some e := by
  have hslots : (entryToJson e).slots? ["labels", "statements"] =
      some [.present (.texts e.labels), .present (.array (e.statements.map toJson))] := rfl
  simp [entryOf?, hslots, Json.Slot.orElse?, Json.textsOf?_texts, Json.listOf?_map h]

theorem clauseOf?_clauseToJson (c : CatchClause Statement)
    (h : read c.body.toJson = some c.body) : clauseOf? read (clauseToJson c) = some c := by
  have hslots : (clauseToJson c).slots? ["parameter", "body"] =
      some [.present (.string c.parameter), .present c.body.toJson] := rfl
  simp [clauseOf?, hslots, Json.Slot.required?, Json.text?, h]

theorem nullable?_orNull (s : Option Statement) (h : ∀ c ∈ s.toList, read c.toJson = some c) :
    Json.Slot.nullable? read (.orNull toJson s) = some s := by
  refine Json.Slot.nullable?_orNull (fun c hc => h c ?_) (fun c _ => c.isNull_toJson)
  rw [Option.mem_toList]
  exact hc

theorem ofFields?_head (head : Head) {body : Statement} (h : read body.toJson = some body) :
    ofFields? read head.tag (.record (head.fields body.toJson)) = some (.headed none head body) := by
  cases head with
  | counted init condition update =>
    have hslots : (Json.record (Head.fields body.toJson (.counted init condition update))).slots?
        ["init", "condition", "update", "body"] =
        some [.present (.string init), .present (.string condition), .present (.string update),
          .present body.toJson] := rfl
    simp [Head.tag, ofFields?, hslots, Json.Slot.orElse?, Json.Slot.required?, Json.text?, h]
  | preTest condition =>
    have hslots : (Json.record (Head.fields body.toJson (.preTest condition))).slots?
        ["condition", "body"] = some [.present (.string condition), .present body.toJson] := rfl
    simp [Head.tag, ofFields?, hslots, Json.Slot.required?, Json.text?, h]
  | postTest condition =>
    have hslots : (Json.record (Head.fields body.toJson (.postTest condition))).slots?
        ["body", "condition"] = some [.present body.toJson, .present (.string condition)] := rfl
    simp [Head.tag, ofFields?, hslots, Json.Slot.required?, Json.text?, h]
  | collection element iterable =>
    have hslots : (Json.record (Head.fields body.toJson (.collection element iterable))).slots?
        ["variable", "iterable", "body"] =
        some [.present (.string element), .present (.string iterable), .present body.toJson] := rfl
    simp [Head.tag, ofFields?, hslots, Json.Slot.required?, Json.text?, h]
  | lock subject =>
    have hslots : (Json.record (Head.fields body.toJson (.lock subject))).slots?
        ["lock", "body"] = some [.present (.string subject), .present body.toJson] := rfl
    simp [Head.tag, ofFields?, hslots, Json.Slot.required?, Json.text?, h]

theorem ofFields?_fields (s : Statement) (h : ∀ c ∈ s.nested, read c.toJson = some c) :
    ofFields? read s.tag (.record s.fields) = some (s.withSpan none) := by
  cases s with
  | plain span text =>
    have hslots : (Json.record (fields (.plain span text))).slots? ["text"] =
        some [.present (.string text)] := rfl
    simp [tag, ofFields?, hslots, Json.Slot.required?, Json.text?, withSpan]
  | block span statements =>
    have hslots : (Json.record (fields (.block span statements))).slots? ["statements"] =
        some [.present (.array (statements.map toJson))] := rfl
    have hstatements : Json.listOf? read (.array (statements.map toJson)) = some statements :=
      Json.listOf?_map h
    simp [tag, ofFields?, hslots, Json.Slot.required?, hstatements, withSpan]
  | conditional span condition thenBranch elseBranch =>
    have hslots : (Json.record (fields (.conditional span condition thenBranch elseBranch))).slots?
        ["condition", "then_branch", "else_branch"] =
        some [.present (.string condition), .present thenBranch.toJson,
          .present (.orNull toJson elseBranch)] := rfl
    obtain ⟨hthen, helse⟩ := List.forall_mem_cons.mp h
    simp [tag, ofFields?, hslots, Json.Slot.required?, Json.Slot.omissible?, Json.text?, hthen,
      nullable?_orNull elseBranch helse, withSpan]
  | switch span selector entries =>
    have hslots : (Json.record (fields (.switch span selector entries))).slots?
        ["selector", "entries"] =
        some [.present (.string selector), .present (.array (entries.map entryToJson))] := rfl
    have hentries : Json.listOf? (entryOf? read) (.array (entries.map entryToJson)) =
        some entries :=
      Json.listOf?_map fun e he => entryOf?_entryToJson e fun c hc =>
        h c (List.mem_flatMap.mpr ⟨e, he, hc⟩)
    simp [tag, ofFields?, hslots, Json.Slot.required?, Json.text?, hentries, withSpan]
  | guarded span resources body clauses cleanup =>
    have hslots : (Json.record (fields (.guarded span resources body clauses cleanup))).slots?
        ["resources", "block", "catches", "finally"] =
        some [.present (.texts resources), .present body.toJson,
          .present (.array (clauses.map clauseToJson)), .present (.orNull toJson cleanup)] := rfl
    obtain ⟨hbody, hrest⟩ := List.forall_mem_cons.mp h
    obtain ⟨hclauses, hcleanup⟩ := List.forall_mem_append.mp hrest
    have hcatches : Json.listOf? (clauseOf? read) (.array (clauses.map clauseToJson)) =
        some clauses :=
      Json.listOf?_map fun c hc => clauseOf?_clauseToJson c (hclauses _ (List.mem_map_of_mem hc))
    simp [tag, ofFields?, hslots, Json.Slot.required?, Json.Slot.orElse?, Json.Slot.omissible?,
      Json.textsOf?_texts, hbody, hcatches, nullable?_orNull cleanup hcleanup, withSpan]
  | headed span head body => exact ofFields?_head head (h body (List.mem_singleton.mpr rfl))
  | other span label header children =>
    have hslots : (Json.record (fields (.other span label header children))).slots?
        ["label", "header", "children"] =
        some [.present (.string label), .present (.string header),
          .present (.array (children.map toJson))] := rfl
    have hchildren : Json.listOf? read (.array (children.map toJson)) = some children :=
      Json.listOf?_map h
    simp [tag, ofFields?, hslots, Json.Slot.required?, Json.Slot.orElse?, Json.text?, hchildren,
      withSpan]

end Reading

theorem isReadable_option (s : Option Statement) (h : ∀ c ∈ s.toList, c.toJson.isReadable = true) :
    (Json.orNull toJson s).isReadable = true := by
  refine Json.isReadable_orNull fun c hc => h c ?_
  rw [Option.mem_toList]
  exact hc

theorem isReadable_fields (s : Statement) (h : ∀ c ∈ s.nested, c.toJson.isReadable = true) :
    ∀ f ∈ s.fields, f.2.isReadable = true := by
  cases s with
  | plain span text => simp [fields]
  | block span statements =>
    have hstatements : (Json.array (statements.map toJson)).isReadable = true :=
      Json.isReadable_array_map h
    simp [fields, hstatements]
  | conditional span condition thenBranch elseBranch =>
    obtain ⟨hthen, helse⟩ := List.forall_mem_cons.mp h
    simp [fields, hthen, isReadable_option elseBranch helse]
  | switch span selector entries =>
    have hentries : (Json.array (entries.map entryToJson)).isReadable = true := by
      refine Json.isReadable_array_map fun e he => ?_
      have hstatements : (Json.array (e.statements.map toJson)).isReadable = true :=
        Json.isReadable_array_map fun c hc => h c (List.mem_flatMap.mpr ⟨e, he, hc⟩)
      simp [entryToJson, Json.isReadable_record, Json.isReadable_texts, hstatements]
    simp [fields, hentries]
  | guarded span resources body clauses cleanup =>
    obtain ⟨hbody, hrest⟩ := List.forall_mem_cons.mp h
    obtain ⟨hclauses, hcleanup⟩ := List.forall_mem_append.mp hrest
    have hcatches : (Json.array (clauses.map clauseToJson)).isReadable = true := by
      refine Json.isReadable_array_map fun c hc => ?_
      have hclause := hclauses _ (List.mem_map_of_mem hc)
      simp [clauseToJson, Json.isReadable_record, hclause]
    simp [fields, Json.isReadable_texts, hbody, hcatches, isReadable_option cleanup hcleanup]
  | headed span head body =>
    have hbody := h body (List.mem_singleton.mpr rfl)
    cases head <;> simp [fields, Head.fields, hbody]
  | other span label header children =>
    have hchildren : (Json.array (children.map toJson)).isReadable = true :=
      Json.isReadable_array_map h
    simp [fields, hchildren]

theorem isReadable_kind_of_nested (s : Statement) (h : ∀ c ∈ s.nested, c.toJson.isReadable = true) :
    (Json.tagged s.tag s.fields).isReadable = true := by
  have hfields : s.fields.all (fun f => f.2.isReadable) = true :=
    List.all_eq_true.mpr (isReadable_fields s h)
  rw [Json.tagged, Json.isReadable_record, List.all_cons, hfields]
  rfl

theorem isReadable_toJson (s : Statement) : s.toJson.isReadable = true := by
  induction s using nestedInduction with
  | step s ih =>
    have hspan : (Json.ifPresent "span" Span.toJson s.span).all (fun f => f.2.isReadable) = true := by
      cases s.span with
      | none => rfl
      | some span => simp [Json.ifPresent, Span.isReadable_toJson]
    rw [toJson_eq, Json.statement, Json.isReadable_record, List.all_cons, hspan,
      isReadable_kind_of_nested s ih]
    rfl

theorem height_le_option {s : Option Statement} {c : Statement} (h : c ∈ s.toList) :
    c.toJson.height ≤ (Json.orNull toJson s).height := by
  rw [Option.mem_toList] at h
  cases h
  exact Nat.le_refl _

theorem exists_field_of_nested {s c : Statement} (h : c ∈ s.nested) :
    ∃ name value, (name, value) ∈ s.fields ∧ c.toJson.height ≤ value.height := by
  have hlist : ∀ statements : List Statement, c ∈ statements →
      c.toJson.height ≤ (Json.array (statements.map toJson)).height :=
    fun statements hc => Nat.le_of_lt (Json.height_lt_array (List.mem_map_of_mem hc))
  cases s with
  | plain span text => cases h
  | block span statements => exact ⟨_, _, List.mem_cons_self, hlist statements h⟩
  | conditional span condition thenBranch elseBranch =>
    rcases List.mem_cons.mp h with rfl | helse
    · exact ⟨"then_branch", c.toJson, by simp [fields], Nat.le_refl _⟩
    · exact ⟨"else_branch", .orNull toJson elseBranch, by simp [fields], height_le_option helse⟩
  | switch span selector entries =>
    obtain ⟨e, he, hc⟩ := List.mem_flatMap.mp h
    refine ⟨"entries", .array (entries.map entryToJson), by simp [fields], ?_⟩
    have hentry : (Json.array (e.statements.map toJson)).height < (entryToJson e).height :=
      Json.height_lt_record (List.mem_cons_of_mem _ List.mem_cons_self)
    have hentries : (entryToJson e).height < (Json.array (entries.map entryToJson)).height :=
      Json.height_lt_array (List.mem_map_of_mem he)
    have := hlist e.statements hc
    omega
  | guarded span resources body clauses cleanup =>
    rcases List.mem_cons.mp h with rfl | hrest
    · exact ⟨"block", c.toJson, by simp [fields], Nat.le_refl _⟩
    rcases List.mem_append.mp hrest with hclauses | hcleanup
    · obtain ⟨clause, hclause, rfl⟩ := List.mem_map.mp hclauses
      refine ⟨"catches", .array (clauses.map clauseToJson), by simp [fields], ?_⟩
      have hbody : clause.body.toJson.height < (clauseToJson clause).height :=
        Json.height_lt_record (List.mem_cons_of_mem _ List.mem_cons_self)
      have hcatches : (clauseToJson clause).height < (Json.array (clauses.map clauseToJson)).height :=
        Json.height_lt_array (List.mem_map_of_mem hclause)
      omega
    · exact ⟨"finally", .orNull toJson cleanup, by simp [fields], height_le_option hcleanup⟩
  | headed span head body =>
    rw [List.mem_singleton.mp h]
    refine ⟨"body", body.toJson, ?_, Nat.le_refl _⟩
    cases head <;> simp [fields, Head.fields]
  | other span label header children =>
    exact ⟨"children", .array (children.map toJson), by simp [fields], hlist children h⟩

theorem height_lt_of_nested {s c : Statement} (h : c ∈ s.nested) :
    c.toJson.height < s.toJson.height := by
  obtain ⟨name, value, hfield, hle⟩ := exists_field_of_nested h
  have hkind : value.height < (Json.tagged s.tag s.fields).height :=
    Json.height_lt_record (List.mem_cons_of_mem _ hfield)
  have hwhole : (Json.tagged s.tag s.fields).height < s.toJson.height := by
    rw [toJson_eq]
    exact Json.height_lt_record List.mem_cons_self
  omega

def spanSlot : Option Span → Json.Slot
  | some span => .present span.toJson
  | none => .absent

theorem slots?_toJson (s : Statement) : s.toJson.slots? ["kind", "span"] =
    some [.present (.tagged s.tag s.fields), spanSlot s.span] := by
  rw [toJson_eq]
  cases s.span <;> rfl

theorem omissible?_spanSlot (span : Option Span) :
    (spanSlot span).omissible? Span.ofJson? = some span := by
  cases span with
  | none => rfl
  | some span =>
    change Json.Slot.nullable? Span.ofJson? (.orNull Span.toJson (some span)) = _
    exact Json.Slot.nullable?_orNull (fun s _ => s.ofJson?_toJson) (fun _ _ => rfl)

theorem read?_toJson (s : Statement) :
    ∀ (inner : Bool) (height : Nat), s.toJson.height ≤ height →
      read? inner height s.toJson = some s := by
  induction s using nestedInduction with
  | step s ih =>
    intro inner height hheight
    cases height with
    | zero =>
      rw [toJson_eq] at hheight
      exact absurd hheight (Nat.not_succ_le_zero _)
    | succ height =>
      have hkind : (Json.tagged s.tag s.fields).variant? inner StatementTag.choices =
          some (s.tag, .record s.fields) := by
        rw [Json.variant?_of_isReadable (isReadable_kind_of_nested s fun c _ => c.isReadable_toJson)]
        exact Json.variantParts?_record (choice?_name inner s.tag) s.fields_ne_tagName
      have hfields : ofFields? (read? true height) s.tag (.record s.fields) =
          some (s.withSpan none) := by
        -- a statement inside is less deep, so the height that is left is enough for it
        refine ofFields?_fields s fun c hc => ih c hc true height ?_
        have := height_lt_of_nested hc
        omega
      have hspan : (s.withSpan none).withSpan s.span = s := by
        cases s <;> rfl
      simp [read?, slots?_toJson, Json.Slot.required?, hkind, hfields, omissible?_spanSlot, hspan]

theorem ofJson?_toJson (s : Statement) : ofJson? s.toJson = some s :=
  s.read?_toJson false s.toJson.height (Nat.le_refl _)

end Statement

namespace SourceUnit

theorem ofJson?_toJson (u : SourceUnit) : ofJson? u.toJson = some u := by
  have hslots : u.toJson.slots? ["name", "signature", "body", "span"] =
      some [.present (.string u.name), .present (.string u.signature), .present u.body.toJson,
        Statement.spanSlot u.span] := by
    rw [toJson]
    cases u.span <;> rfl
  simp [ofJson?, hslots, Json.Slot.required?, Json.text?, Statement.ofJson?_toJson,
    Statement.omissible?_spanSlot]

end SourceUnit

namespace Chunk

mutual

@[elab_as_elim]
theorem childInduction {P : Chunk → Prop} (step : ∀ c, (∀ d ∈ c.children, P d) → P c) : ∀ c, P c
  | ⟨_, children⟩ => step _ (childrenInduction step children)

theorem childrenInduction {P : Chunk → Prop} (step : ∀ c, (∀ d ∈ c.children, P d) → P c) :
    ∀ children : List Chunk, ∀ d ∈ children, P d
  | [] => List.forall_mem_nil P
  | c :: rest => List.forall_mem_cons.mpr ⟨childInduction step c, childrenInduction step rest⟩

end

def childrenSlot : List Chunk → Json.Slot
  | [] => .absent
  | children => .present (.array (children.map toJson))

theorem allToJson_eq_map (chunks : List Chunk) : allToJson chunks = chunks.map toJson := by
  induction chunks with
  | nil => rfl
  | cons c rest ih => rw [allToJson, ih, List.map_cons]

theorem slots?_toJson (c : Chunk) : c.toJson.slots? ["content", "children"] =
    some [.present (.string c.content), childrenSlot c.children] := by
  obtain ⟨content, children⟩ := c
  cases children with
  | nil => rfl
  | cons first rest =>
    rw [toJson, allToJson_eq_map]
    rfl

theorem height_pos_toJson (c : Chunk) : 0 < c.toJson.height := by
  obtain ⟨content, children⟩ := c
  cases children <;> exact Nat.succ_pos _

theorem height_lt_of_child {c d : Chunk} (h : d ∈ c.children) :
    d.toJson.height < c.toJson.height := by
  obtain ⟨content, children⟩ := c
  cases children with
  | nil => cases h
  | cons first rest =>
    rw [toJson, allToJson_eq_map, ← List.map_cons]
    have hlist : d.toJson.height < (Json.array ((first :: rest).map toJson)).height :=
      Json.height_lt_array (List.mem_map_of_mem h)
    exact Nat.lt_trans hlist (Json.height_lt_record (List.mem_cons_of_mem _ List.mem_cons_self))

theorem orElse?_childrenSlot {read : Json → Option Chunk} {children : List Chunk}
    (h : ∀ d ∈ children, read d.toJson = some d) :
    (childrenSlot children).orElse? [] (Json.listOf? read) = some children := by
  cases children with
  | nil => rfl
  | cons first rest => exact Json.listOf?_map h

theorem read?_toJson (c : Chunk) :
    ∀ height : Nat, c.toJson.height ≤ height → read? height c.toJson = some c := by
  induction c using childInduction with
  | step c ih =>
    intro height hheight
    cases height with
    | zero => exact absurd c.height_pos_toJson (Nat.not_lt.mpr hheight)
    | succ height =>
      have hchildren : (childrenSlot c.children).orElse? [] (Json.listOf? (read? height)) =
          some c.children := by
        refine orElse?_childrenSlot fun d hd => ih d hd height ?_
        have := height_lt_of_child hd
        omega
      obtain ⟨content, children⟩ := c
      simp [read?, slots?_toJson, Json.Slot.required?, Json.text?, hchildren]

theorem ofJson?_toJson (c : Chunk) : ofJson? c.toJson = some c :=
  c.read?_toJson c.toJson.height (Nat.le_refl _)

end Chunk

theorem models_round_trip :
    RoundTrips Statement.toJson Statement.ofJson? (fun _ => True) ∧
    RoundTrips SourceUnit.toJson SourceUnit.ofJson? (fun _ => True) ∧
    RoundTrips Chunk.toJson Chunk.ofJson? (fun _ => True) ∧
    RoundTrips Config.toJson Config.ofJson? Config.Fits ∧
    RoundTrips Stats.toJson Stats.ofJson? Stats.Fits ∧
    RoundTrips Diagnostic.toJson Diagnostic.ofJson? Diagnostic.Fits ∧
    RoundTrips Location.toJson Location.ofJson? (fun _ => True) ∧
    RoundTrips Span.toJson Span.ofJson? (fun _ => True) ∧
    RoundTrips StructuralKind.toJson StructuralKind.ofJson? (fun _ => True) ∧
    RoundTrips MetricKind.toJson MetricKind.ofJson? (fun _ => True) ∧
    RoundTrips Truncation.toJson Truncation.ofJson? (fun _ => True) := by
  have hfree : ∀ {α : Type} {write : α → Json} {read : Json → Option α},
      (∀ x, read (write x) = some x) → RoundTrips write read (fun _ => True) :=
    fun h => .of_fits (fun x _ => h x) (fun _ _ _ => trivial)
  refine ⟨hfree Statement.ofJson?_toJson, hfree SourceUnit.ofJson?_toJson,
    hfree Chunk.ofJson?_toJson, ?_, ?_, ?_, hfree Location.ofJson?_toJson,
    hfree Span.ofJson?_toJson, hfree StructuralKind.ofJson?_toJson,
    hfree MetricKind.ofJson?_toJson, hfree Truncation.ofJson?_toJson⟩
  · exact .of_fits (fun _ => Config.ofJson?_toJson) (fun _ _ => Config.fits_of_ofJson?)
  · exact .of_fits (fun _ => Stats.ofJson?_toJson) (fun _ _ => Stats.fits_of_ofJson?)
  · exact .of_fits (fun _ => Diagnostic.ofJson?_toJson) (fun _ _ => Diagnostic.fits_of_ofJson?)

/-- A diagnostic with a field that it does not have and with a location given as an array, and accounts
with the greatest count there is. -/
theorem models_round_trip_sample :
    Diagnostic.ofJson? (.object [("extra".toList, .null), ("depth".toList, .count 3),
        ("type".toList, .string "depth_limit".toList), ("location".toList, .array [.null, .null])]) =
      some (.depthLimit ⟨none, none⟩ 3) ∧
    Diagnostic.ofJson? (Diagnostic.toJson (.depthLimit ⟨none, none⟩ 3)) =
      some (.depthLimit ⟨none, none⟩ 3) ∧
    Stats.ofJson? (Stats.toJson ⟨18446744073709551615, 0, 0, 0, [.depthLimit ⟨none, none⟩ 3]⟩) =
      some ⟨18446744073709551615, 0, 0, 0, [.depthLimit ⟨none, none⟩ 3]⟩ := by
  obtain ⟨-, -, -, -, hstats, hdiagnostic, -⟩ := models_round_trip
  have hread : Diagnostic.ofJson? (.object [("extra".toList, .null), ("depth".toList, .count 3),
      ("type".toList, .string "depth_limit".toList), ("location".toList, .array [.null, .null])]) =
      some (.depthLimit ⟨none, none⟩ 3) := rfl
  refine ⟨hread, hdiagnostic.accepted _ _ hread, ?_⟩
  refine hstats.written _ ⟨by decide, by decide, by decide, by decide, ?_⟩
  exact List.forall_mem_singleton.mpr (by decide : 3 < Json.countLimit)

end ChunkTree

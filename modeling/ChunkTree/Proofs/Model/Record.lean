import ChunkTree.Model.Record

namespace ChunkTree
namespace Json

variable {α : Type} {read : Json → Option α} {write : α → Json}

@[simp] theorem isReadable_string (t : Text) : (string t).isReadable = true := by
  simp [isReadable]

@[simp] theorem isReadable_count (n : Nat) : (count n).isReadable = true := by
  simp [isReadable]

theorem itemsReadable_eq_all (items : List Json) : itemsReadable items = items.all isReadable := by
  induction items with
  | nil => rfl
  | cons item rest ih => simp [itemsReadable, ih]

theorem isReadable_array_map {xs : List α} (h : ∀ x ∈ xs, (write x).isReadable = true) :
    (array (xs.map write)).isReadable = true := by
  rw [isReadable, itemsReadable_eq_all, List.all_map, List.all_eq_true]
  exact h

theorem isReadable_record (fields : List (String × Json)) :
    (record fields).isReadable = fields.all (fun f => f.2.isReadable) := by
  rw [record, isReadable]
  induction fields with
  | nil => rfl
  | cons f rest ih => simp [fieldsReadable, ih]

theorem isReadable_orNull {o : Option α} (h : ∀ x ∈ o, (write x).isReadable = true) :
    (orNull write o).isReadable = true := by
  cases o with
  | none => rfl
  | some x => exact h x rfl

theorem height_le_itemsHeight {items : List Json} {j : Json} (h : j ∈ items) :
    j.height ≤ itemsHeight items := by
  induction items with
  | nil => cases h
  | cons item rest ih =>
    rw [itemsHeight]
    rcases List.mem_cons.mp h with rfl | hrest
    · exact Nat.le_max_left _ _
    · exact Nat.le_trans (ih hrest) (Nat.le_max_right _ _)

theorem height_lt_array {items : List Json} {j : Json} (h : j ∈ items) :
    j.height < (array items).height :=
  Nat.lt_succ_of_le (height_le_itemsHeight h)

theorem height_lt_record {fields : List (String × Json)} {name : String} {value : Json}
    (h : (name, value) ∈ fields) : value.height < (record fields).height := by
  rw [record, height]
  refine Nat.lt_succ_of_le ?_
  induction fields with
  | nil => cases h
  | cons first rest ih =>
    rw [List.map_cons, fieldsHeight]
    rcases List.mem_cons.mp h with rfl | hrest
    · exact Nat.le_max_left _ _
    · exact Nat.le_trans (ih hrest) (Nat.le_max_right _ _)

theorem listOf?_map {xs : List α} (h : ∀ x ∈ xs, read (write x) = some x) :
    listOf? read (array (xs.map write)) = some xs := by
  rw [listOf?]
  induction xs with
  | nil => rfl
  | cons x rest ih =>
    rw [List.forall_mem_cons] at h
    rw [List.map_cons, List.mapM_cons, h.1, ih h.2]
    rfl

theorem read_of_mem_listOf? {j : Json} {xs : List α} {x : α} (h : listOf? read j = some xs)
    (hx : x ∈ xs) : ∃ item, read item = some x := by
  cases j with
  | array items =>
    rw [listOf?] at h
    induction items generalizing xs with
    | nil =>
      cases h
      cases hx
    | cons item rest ih =>
      rw [List.mapM_cons] at h
      obtain ⟨first, hfirst, h⟩ := Option.bind_eq_some_iff.mp h
      obtain ⟨others, hothers, h⟩ := Option.bind_eq_some_iff.mp h
      cases h
      rcases List.mem_cons.mp hx with rfl | hx
      · exact ⟨item, hfirst⟩
      · exact ih hx hothers
  | _ => cases h

theorem count?_count {n : Nat} (h : n < countLimit) : (count n).count? = some n := if_pos h

theorem lt_of_count? {j : Json} {n : Nat} (h : j.count? = some n) : n < countLimit := by
  cases j with
  | count m =>
    rw [count?] at h
    split at h
    · cases h
      assumption
    · cases h
  | _ => cases h

namespace Slot

theorem nullable?_orNull {o : Option α} (hread : ∀ x ∈ o, read (write x) = some x)
    (hnull : ∀ x ∈ o, (write x).isNull = false) : nullable? read (orNull write o) = some o := by
  cases o with
  | none => rfl
  | some x => simp [nullable?, orNull, hread x rfl, hnull x rfl]

theorem exists_of_required? {slot : Slot} {x : α} (h : slot.required? read = some x) :
    ∃ j, read j = some x := by
  cases slot with
  | present value => exact ⟨value, h⟩
  | _ => cases h

theorem exists_of_orElse? {slot : Slot} {fallback x : α} (h : slot.orElse? fallback read = some x) :
    x = fallback ∨ ∃ j, read j = some x := by
  cases slot with
  | present value => exact .inr ⟨value, h⟩
  | _ => exact .inl (Option.some.inj h).symm

end Slot

theorem variantParts?_record {τ : Type} {inner : Bool} {choices : List (Text × τ)} {tag : τ}
    {name : Text} {fields : List (String × Json)}
    (htag : choice? inner choices (string name) = some tag) (hfields : ∀ f ∈ fields, f.1 ≠ tagName) :
    variantParts? inner choices (record ((tagName, string name) :: fields)) =
      some (tag, record fields) := by
  have hother : ∀ f ∈ fields, (f.1.toList == tagField) = false := by
    intro f hf
    rw [beq_eq_false_iff_ne, tagField, Ne, String.toList_inj]
    exact hfields f hf
  have htagged : ((tagField, string name) :: fields.map fun f => (f.1.toList, f.2)).filter
      (fun f => f.1 == tagField) = [(tagField, string name)] := by
    rw [List.filter_cons_of_pos (by simp), List.cons_inj_right,
      List.filter_eq_nil_iff, List.forall_mem_map]
    intro f hf
    simp [hother f hf]
  have huntagged : ((tagField, string name) :: fields.map fun f => (f.1.toList, f.2)).filter
      (fun f => f.1 != tagField) = fields.map fun f => (f.1.toList, f.2) := by
    rw [List.filter_cons_of_neg (by simp), List.filter_eq_self, List.forall_mem_map]
    intro f hf
    simp [bne, hother f hf]
  change variantParts? inner choices
    (object ((tagField, string name) :: fields.map fun f => (f.1.toList, f.2))) = _
  simp only [variantParts?, htagged, huntagged, htag]
  rfl

theorem variant?_of_isReadable {τ : Type} {inner : Bool} {choices : List (Text × τ)} {j : Json}
    (h : j.isReadable = true) : variant? inner choices j = variantParts? inner choices j := by
  rw [variant?, h, Bool.or_true, if_pos rfl]

/-- What is written reads back, and so does whatever was read, once it is written. -/
structure RoundTrips (write : α → Json) (read : Json → Option α) (fits : α → Prop) : Prop where
  written : ∀ x, fits x → read (write x) = some x
  accepted : ∀ j x, read j = some x → read (write x) = some x

theorem RoundTrips.of_fits {fits : α → Prop} (hwritten : ∀ x, fits x → read (write x) = some x)
    (hfits : ∀ j x, read j = some x → fits x) : RoundTrips write read fits :=
  ⟨hwritten, fun j x h => hwritten x (hfits j x h)⟩

end Json
end ChunkTree

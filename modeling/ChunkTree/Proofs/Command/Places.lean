import ChunkTree.Command.Directory

namespace ChunkTree
namespace Directory

/-- What a name stands for. A step up always leads to a folder. -/
def child? (d : Directory) (name : Text) : Option Entry :=
  if isUp name then some (.folder (d.inner name)) else d.find? name

def reach? (d : Directory) : List Text → Option Entry
  | [] => some (.folder d)
  | name :: rest =>
    match d.child? name with
    | some (.folder below) => below.reach? rest
    | some (.file bytes) => if rest.isEmpty then some (.file bytes) else none
    | none => none

variable {d d' here : Directory} {name other : Text} {names : List Text} {e : Entry}

theorem child?_of_not_up (h : isUp name = false) (d : Directory) :
    d.child? name = d.find? name := by
  rw [child?, h, if_neg (by decide)]

theorem inner_of_find? (h : d.find? name = some (.folder here)) : d.inner name = here := by
  rw [inner, h]

theorem inner_of_child? (h : d.child? name = some (.folder here)) : d.inner name = here := by
  rw [child?] at h
  split at h
  · simpa using h
  · exact inner_of_find? h

theorem child?_set_folder (name : Text) (here d : Directory) :
    (d.set name (.folder here)).child? name = some (.folder here) := by
  rw [child?]
  split
  · rw [inner_of_find? (find?_set_self name (.folder here) d)]
  · exact find?_set_self name (.folder here) d

theorem child?_set_of_ne (h : other ≠ name) (e : Entry) (d : Directory) :
    (d.set other e).child? name = d.child? name := by
  rw [child?, child?, inner, inner, find?_set_of_ne h]

theorem reach?_singleton (d : Directory) (name : Text) : d.reach? [name] = d.child? name := by
  rw [reach?]
  cases d.child? name with
  | none => rfl
  | some e => cases e <;> rfl

theorem reach?_cons (h : d.child? name = some (.folder here)) (names : List Text) :
    d.reach? (name :: names) = here.reach? names := by
  rw [reach?, h]

theorem reach?_set_of_ne (h : other ≠ name) (e : Entry) (d : Directory) (names : List Text) :
    (d.set other e).reach? (name :: names) = d.reach? (name :: names) := by
  rw [reach?, reach?, child?_set_of_ne h]

theorem child?_of_reach? (h : d.reach? (name :: names) = some (.folder here)) :
    ∃ below, d.child? name = some (.folder below) ∧ below.reach? names = some (.folder here) := by
  rw [reach?] at h
  split at h
  · exact ⟨_, ‹_›, h⟩
  · split at h <;> cases h
  · cases h

theorem reach?_concat (h : d.reach? names = some (.folder here)) (name : Text) :
    d.reach? (names ++ [name]) = here.child? name := by
  induction names generalizing d with
  | nil =>
    cases h
    exact reach?_singleton here name
  | cons first rest ih =>
    obtain ⟨below, hfirst, hrest⟩ := child?_of_reach? h
    rw [List.cons_append, reach?_cons hfirst]
    exact ih hrest

inductive Vacant : Directory → List Text → Prop
  | last {d : Directory} {name : Text} (hname : isUp name = false)
      (hfree : ∀ below, d.find? name ≠ some (.folder below)) : Vacant d [name]
  | inside {d here : Directory} {name : Text} {rest : List Text}
      (hhere : d.child? name = some (.folder here)) (hrest : Vacant here rest) :
      Vacant d (name :: rest)

theorem Vacant.ne_nil (h : Vacant d names) : names ≠ [] := by
  cases h <;> exact List.cons_ne_nil _ _

theorem vacant_concat (h : d.reach? names = some (.folder here)) (hname : isUp name = false)
    (hfree : ∀ below, here.find? name ≠ some (.folder below)) : Vacant d (names ++ [name]) := by
  induction names generalizing d with
  | nil =>
    cases h
    exact .last hname hfree
  | cons first rest ih =>
    obtain ⟨below, hfirst, hrest⟩ := child?_of_reach? h
    exact .inside hfirst (ih hrest)

theorem put_inside (hhere : d.child? name = some (.folder here)) (hrest : names ≠ []) (e : Entry) :
    d.put e (name :: names) = d.set name (.folder (here.put e names)) := by
  rw [put, inner_of_child? hhere]
  exact hrest

theorem reach?_put_self (h : Vacant d names) (e : Entry) : (d.put e names).reach? names = some e := by
  induction h with
  | @last d name hname hfree =>
    rw [put, reach?_singleton, child?_of_not_up hname, find?_set_self]
  | @inside d here name rest hhere hrest ih =>
    rw [put_inside hhere hrest.ne_nil, reach?_cons (child?_set_folder name _ d)]
    exact ih

/-- Folders stay folders, and files keep their bytes unless their place is given up. -/
structure Keeps (givenUp : List Text → Prop) (d d' : Directory) : Prop where
  folders : ∀ {names here}, d.reach? names = some (.folder here) →
    ∃ here', d'.reach? names = some (.folder here')
  files : ∀ {names bytes}, d.reach? names = some (.file bytes) → ¬ givenUp names →
    d'.reach? names = some (.file bytes)

variable {givenUp : List Text → Prop}

theorem Keeps.refl (givenUp : List Text → Prop) (d : Directory) : Keeps givenUp d d :=
  ⟨fun h => ⟨_, h⟩, fun h _ => h⟩

theorem Keeps.trans {d₁ d₂ d₃ : Directory} (h : Keeps givenUp d₁ d₂) (h' : Keeps givenUp d₂ d₃) :
    Keeps givenUp d₁ d₃ where
  folders hfolder := by
    obtain ⟨_, hmiddle⟩ := h.folders hfolder
    exact h'.folders hmiddle
  files hfile hkept := h'.files (h.files hfile hkept) hkept

theorem eq_nil_of_free {x : Entry} (hname : isUp name = false)
    (hfree : ∀ below, d.find? name ≠ some (.folder below))
    (h : d.reach? (name :: names) = some x) : names = [] ∧ ∃ bytes, x = .file bytes := by
  rw [reach?, child?_of_not_up hname] at h
  split at h
  · exact absurd ‹_› (hfree _)
  · split at h
    · rename_i hnil
      cases h
      exact ⟨List.isEmpty_iff.mp hnil, _, rfl⟩
    · cases h
  · cases h

theorem keeps_put (h : Vacant d names) (e : Entry) : Keeps (· = names) d (d.put e names) := by
  induction h with
  | @last d name hname hfree =>
    rw [put]
    constructor
    · rintro (_ | ⟨first, rest⟩) below hreach
      · exact ⟨_, rfl⟩
      · by_cases hfirst : first = name
        · rw [hfirst] at hreach
          obtain ⟨-, bytes, hfile⟩ := eq_nil_of_free hname hfree hreach
          cases hfile
        · exact ⟨below, by rw [reach?_set_of_ne (Ne.symm hfirst), hreach]⟩
    · rintro (_ | ⟨first, rest⟩) bytes hreach hkept
      · cases hreach
      · by_cases hfirst : first = name
        · rw [hfirst] at hreach
          rw [hfirst, (eq_nil_of_free hname hfree hreach).1] at hkept
          exact absurd rfl hkept
        · rw [reach?_set_of_ne (Ne.symm hfirst), hreach]
  | @inside d here name rest hhere hrest ih =>
    rw [put_inside hhere hrest.ne_nil]
    have hafter := reach?_cons (child?_set_folder name (here.put e rest) d)
    constructor
    · rintro (_ | ⟨first, rest'⟩) below hreach
      · exact ⟨_, rfl⟩
      · by_cases hfirst : first = name
        · rw [hfirst, reach?_cons hhere] at hreach
          rw [hfirst, hafter]
          exact ih.folders hreach
        · exact ⟨below, by rw [reach?_set_of_ne (Ne.symm hfirst), hreach]⟩
    · rintro (_ | ⟨first, rest'⟩) bytes hreach hkept
      · cases hreach
      · by_cases hfirst : first = name
        · rw [hfirst, reach?_cons hhere] at hreach
          rw [hfirst, hafter]
          exact ih.files hreach fun hsame => hkept (by rw [hfirst, hsame])
        · rw [reach?_set_of_ne (Ne.symm hfirst), hreach]

inductive Leads (d : Directory) : Trail → Prop
  | top : Leads d []
  | down {t : Trail} {here : Directory} {name : Text} (ht : Leads d t)
      (hhere : t.target? d = some (.folder here)) (hname : isUp name = false) :
      Leads d ((name, here.find? name) :: t)
  | above {t : Trail} {here : Directory} (ht : Leads d t)
      (hhere : t.target? d = some (.folder here)) :
      Leads d ((['.', '.'], some (.folder (here.inner ['.', '.']))) :: t)

variable {t t' r : Trail}

theorem names_cons (name : Text) (x : Option Entry) (t : Trail) :
    Trail.names ((name, x) :: t) = t.names ++ [name] := by
  simp [Trail.names]

theorem Leads.reach?_names (h : Leads d t) : d.reach? t.names = t.target? d := by
  induction h with
  | top => rfl
  | @down t here name ht hhere hname ih =>
    rw [names_cons, reach?_concat (ih.trans hhere), child?_of_not_up hname, Trail.target?]
  | @above t here ht hhere ih =>
    rw [names_cons, reach?_concat (ih.trans hhere)]
    rfl

theorem Leads.up (h : Leads d t) (hhere : t.target? d = some (.folder here)) :
    Leads d (Trail.up here t) := by
  cases t with
  | nil => exact .above h hhere
  | cons last above =>
    rw [Trail.up]
    split
    · exact .above h hhere
    · cases h <;> assumption

theorem Leads.vacant (h : Leads d t) (hfree : ∀ below, t.target? d ≠ some (.folder below)) :
    Vacant d t.names := by
  cases h with
  | top => exact absurd rfl (hfree d)
  | @down t here name ht hhere hname =>
    rw [names_cons]
    exact vacant_concat (ht.reach?_names.trans hhere) hname hfree
  | @above t here ht hhere => exact absurd rfl (hfree _)

theorem steps_up (h : t'.map Prod.fst = t.map Prod.fst) (here here' : Directory) :
    (Trail.up here' t').map Prod.fst = (Trail.up here t).map Prod.fst := by
  cases t with
  | nil =>
    rw [List.map_nil, List.map_eq_nil_iff] at h
    rw [h]
    rfl
  | cons last above =>
    obtain ⟨last', above', rfl, hlast, habove⟩ := List.map_eq_cons_iff.mp h
    rw [Trail.up, Trail.up, hlast]
    split
    · simp [habove]
    · exact habove

theorem follow_folder (h : t.target? d = some (.folder here)) (step : Text) (rest : List Text) :
    d.follow t (step :: rest) =
      if isHere step then d.follow t rest
      else if isUp step then d.follow (t.up here) rest
      else if nameLimit < step.byteLength then .error .nameTooLong
      else d.follow ((step, here.find? step) :: t) rest := by
  rw [follow, h]

theorem exists_folder_of_follow {step : Text} {rest : List Text}
    (h : d.follow t (step :: rest) = .ok r) : ∃ here, t.target? d = some (.folder here) := by
  rw [follow] at h
  split at h
  · cases h
  · cases h
  · exact ⟨_, ‹_›⟩

theorem follow_keeps (hk : Keeps givenUp d d') {steps : List Text} (ht : Leads d t)
    (ht' : Leads d' t') (hsteps : t'.map Prod.fst = t.map Prod.fst)
    (h : d.follow t steps = .ok r) :
    Leads d r ∧ ∃ r', d'.follow t' steps = .ok r' ∧ Leads d' r' ∧
      r'.map Prod.fst = r.map Prod.fst := by
  induction steps generalizing t t' with
  | nil =>
    cases h
    exact ⟨ht, t', rfl, ht', hsteps⟩
  | cons step rest ih =>
    obtain ⟨here, hhere⟩ := exists_folder_of_follow h
    have hnames : t'.names = t.names := congrArg List.reverse hsteps
    obtain ⟨here', hhere'⟩ := hk.folders (ht.reach?_names.trans hhere)
    rw [← hnames, ht'.reach?_names] at hhere'
    rw [follow_folder hhere] at h
    rw [follow_folder hhere']
    split at h
    · rename_i hstay
      rw [if_pos hstay]
      exact ih ht ht' hsteps h
    · rename_i hstay
      rw [if_neg hstay]
      split at h
      · rename_i hup
        rw [if_pos hup]
        exact ih (ht.up hhere) (ht'.up hhere') (steps_up hsteps here here') h
      · rename_i hup
        rw [if_neg hup]
        split at h
        · cases h
        · rename_i hshort
          rw [if_neg hshort]
          rw [Bool.not_eq_true] at hup
          refine ih (.down ht hhere hup) (.down ht' hhere' hup) ?_ h
          rw [List.map_cons, List.map_cons, hsteps]

theorem leads_follow {steps : List Text} (h : d.follow [] steps = .ok r) : Leads d r :=
  (follow_keeps (.refl (fun _ => False) d) .top .top rfl h).1

end Directory
end ChunkTree

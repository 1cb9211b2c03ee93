import ChunkTree.Proofs.Statement.Nested

namespace ChunkTree
namespace Statement

mutual

def height : Statement → Nat
  | .plain .. => 1
  | .block _ statements => 1 + heightAll statements
  | .conditional _ _ thenBranch elseBranch => 1 + max thenBranch.height (heightOptional elseBranch)
  | .switch _ _ entries => 1 + heightEntries entries
  | .guarded _ _ body clauses cleanup =>
    1 + max body.height (max (heightClauses clauses) (heightOptional cleanup))
  | .headed _ _ body => 1 + body.height
  | .other _ _ _ children => 1 + heightAll children

def heightAll : List Statement → Nat
  | [] => 0
  | s :: rest => max s.height (heightAll rest)

def heightOptional : Option Statement → Nat
  | none => 0
  | some s => s.height

def heightEntries : List (SwitchEntry Statement) → Nat
  | [] => 0
  | ⟨_, statements⟩ :: rest => max (heightAll statements) (heightEntries rest)

def heightClauses : List (CatchClause Statement) → Nat
  | [] => 0
  | ⟨_, body⟩ :: rest => max body.height (heightClauses rest)

end

theorem height_pos (s : Statement) : 0 < s.height := by
  cases s <;> rw [height] <;> omega

theorem height_le_heightAll {statements : List Statement} {s : Statement} (h : s ∈ statements) :
    s.height ≤ heightAll statements := by
  induction statements with
  | nil => cases h
  | cons c rest ih =>
    rw [heightAll]
    rcases List.mem_cons.mp h with rfl | h
    · exact Nat.le_max_left _ _
    · exact Nat.le_trans (ih h) (Nat.le_max_right _ _)

theorem height_le_heightOptional {o : Option Statement} {s : Statement} (h : s ∈ o.toList) :
    s.height ≤ heightOptional o := by
  obtain rfl : o = some s := Option.mem_toList.mp h
  exact Nat.le_refl _

theorem height_le_heightEntries {entries : List (SwitchEntry Statement)} {s : Statement}
    (h : s ∈ entries.flatMap (·.statements)) : s.height ≤ heightEntries entries := by
  induction entries with
  | nil => cases h
  | cons e rest ih =>
    rw [heightEntries]
    rw [List.flatMap_cons, List.mem_append] at h
    rcases h with h | h
    · exact Nat.le_trans (height_le_heightAll h) (Nat.le_max_left _ _)
    · exact Nat.le_trans (ih h) (Nat.le_max_right _ _)

theorem height_le_heightClauses {clauses : List (CatchClause Statement)} {s : Statement}
    (h : s ∈ clauses.map (·.body)) : s.height ≤ heightClauses clauses := by
  induction clauses with
  | nil => cases h
  | cons c rest ih =>
    rw [heightClauses]
    rw [List.map_cons, List.mem_cons] at h
    rcases h with rfl | h
    · exact Nat.le_max_left _ _
    · exact Nat.le_trans (ih h) (Nat.le_max_right _ _)

theorem height_lt_of_mem_nested {s c : Statement} (h : c ∈ s.nested) : c.height < s.height := by
  cases s with
  | plain span text => cases h
  | block span statements =>
    have hc : c.height ≤ heightAll statements := height_le_heightAll h
    rw [height]
    omega
  | conditional span condition thenBranch elseBranch =>
    rw [height]
    rcases List.mem_cons.mp h with rfl | h
    · omega
    · have hc := height_le_heightOptional h
      omega
  | switch span selector entries =>
    have hc := height_le_heightEntries h
    rw [height]
    omega
  | guarded span resources body clauses cleanup =>
    rw [height]
    rcases List.mem_cons.mp h with rfl | h
    · omega
    · rcases List.mem_append.mp h with h | h
      · have hc := height_le_heightClauses h
        omega
      · have hc := height_le_heightOptional h
        omega
  | headed span head body =>
    rw [height]
    obtain rfl := List.mem_singleton.mp h
    omega
  | other span label header children =>
    have hc : c.height ≤ heightAll children := height_le_heightAll h
    rw [height]
    omega

theorem self_mem_subtree (s : Statement) : s ∈ s.subtree := by
  rw [subtree_eq]
  exact List.mem_cons_self

theorem mem_subtree_of_nested {s c x : Statement} (hc : c ∈ s.nested) (hx : x ∈ c.subtree) :
    x ∈ s.subtree := by
  rw [subtree_eq]
  exact List.mem_cons_of_mem s (List.mem_flatMap.mpr ⟨c, hc, hx⟩)

theorem height_le_of_mem_subtree {s x : Statement} (h : x ∈ s.subtree) : x.height ≤ s.height := by
  induction s using nestedInduction with
  | step s ih =>
    rw [subtree_eq, List.mem_cons, List.mem_flatMap] at h
    rcases h with rfl | ⟨c, hc, hx⟩
    · exact Nat.le_refl _
    · exact Nat.le_trans (ih c hc hx) (Nat.le_of_lt (height_lt_of_mem_nested hc))

theorem mem_subtree_trans {s x y : Statement} (hx : x ∈ s.subtree) (hy : y ∈ x.subtree) :
    y ∈ s.subtree := by
  induction s using nestedInduction with
  | step s ih =>
    rw [subtree_eq, List.mem_cons, List.mem_flatMap] at hx
    rcases hx with rfl | ⟨c, hc, hx⟩
    · exact hy
    · exact mem_subtree_of_nested hc (ih c hc hx)

end Statement
end ChunkTree

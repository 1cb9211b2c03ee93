import ChunkTree.Oracle.Basic
import ChunkTree.Text.Quoted

namespace ChunkTree

structure Config where
  unitBudget : Nat
  chunkBudget : Nat
  metric : MetricKind
  truncation : Truncation
  placeholder : Text
  maxDepth : Nat
deriving DecidableEq, Repr

namespace Config

def defaultPlaceholder : Text := "<BLOCK>".toList

def standard : Config := ⟨2048, 512, .approxTokens, .hard, defaultPlaceholder, 64⟩

def forLlmContext : Config := { standard with chunkBudget := 1024, metric := .bpe }

def forEmbeddings : Config :=
  { standard with unitBudget := 512, chunkBudget := 384, truncation := .wordBoundary }

inductive Flaw where
  | zeroUnitBudget
  | zeroChunkBudget
  | chunkAboveUnit (chunk unit : Nat)
  | emptyPlaceholder
  | blankPlaceholder (placeholder : Text)
  | zeroDepth
deriving DecidableEq, Repr

def Flaw.message : Flaw → Text
  | zeroUnitBudget => "unit_budget must be > 0".toList
  | zeroChunkBudget => "chunk_budget must be > 0".toList
  | chunkAboveUnit chunk unit =>
    "chunk_budget (".toList ++ Text.decimal chunk ++ ") cannot exceed unit_budget (".toList ++
      Text.decimal unit ++ [')']
  | emptyPlaceholder => "placeholder must not be empty".toList
  | blankPlaceholder placeholder =>
    "placeholder ".toList ++ Text.quoted placeholder ++ " must not contain whitespace".toList
  | zeroDepth => "max_depth must be > 0".toList

/-- The first flaw of a config, budgets before placeholder before depth. -/
def flaw? (c : Config) : Option Flaw :=
  if c.unitBudget = 0 then some .zeroUnitBudget
  else if c.chunkBudget = 0 then some .zeroChunkBudget
  else if c.unitBudget < c.chunkBudget then some (.chunkAboveUnit c.chunkBudget c.unitBudget)
  else if c.placeholder.isEmpty then some .emptyPlaceholder
  else if c.placeholder.any Text.isBlank then some (.blankPlaceholder c.placeholder)
  else if c.maxDepth = 0 then some .zeroDepth
  else none

structure Valid (c : Config) : Prop where
  unit_pos : 0 < c.unitBudget
  chunk_pos : 0 < c.chunkBudget
  chunk_le_unit : c.chunkBudget ≤ c.unitBudget
  placeholder_ne_nil : c.placeholder ≠ []
  placeholder_no_blank : ∀ x ∈ c.placeholder, Text.isBlank x = false
  depth_pos : 0 < c.maxDepth

theorem flaw?_eq_none_iff (c : Config) : c.flaw? = none ↔ c.Valid := by
  constructor
  · intro h
    rw [flaw?] at h
    repeat' split at h
    all_goals simp_all
    rename_i hu hc hcu hp hb hd
    exact ⟨Nat.pos_of_ne_zero hu, Nat.pos_of_ne_zero hc, hcu, hp, hb, Nat.pos_of_ne_zero hd⟩
  · intro h
    have hu := Nat.pos_iff_ne_zero.mp h.unit_pos
    have hc := Nat.pos_iff_ne_zero.mp h.chunk_pos
    have hd := Nat.pos_iff_ne_zero.mp h.depth_pos
    have hcu := h.chunk_le_unit
    have hb : c.placeholder.any Text.isBlank = false := by
      simpa using h.placeholder_no_blank
    simp [flaw?, hu, hc, hd, hb, h.placeholder_ne_nil, Nat.not_lt.mpr hcu]

def budgets (c : Config) : Budgets := ⟨c.unitBudget, c.chunkBudget⟩

def oracle (measure : Metric) (c : Config) : Oracle := Oracle.ofMetric measure c.budgets c.truncation

end Config
end ChunkTree

import ChunkTree.Oracle.Truncation

namespace ChunkTree

structure Budgets where
  unit : Nat
  chunk : Nat
deriving DecidableEq, Repr

structure Oracle where
  measure : Metric
  budgets : Budgets
  truncate : Text → Text

namespace Oracle

def ofMetric (metric : Metric) (budgets : Budgets) (strategy : Truncation) : Oracle where
  measure := metric
  budgets := budgets
  truncate := strategy.cut metric budgets.unit

def fitsUnit (o : Oracle) (t : Text) : Bool := o.measure t ≤ o.budgets.unit

def fitsChunk (o : Oracle) (t : Text) : Bool := o.measure t ≤ o.budgets.chunk

/-- What a truncation has to keep to: it returns a first part of the text that fits the unit budget,
and its own results as they are. -/
structure Honest (o : Oracle) : Prop where
  isPrefix : ∀ t, o.truncate t <+: t
  fits : ∀ t, o.fitsUnit (o.truncate t) = true
  stable : ∀ t, o.truncate (o.truncate t) = o.truncate t

end Oracle
end ChunkTree

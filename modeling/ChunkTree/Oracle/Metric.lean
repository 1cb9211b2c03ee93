import ChunkTree.Text.Basic

namespace ChunkTree

abbrev Metric := Text → Nat

def Metric.Monotone (m : Metric) : Prop := ∀ s t : Text, m s ≤ m (s ++ t)

inductive MetricKind where
  | chars
  | approxTokens
  | bpe
deriving DecidableEq, Repr

namespace Metric

def chars : Metric := List.length

/-- Four bytes make about one token; a part of a token counts as one. -/
def approxTokens : Metric := fun t => (Text.byteLength t + 3) / 4

theorem chars_monotone : Monotone chars := fun s t => by simp [chars]

theorem approxTokens_monotone : Monotone approxTokens := fun s t => by
  simp only [approxTokens, Text.byteLength_append]
  omega

end Metric

/-- What loading the byte-pair tokenizer comes to: its count of tokens, or why there is none. -/
abbrev Tokenizer := Except Text Metric

namespace MetricKind

def load (t : Tokenizer) : MetricKind → Except Text Metric
  | chars => .ok Metric.chars
  | approxTokens => .ok Metric.approxTokens
  | bpe =>
    match t with
    | .ok tokens => .ok tokens
    | .error reason => .error ("Failed to load cl100k_base: ".toList ++ reason)

def all : List MetricKind := [chars, approxTokens, bpe]

def name : MetricKind → Text
  | chars => "chars".toList
  | approxTokens => "approx_tokens".toList
  | bpe => "bpe".toList

def ofName? (name : Text) : Option MetricKind := all.find? (fun kind => kind.name == name)

theorem ofName?_name (kind : MetricKind) : ofName? kind.name = some kind := by
  cases kind <;> decide

end MetricKind
end ChunkTree

import ChunkTree.Proofs.Command.Running

namespace ChunkTree

namespace Options

variable {t : Tokenizer} {o : Options} {c : Config} {oracle : Oracle} {d : Directory}
  {read : FileReader} {path : Text} {arguments : List Text}

section

variable (hfast : o.failFast = false) (h : ∀ path ∈ o.inputs, Splits oracle c read path)
  (hsetUp : o.setUp t read = .ok (c, oracle))

include hfast h

include hsetUp

end

/-- Counts a run of letters or of other signs as one token, with a blank in front of it. -/
def tokensAfter (last : Char) : Text → Nat
  | [] => 0
  | c :: t =>
    (if last = ' ' ∨ c ≠ ' ' ∧ last.isAlpha = c.isAlpha then 0 else 1) + tokensAfter c t

def sampleTokens : Metric
  | [] => 0
  | c :: t => 1 + tokensAfter c t

def sampleUnit : SourceUnit :=
  ⟨"f".toList, "f()".toList, .block none [.plain none "go();".toList], none⟩

end Options
end ChunkTree

import ChunkTree.Stats.Basic
import ChunkTree.Decimal.Fixed

namespace ChunkTree

structure Summary where
  chunks : Nat
  truncated : Nat
  truncatedLength : Nat
  failedInputs : Nat
  averageTruncatedLength : Option Float
  diagnostics : Nat

namespace Summary

def text (s : Summary) : Text :=
  "Number of failed inputs: ".toList ++ Text.decimal s.failedInputs ++
    "\nNumber of truncated chunks: ".toList ++ Text.decimal s.truncated ++
    "\nNumber of chunks: ".toList ++ Text.decimal s.chunks ++
    "\nAverage truncated length: ".toList ++
    match s.averageTruncatedLength with
    | some average => (Double.ofBits average.toBits).fixedText
    | none => ['/']

end Summary

namespace Stats

def averageTruncatedLength (s : Stats) : Option Float :=
  if s.truncated = 0 then none
  else some (doubleOfCount s.truncatedLength / doubleOfCount s.truncated)

def summary (s : Stats) : Summary where
  chunks := s.chunks
  truncated := s.truncated
  truncatedLength := s.truncatedLength
  failedInputs := s.failedInputs
  averageTruncatedLength := s.averageTruncatedLength
  diagnostics := s.diagnostics.length

def logText (s : Stats) : Text :=
  s.summary.text ++ s.diagnostics.flatMap (fun d => '\n' :: '\n' :: d.text) ++ ['\n']

end Stats
end ChunkTree

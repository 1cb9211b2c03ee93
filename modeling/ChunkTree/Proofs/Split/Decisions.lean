import ChunkTree.Split.Dissect

namespace ChunkTree
namespace Splitter

variable {S T : Splitter}

structure DissectsAs (S T : Splitter) : Prop where
  fitsChunk : S.oracle.fitsChunk = T.oracle.fitsChunk
  placeholder : S.placeholder = T.placeholder
  maxDepth : S.maxDepth = T.maxDepth

theorem DissectsAs.dissectWith (h : DissectsAs S T) : S.dissectWith = T.dissectWith := by
  funext s cutChildren text depth
  simp only [Splitter.dissectWith, h.fitsChunk, h.maxDepth]

theorem DissectsAs.cutOut (h : DissectsAs S T) : S.cutOut = T.cutOut := by
  funext s cutChildren stretch depth f
  simp only [Splitter.cutOut, h.dissectWith]

theorem DissectsAs.splitsBoth (h : DissectsAs S T) : S.splitsBoth = T.splitsBoth := by
  funext condition thenBranch text
  simp only [Splitter.splitsBoth, h.fitsChunk, h.placeholder]

mutual

theorem DissectsAs.cutChildren (h : DissectsAs S T) :
    ∀ s : Statement, S.cutChildren s = T.cutChildren s
  | .plain .. => rfl
  | .block _ statements => by
    funext depth f
    simp only [Splitter.cutChildren, h.cutEach statements]
  | .conditional _ _ thenBranch elseBranch => by
    funext depth f
    simp only [Splitter.cutChildren, h.cutChild thenBranch, h.cutOptional elseBranch]
  | .switch .. => rfl
  | .guarded _ _ body _ _ => by
    funext depth f
    simp only [Splitter.cutChildren, h.cutChild body]
  | .headed _ _ body => by
    funext depth f
    simp only [Splitter.cutChildren, h.cutChild body]
  | .other _ _ _ children => by
    funext depth f
    simp only [Splitter.cutChildren, h.cutEach children]

theorem DissectsAs.cutEach (h : DissectsAs S T) :
    ∀ statements : List Statement, S.cutEach statements = T.cutEach statements
  | [] => rfl
  | s :: rest => by
    funext depth f
    simp only [Splitter.cutEach, h.cutChild s, h.cutEach rest]

theorem DissectsAs.cutOptional (h : DissectsAs S T) :
    ∀ s : Option Statement, S.cutOptional s = T.cutOptional s
  | none => rfl
  | some s => by
    funext depth f
    simp only [Splitter.cutOptional, h.cutChild s]

theorem DissectsAs.cutChild (h : DissectsAs S T) :
    ∀ s : Statement, S.cutChild s = T.cutChild s
  | .plain span text => by
    funext depth f
    simp only [Splitter.cutChild, h.fitsChunk, h.cutOut]
  | .block span statements => by
    funext depth f
    simp only [Splitter.cutChild, h.fitsChunk, h.cutOut, h.cutEach statements]
  | .conditional span condition thenBranch none => by
    funext depth f
    simp only [Splitter.cutChild, h.fitsChunk, h.cutOut, h.cutChildren thenBranch]
  | .conditional span condition thenBranch (some other) => by
    funext depth f
    simp only [Splitter.cutChild, h.fitsChunk, h.cutOut, h.splitsBoth, h.cutChildren thenBranch,
      h.cutChildren other]
  | .switch span selector entries => by
    funext depth f
    simp only [Splitter.cutChild, h.fitsChunk, h.cutEntries entries]
  | .guarded span resources body clauses cleanup => by
    funext depth f
    simp only [Splitter.cutChild, h.fitsChunk, h.cutOut, h.cutChildren body]
  | .headed span head body => by
    funext depth f
    simp only [Splitter.cutChild, h.fitsChunk, h.cutOut, h.cutChildren body]
  | .other span label header children => by
    funext depth f
    simp only [Splitter.cutChild, h.fitsChunk, h.cutOut, h.cutEach children]

theorem DissectsAs.cutEntries (h : DissectsAs S T) :
    ∀ entries : List (SwitchEntry Statement), S.cutEntries entries = T.cutEntries entries
  | [] => rfl
  | ⟨_, statements⟩ :: rest => by
    funext depth f
    simp only [Splitter.cutEntries, h.cutOversized statements, h.cutEntries rest]

theorem DissectsAs.cutOversized (h : DissectsAs S T) :
    ∀ statements : List Statement, S.cutOversized statements = T.cutOversized statements
  | [] => rfl
  | s :: rest => by
    funext depth f
    simp only [Splitter.cutOversized, h.fitsChunk, h.cutOut, h.cutChildren s, h.cutOversized rest]

end

theorem DissectsAs.dissect (h : DissectsAs S T) : S.dissect = T.dissect := by
  funext s text depth
  simp only [Splitter.dissect, h.dissectWith, h.cutChildren s]

end Splitter
end ChunkTree

import ChunkTree.Text.Search

/-!
Chunk trees. Each placeholder in the content of a chunk stands for one of its children, from the
left; putting the children back in place of the placeholders gives the text a tree stands for.
-/

namespace ChunkTree

structure Chunk where
  content : Text
  children : List Chunk

namespace Chunk

def leaf (content : Text) : Chunk := ⟨content, []⟩

def isLeaf (c : Chunk) : Bool := c.children.isEmpty

/-- Occurrences of a marker in the content alone. The empty marker occurs nowhere. -/
def markerCount (marker : Text) (c : Chunk) : Nat := Text.occurrences marker c.content

mutual

/-- Every content of the tree has as many markers as it has children. -/
def isConsistent (marker : Text) : Chunk → Bool
  | ⟨content, children⟩ =>
    Text.occurrences marker content == children.length && allConsistent marker children

def allConsistent (marker : Text) : List Chunk → Bool
  | [] => true
  | c :: rest => c.isConsistent marker && allConsistent marker rest

end

mutual

def nodeCount : Chunk → Nat
  | ⟨_, children⟩ => 1 + nodeCounts children

def nodeCounts : List Chunk → Nat
  | [] => 0
  | c :: rest => c.nodeCount + nodeCounts rest

end

mutual

def height : Chunk → Nat
  | ⟨_, children⟩ => 1 + maxHeight children

def maxHeight : List Chunk → Nat
  | [] => 0
  | c :: rest => max c.height (maxHeight rest)

end

mutual

/-- The text with every marker replaced by the expansion of its child. Markers beyond the last child
stay as they are. -/
def expand (marker : Text) : Chunk → Text
  | ⟨content, children⟩ => Text.refill marker (Text.pieces marker content) (expandAll marker children)

def expandAll (marker : Text) : List Chunk → List Text
  | [] => []
  | c :: rest => c.expand marker :: expandAll marker rest

end

mutual

def preorder (depth : Nat) : Chunk → List (Nat × Text)
  | ⟨content, children⟩ => (depth, content) :: preorderAll (depth + 1) children

def preorderAll (depth : Nat) : List Chunk → List (Nat × Text)
  | [] => []
  | c :: rest => c.preorder depth ++ preorderAll depth rest

end

theorem allConsistent_eq_all (marker : Text) (chunks : List Chunk) :
    allConsistent marker chunks = chunks.all (isConsistent marker) := by
  induction chunks with
  | nil => rfl
  | cons c rest ih => simp [allConsistent, ih]

theorem expandAll_eq_map (marker : Text) (chunks : List Chunk) :
    expandAll marker chunks = chunks.map (expand marker) := by
  induction chunks with
  | nil => rfl
  | cons c rest ih => simp [expandAll, ih]

theorem preorderAll_eq_flatMap (depth : Nat) (chunks : List Chunk) :
    preorderAll depth chunks = chunks.flatMap (preorder depth) := by
  induction chunks with
  | nil => rfl
  | cons c rest ih => simp [preorderAll, ih]

end Chunk
end ChunkTree

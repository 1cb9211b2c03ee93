import ChunkTree.Text.Basic

namespace ChunkTree
namespace Text

/-- The one-line form of a text that follows a space (`spaced`) or anything else. A carriage return
counts as part of the line feed after it; on its own it is kept, as is a tab. -/
def flattenAfter (spaced : Bool) : Text → Text
  | [] => []
  | c :: t =>
    if c = '\r' ∧ t.head? = some '\n' then flattenAfter spaced t
    else if c = ' ' ∨ c = '\n' then
      if spaced then flattenAfter true t else ' ' :: flattenAfter true t
    else c :: flattenAfter false t

def flatten (t : Text) : Text := flattenAfter false t

def breaksToSpaces : Text → Text
  | [] => []
  | c :: t =>
    if c = '\r' ∧ t.head? = some '\n' then breaksToSpaces t
    else if c = '\n' then ' ' :: breaksToSpaces t
    else c :: breaksToSpaces t

def collapseSpaces : Text → Text
  | [] => []
  | c :: t =>
    if c = ' ' ∧ t.head? = some ' ' then collapseSpaces t
    else c :: collapseSpaces t

end Text
end ChunkTree

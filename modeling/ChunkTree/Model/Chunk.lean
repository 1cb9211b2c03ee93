import ChunkTree.Model.Record
import ChunkTree.Chunk

namespace ChunkTree
namespace Chunk

mutual

def toJson : Chunk → Json
  | ⟨content, []⟩ => .record [("content", .string content)]
  | ⟨content, c :: rest⟩ =>
    .record [("content", .string content), ("children", .array (c.toJson :: allToJson rest))]

def allToJson : List Chunk → List Json
  | [] => []
  | c :: rest => c.toJson :: allToJson rest

end

def read? : Nat → Json → Option Chunk
  | 0, _ => none
  | height + 1, j => do
    let [content, children] ← j.slots? ["content", "children"] | none
    return ⟨← content.required? Json.text?, ← children.orElse? [] (Json.listOf? (read? height))⟩

def ofJson? (j : Json) : Option Chunk := read? j.height j

end Chunk
end ChunkTree

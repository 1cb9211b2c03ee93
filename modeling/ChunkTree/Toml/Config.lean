import ChunkTree.Toml.Reader
import ChunkTree.Config.Error

namespace ChunkTree
namespace Toml

def count? : Toml → Option Nat
  | integer (Int.ofNat n) => some n
  | _ => none

def text? : Toml → Option Text
  | string t => some t
  | _ => none

def isEmpty : Toml → Bool
  | array [] => true
  | table _ [] => true
  | _ => false

/-- A choice is given by its name, or by a table that holds only that name with nothing under it. -/
def choice? {α : Type} (ofName : Text → Option α) : Toml → Option α
  | string t => ofName t
  | table _ [(name, value)] => if value.isEmpty then ofName name else none
  | _ => none

def setting? {α : Type} (fields : Fields) (name : String) (fallback : α) (read : Toml → Option α) :
    Option α :=
  match lookup? name.toList fields with
  | some value => read value
  | none => some fallback

end Toml

namespace Config

def ofFields? (fields : Toml.Fields) : Option Config := do
  return ⟨← Toml.setting? fields "unit_budget" standard.unitBudget Toml.count?,
    ← Toml.setting? fields "chunk_budget" standard.chunkBudget Toml.count?,
    ← Toml.setting? fields "metric" standard.metric (Toml.choice? MetricKind.ofName?),
    ← Toml.setting? fields "truncation" standard.truncation (Toml.choice? Truncation.ofName?),
    ← Toml.setting? fields "placeholder" standard.placeholder Toml.text?,
    ← Toml.setting? fields "max_depth" standard.maxDepth Toml.count?⟩

def ofToml (document : Text) : Except ConfigError Config :=
  match (Toml.read? document).bind ofFields? with
  | some c => c.validate
  | none => .error .malformed

def load (read : FileReader) (path : Text) : Except ConfigError Config :=
  match read path with
  | .ok document => ofToml document
  | .error e => .error (.unreadable e)

end Config
end ChunkTree

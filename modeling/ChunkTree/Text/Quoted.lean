import ChunkTree.Text.Blank

/-!
Quoted form of a text for messages: between double quotes, with quotes, backslashes and every
control or white-space character but the plain space escaped.
-/

namespace ChunkTree
namespace Text

def isControl (c : Char) : Bool := c.toNat < 0x20 || (0x7F ≤ c.toNat && c.toNat < 0xA0)

def escaped (c : Char) : Text :=
  if c = '"' then ['\\', '"']
  else if c = '\\' then ['\\', '\\']
  else if c = '\t' then ['\\', 't']
  else if c = '\n' then ['\\', 'n']
  else if c = '\r' then ['\\', 'r']
  else if c = '\x00' then ['\\', '0']
  else if c ≠ ' ' ∧ (isControl c ∨ isBlank c) then
    ['\\', 'u', '{'] ++ hexadecimal c.toNat ++ ['}']
  else [c]

def quoted (t : Text) : Text := '"' :: t.flatMap escaped ++ ['"']

end Text
end ChunkTree

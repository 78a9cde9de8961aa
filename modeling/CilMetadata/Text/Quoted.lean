import CilMetadata.Text.Extender
import CilMetadata.Text.Hex
import CilMetadata.Text.Invisible

/-!
# Quoted text

The form in which texts stand inside the written form of a value: between double quotes, with every
character that could not be told from what stands around it written as an escape.
-/

namespace CilMetadata.Text

def numberedEscape (c : Char) : List Char :=
  ['\\', 'u', '\x7b'] ++ (Hex.lower 1 c.toNat).toList ++ ['\x7d']

/-- The characters that a character is written as between quotes.  A blank stands for itself; other
characters without a shape, and those that are drawn onto their neighbour, are numbered. -/
def quotedChar (c : Char) : List Char :=
  if c = '"' then ['\\', '"']
  else if c = '\\' then ['\\', '\\']
  else if c = '\n' then ['\\', 'n']
  else if c = '\r' then ['\\', 'r']
  else if c = '\t' then ['\\', 't']
  else if c.toNat = 0 then ['\\', '0']
  else if c ≠ ' ' ∧ (isExtender c ∨ isInvisible c) then numberedEscape c
  else [c]

def quoted (s : String) : String :=
  String.ofList ('"' :: s.toList.flatMap quotedChar ++ ['"'])

/-- A list between square brackets, its items separated by commas. -/
def bracketed (items : List String) : String := "[" ++ ", ".intercalate items ++ "]"

end CilMetadata.Text

import CilMetadata.Flags
import CilMetadata.Token

/-!
# Types

A type as far as rows refer to it: its token, its name and its attributes.
-/

namespace CilMetadata

/-- The attributes of a type, unknown ones included. -/
structure TypeAttributes where
  bits : UInt32
  deriving DecidableEq, Repr

namespace TypeAttributes

def interface : Flag := ⟨"INTERFACE", 0x20⟩

def family : List Flag :=
  [⟨"PUBLIC", 0x1⟩, interface, ⟨"ABSTRACT", 0x80⟩, ⟨"SEALED", 0x100⟩, ⟨"IMPORT", 0x1000⟩,
    ⟨"BEFORE_FIELD_INIT", 0x100000⟩]

end TypeAttributes

/-- A type: a definition, a reference or a specification. -/
structure CilType where
  token : Token
  space : String
  name : String
  flags : TypeAttributes
  deriving DecidableEq, Repr

namespace CilType

/-- The name of a type after its namespace, if it has one. -/
def fullName (t : CilType) : String :=
  if t.space = "" then t.name else t.space ++ "." ++ t.name

def isInterface (t : CilType) : Bool := TypeAttributes.interface.isIn t.flags.bits

/-- The text of a type: its token and its full name. -/
def describe (t : CilType) : String := "CilType(" ++ t.token.text ++ ", " ++ t.fullName ++ ")"

/-- The text of a type that may be absent. -/
def describe? : Option CilType → String
  | none => "None"
  | some t => "Some(" ++ t.describe ++ ")"

end CilType
end CilMetadata

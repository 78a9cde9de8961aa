import CilMetadata.Flags
import CilMetadata.Token

/-!
# Exception handlers

A clause of a method body: a protected range of code and the code that handles it.
-/

namespace CilMetadata

/-- The kind of a clause, unknown bits included. -/
structure HandlerFlags where
  bits : UInt16
  deriving DecidableEq, Repr

namespace HandlerFlags

def family : List Flag := [⟨"EXCEPTION", 0⟩, ⟨"FILTER", 1⟩, ⟨"FINALLY", 2⟩, ⟨"FAULT", 4⟩]

end HandlerFlags

/-- A clause that handles exceptions of a range of code. -/
structure ExceptionHandler where
  flags : HandlerFlags
  tryOffset : UInt32
  tryLength : UInt32
  handlerOffset : UInt32
  handlerLength : UInt32
  /-- the type of the exceptions that are caught -/
  caught : Option Token
  filterOffset : UInt32
  deriving DecidableEq, Repr

namespace ExceptionHandler

/-- The end of a range, if 32 bits hold it. -/
def rangeEnd? (offset length : UInt32) : Option UInt32 :=
  if offset.toNat + length.toNat < 0x100000000 then some (offset + length) else none

/-- Whether a clause catches exceptions by their type. -/
def isCatch (h : ExceptionHandler) : Bool :=
  h.flags.bits.toUInt32 &&& Flag.union HandlerFlags.family = 0

def tryEnd? (h : ExceptionHandler) : Option UInt32 := rangeEnd? h.tryOffset h.tryLength

def handlerEnd? (h : ExceptionHandler) : Option UInt32 := rangeEnd? h.handlerOffset h.handlerLength

end ExceptionHandler
end CilMetadata

import CilMetadata.Body.ExceptionHandler
import CilMetadata.Body.Instruction
import CilMetadata.Body.LocalList

/-!
# Method bodies

The body of a method is native code at an address, or instructions with exception handlers and
local slots.

* `ofParts?_eq_ok_iff`: parts are accepted exactly if they can be counted, and then unchanged.
-/

namespace CilMetadata

/-- The flags in the header of a body. -/
structure HeaderFlags where
  bits : UInt16
  deriving DecidableEq, Repr

namespace HeaderFlags

/-- A header of twelve bytes. -/
def fat : Flag := ⟨"FAT_FORMAT", 0x3⟩

/-- Exception handlers follow the code. -/
def moreSections : Flag := ⟨"MORE_SECTS", 0x8⟩

/-- Locals start as zero. -/
def initLocals : Flag := ⟨"INIT_LOCALS", 0x10⟩

def family : List Flag := [⟨"TINY_FORMAT", 0x2⟩, fat, moreSections, initLocals]

def contains (h : HeaderFlags) (flag : Flag) : Bool := flag.isIn h.bits.toUInt32

end HeaderFlags

/-- A body of instructions. -/
structure CilBody where
  initLocals : Bool
  maxStack : UInt16
  localSignature : UInt32
  instructions : List Instruction
  handlers : List ExceptionHandler
  locals : LocalList
  deriving BEq

/-- The body of a method. -/
inductive MethodBody where
  | native (rva : UInt32)
  | cil (body : CilBody)
  deriving BEq

namespace CilBody

/-- A body without instructions, whose locals start as zero. -/
def empty : CilBody := ⟨true, 0, 0, [], [], .empty⟩

/-- The body of some parts. -/
def ofParts (initLocals : Bool) (instructions : List Instruction) (handlers : List ExceptionHandler)
    (locals : List Local) : CilBody :=
  { empty with initLocals, instructions, handlers, locals := .ofList locals }

/-- The body of some parts, if the slots can be numbered in 16 bits and the rest counted in 32. -/
def ofParts? (initLocals : Bool) (instructions : List Instruction) (handlers : List ExceptionHandler)
    (locals : List Local) : Except Error CilBody :=
  if maxLocals < locals.length then
    .error (.malformedBody (.tooManyLocals locals.length))
  else if 0x100000000 ≤ instructions.length then
    .error (.malformedBody (.tooManyInstructions instructions.length))
  else if 0x100000000 ≤ handlers.length then
    .error (.malformedBody (.tooManyHandlers handlers.length))
  else .ok (ofParts initLocals instructions handlers locals)

/-- The flags in the header of a body, which is always written in the large format. -/
def headerFlags (b : CilBody) : HeaderFlags :=
  ⟨(HeaderFlags.fat.mask ||| (if b.handlers.isEmpty then 0 else HeaderFlags.moreSections.mask)
    ||| (if b.initLocals then HeaderFlags.initLocals.mask else 0)).toUInt16⟩

def pushInstruction (b : CilBody) (i : Instruction) : CilBody :=
  { b with instructions := b.instructions ++ [i] }

/-- Puts an instruction before the one at a position, or at the end. -/
def insertInstruction (b : CilBody) (n : Nat) (i : Instruction) : CilBody :=
  { b with instructions := b.instructions.insertIdx n i }

def removeInstruction (b : CilBody) (n : Nat) : Option Instruction × CilBody :=
  (b.instructions[n]?, { b with instructions := b.instructions.eraseIdx n })

/-- Replaces all instructions; answers the ones that were there. -/
def setInstructions (b : CilBody) (is : List Instruction) : List Instruction × CilBody :=
  (b.instructions, { b with instructions := is })

def pushHandler (b : CilBody) (h : ExceptionHandler) : CilBody :=
  { b with handlers := b.handlers ++ [h] }

def insertHandler (b : CilBody) (n : Nat) (h : ExceptionHandler) : CilBody :=
  { b with handlers := b.handlers.insertIdx n h }

def removeHandler (b : CilBody) (n : Nat) : Option ExceptionHandler × CilBody :=
  (b.handlers[n]?, { b with handlers := b.handlers.eraseIdx n })

def clearHandlers (b : CilBody) : CilBody := { b with handlers := [] }

theorem ofParts?_eq_ok_iff {initLocals : Bool} {instructions : List Instruction}
    {handlers : List ExceptionHandler} {locals : List Local} {b : CilBody} :
    ofParts? initLocals instructions handlers locals = .ok b ↔
      (locals.length ≤ maxLocals ∧ instructions.length < 0x100000000 ∧ handlers.length < 0x100000000) ∧
        b = ofParts initLocals instructions handlers locals := by
  unfold ofParts?
  split
  · rename_i h
    exact ⟨fun hc => (nomatch hc), fun hc => absurd hc.1.1 (Nat.not_le.mpr h)⟩
  · rename_i h₁
    split
    · rename_i h
      exact ⟨fun hc => (nomatch hc), fun hc => absurd hc.1.2.1 (Nat.not_lt.mpr h)⟩
    · rename_i h₂
      split
      · rename_i h
        exact ⟨fun hc => (nomatch hc), fun hc => absurd hc.1.2.2 (Nat.not_lt.mpr h)⟩
      · rename_i h₃
        rw [Except.ok.injEq]
        exact ⟨fun hc => ⟨⟨Nat.not_lt.mp h₁, Nat.not_le.mp h₂, Nat.not_le.mp h₃⟩, hc.symm⟩,
          fun hc => hc.2.symm⟩

end CilBody

namespace MethodBody

def isNative : MethodBody → Bool
  | .native _ => true
  | .cil _ => false

def isCil : MethodBody → Bool
  | .native _ => false
  | .cil _ => true

/-- The address of native code. -/
def rva? : MethodBody → Option UInt32
  | .native rva => some rva
  | .cil _ => none

/-- The instructions, if the body consists of them. -/
def cil? : MethodBody → Option CilBody
  | .native _ => none
  | .cil body => some body

/-- Moves native code to another address; instructions have none. -/
def setRva (rva : UInt32) : MethodBody → MethodBody
  | .native _ => .native rva
  | .cil body => .cil body

end MethodBody
end CilMetadata

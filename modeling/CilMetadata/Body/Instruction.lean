import CilMetadata.Body.Immediate
import CilMetadata.Token

/-!
# Instructions

A decoded instruction: where it stands, its opcode and name, how control flows on from it, and its
operand.
-/

namespace CilMetadata

/-- What an instruction works on. -/
inductive Operand where
  | none
  | immediate (v : Immediate)
  /-- the offset of another instruction -/
  | target (offset : UInt32)
  | token (k : Token)
  | localSlot (index : UInt16)
  | argument (index : UInt16)
  /-- the distances of the targets of a switch -/
  | switch (distances : List Int32)
  deriving BEq

/-- How control flows on from an instruction. -/
inductive FlowType where
  | sequential | conditionalBranch | unconditionalBranch | call | ret | switch | throw | endFinally
  | leave
  deriving DecidableEq, Repr

namespace FlowType

def all : List FlowType :=
  [.sequential, .conditionalBranch, .unconditionalBranch, .call, .ret, .switch, .throw, .endFinally,
    .leave]

def name : FlowType → String
  | .sequential => "Sequential"
  | .conditionalBranch => "ConditionalBranch"
  | .unconditionalBranch => "UnconditionalBranch"
  | .call => "Call"
  | .ret => "Return"
  | .switch => "Switch"
  | .throw => "Throw"
  | .endFinally => "EndFinally"
  | .leave => "Leave"

/-- Whether control may go to a target that the instruction names. -/
def isBranch : FlowType → Bool
  | .conditionalBranch | .unconditionalBranch | .switch => true
  | .sequential | .call | .ret | .throw | .endFinally | .leave => false

/-- Whether a basic block ends with the instruction. -/
def isTerminal : FlowType → Bool
  | .conditionalBranch | .unconditionalBranch | .ret | .switch | .throw | .leave => true
  | .sequential | .call | .endFinally => false

end FlowType

/-- A decoded instruction. -/
structure Instruction where
  offset : UInt32
  opcode : UInt8
  /-- the byte in front of the opcode; zero if there is none -/
  lead : UInt8
  mnemonic : String
  flow : FlowType
  operand : Operand
  deriving BEq

def Operand.text : Operand → String
  | .none => ""
  | .immediate v => " 0x" ++ v.hexText
  | .target offset => " IL_" ++ Text.Hex.upper 4 offset.toNat
  | .token k => " " ++ k.text
  | .localSlot index => " V_" ++ toString index.toNat
  | .argument index => " A_" ++ toString index.toNat
  | .switch distances => " switch(" ++ toString distances.length ++ ")"

namespace Instruction

/-- Whether control may go to a target that the instruction names. -/
def isBranch (i : Instruction) : Bool := i.flow.isBranch

/-- Whether a basic block ends with the instruction. -/
def isTerminal (i : Instruction) : Bool := i.flow.isTerminal

def localIndex? (i : Instruction) : Option UInt16 :=
  match i.operand with
  | .localSlot index => some index
  | _ => none

/-- The text of an instruction: its offset, the byte in front if there is one, name and operand. -/
def text (i : Instruction) : String :=
  "IL_" ++ Text.Hex.upper 4 i.offset.toNat ++ ": "
    ++ (if i.lead = 0 then "" else Text.Hex.upper 2 i.lead.toNat ++ ":")
    ++ i.mnemonic ++ i.operand.text

end Instruction

end CilMetadata

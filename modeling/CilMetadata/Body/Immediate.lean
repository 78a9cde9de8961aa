import CilMetadata.Text.Hex

/-!
# Immediate operands

Numbers that stand in an instruction.  A float is kept as its bit pattern, so that no payload of a
NaN is lost; floats are compared as numbers all the same.

* `toNat_pattern_lt`: the pattern of an immediate fits into its width.
-/

namespace CilMetadata

-- the powers of the core library, also where another instance is in scope
attribute [local instance (2000)] instPowNat

/-- A float format, by the widths of its fields. -/
structure FloatFormat where
  exponentBits : Nat
  fractionBits : Nat

namespace FloatFormat

def single : FloatFormat := ⟨8, 23⟩

def double : FloatFormat := ⟨11, 52⟩

/-- A pattern with the highest exponent and a fraction stands for no number. -/
def isNaN (f : FloatFormat) (bits : Nat) : Bool :=
  bits / 2 ^ f.fractionBits % 2 ^ f.exponentBits + 1 = 2 ^ f.exponentBits
    && bits % 2 ^ f.fractionBits ≠ 0

def isZero (f : FloatFormat) (bits : Nat) : Bool := bits % 2 ^ (f.exponentBits + f.fractionBits) = 0

/-- Whether patterns stand for equal numbers: a NaN equals nothing, and both zeros are equal. -/
def sameNumber (f : FloatFormat) (a b : Nat) : Bool :=
  !f.isNaN a && !f.isNaN b && (a = b || f.isZero a && f.isZero b)

end FloatFormat

/-- A number that stands in an instruction. -/
inductive Immediate where
  | int8 (v : Int8) | uint8 (v : UInt8)
  | int16 (v : Int16) | uint16 (v : UInt16)
  | int32 (v : Int32) | uint32 (v : UInt32)
  | int64 (v : Int64) | uint64 (v : UInt64)
  | float32 (bits : UInt32) | float64 (bits : UInt64)

namespace Immediate

def hexDigits : Immediate → Nat
  | .int8 _ | .uint8 _ => 2
  | .int16 _ | .uint16 _ => 4
  | .int32 _ | .uint32 _ | .float32 _ => 8
  | .int64 _ | .uint64 _ | .float64 _ => 16

/-- The bit pattern of an immediate, a negative number in two's complement. -/
def pattern : Immediate → Nat
  | .int8 v => v.toUInt8.toNat
  | .uint8 v => v.toNat
  | .int16 v => v.toUInt16.toNat
  | .uint16 v => v.toNat
  | .int32 v => v.toUInt32.toNat
  | .uint32 v => v.toNat
  | .int64 v => v.toUInt64.toNat
  | .uint64 v => v.toNat
  | .float32 bits => bits.toNat
  | .float64 bits => bits.toNat

/-- The hexadecimal text of an immediate, as many digits as its width takes. -/
def hexText (v : Immediate) : String := Text.Hex.upper v.hexDigits v.pattern

/-- The value of an immediate in 64 bits, a signed one with its sign extended. -/
def toUInt64 : Immediate → UInt64
  | .int8 v => v.toInt64.toUInt64
  | .uint8 v => v.toUInt64
  | .int16 v => v.toInt64.toUInt64
  | .uint16 v => v.toUInt64
  | .int32 v => v.toInt64.toUInt64
  | .uint32 v => v.toUInt64
  | .int64 v => v.toUInt64
  | .uint64 v => v
  | .float32 bits => bits.toUInt64
  | .float64 bits => bits

/-- Immediates are equal if they are of one type and equal as numbers. -/
def same : Immediate → Immediate → Bool
  | .int8 a, .int8 b => a == b
  | .uint8 a, .uint8 b => a == b
  | .int16 a, .int16 b => a == b
  | .uint16 a, .uint16 b => a == b
  | .int32 a, .int32 b => a == b
  | .uint32 a, .uint32 b => a == b
  | .int64 a, .int64 b => a == b
  | .uint64 a, .uint64 b => a == b
  | .float32 a, .float32 b => FloatFormat.single.sameNumber a.toNat b.toNat
  | .float64 a, .float64 b => FloatFormat.double.sameNumber a.toNat b.toNat
  | _, _ => false

instance : BEq Immediate := ⟨same⟩

/-! ### Laws -/

theorem hexDigits_pos (v : Immediate) : 0 < v.hexDigits := by
  cases v <;> exact Nat.zero_lt_succ _

theorem toNat_pattern_lt (v : Immediate) : v.pattern < 16 ^ v.hexDigits := by
  cases v with
  | int8 v => exact v.toUInt8.toNat_lt
  | uint8 v => exact v.toNat_lt
  | int16 v => exact v.toUInt16.toNat_lt
  | uint16 v => exact v.toNat_lt
  | int32 v => exact v.toUInt32.toNat_lt
  | uint32 v => exact v.toNat_lt
  | int64 v => exact v.toUInt64.toNat_lt
  | uint64 v => exact v.toNat_lt
  | float32 bits => exact bits.toNat_lt
  | float64 bits => exact bits.toNat_lt

theorem hexText_eq (v : Immediate) :
    v.hexText = String.ofList (Text.Hex.digits .upper v.hexDigits v.pattern) :=
  Text.Hex.text_eq_of_lt .upper v.hexDigits_pos v.toNat_pattern_lt

end Immediate
end CilMetadata

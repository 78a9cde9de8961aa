import CilMetadata.Bytes.Reader

/-!
# Little-endian integers

Integers are stored with the least significant byte first, signed ones in two's complement.

* `number_spell`, `spell_number`: a number below `256 ^ w` and its `w` bytes determine each other.
-/

namespace CilMetadata.Bytes

-- the powers of the core library, also where another instance is in scope
attribute [local instance (2000)] instPowNat

/-- The number that bytes spell, least significant byte first. -/
def number : List UInt8 → Nat
  | [] => 0
  | b :: bs => b.toNat + 256 * number bs

/-- The lowest `w` bytes of a number, least significant first. -/
def spell : Nat → Nat → List UInt8
  | 0, _ => []
  | w + 1, n => UInt8.ofNat (n % 256) :: spell w (n / 256)

/-- The width and sign of a stored integer. -/
inductive IntFormat where
  | u8 | i8 | u16 | i16 | u32 | i32 | u64 | i64
  deriving DecidableEq, Repr

namespace IntFormat

def size : IntFormat → Nat
  | .u8 | .i8 => 1
  | .u16 | .i16 => 2
  | .u32 | .i32 => 4
  | .u64 | .i64 => 8

def signed : IntFormat → Bool
  | .u8 | .u16 | .u32 | .u64 => false
  | .i8 | .i16 | .i32 | .i64 => true

/-- The integer of a stored number. -/
def ofNumber (f : IntFormat) (n : Nat) : Int :=
  if f.signed then (n : Int).bmod (256 ^ f.size) else n

end IntFormat

namespace Reader

/-- The next integer of a format. -/
def int (f : IntFormat) : Reader Int := do
  let bytes ← take f.size
  return f.ofNumber (number bytes)

def byte : Reader UInt8 := do
  let bytes ← take 1
  return UInt8.ofNat (number bytes)

/-- The next unsigned column: four bytes if it is large, else two. -/
def column (large : Bool) : Reader UInt32 := do
  let bytes ← take (if large then 4 else 2)
  return UInt32.ofNat (number bytes)

end Reader

/-! ### Laws -/

@[simp] theorem length_spell (w n : Nat) : (spell w n).length = w := by
  induction w generalizing n with
  | zero => rfl
  | succ w ih => simp [spell, ih]

theorem number_spell (w n : Nat) : number (spell w n) = n % 256 ^ w := by
  induction w generalizing n with
  | zero => simp [spell, number, Nat.mod_one]
  | succ w ih =>
    have h : (UInt8.ofNat (n % 256)).toNat = n % 256 := by
      rw [UInt8.toNat_ofNat']
      omega
    rw [spell, number, ih, h, Nat.pow_succ', Nat.mod_mul]

theorem number_lt (bs : List UInt8) : number bs < 256 ^ bs.length := by
  induction bs with
  | nil => simp [number]
  | cons b bs ih =>
    have hb : b.toNat < 256 := b.toNat_lt
    rw [number, List.length_cons, Nat.pow_succ]
    omega

theorem spell_number (bs : List UInt8) : spell bs.length (number bs) = bs := by
  induction bs with
  | nil => rfl
  | cons b bs ih =>
    have hb : b.toNat < 256 := b.toNat_lt
    have h1 : (b.toNat + 256 * number bs) % 256 = b.toNat := by omega
    have h2 : (b.toNat + 256 * number bs) / 256 = number bs := by omega
    rw [List.length_cons, number, spell, h1, h2, ih, UInt8.ofNat_toNat]

theorem Reader.byte_eq_ok {data : List UInt8} {offset : Nat} {b : UInt8}
    (h : data[offset]? = some b) : byte.run data offset = (.ok b, offset + 1) := by
  obtain ⟨hlt, hb⟩ := List.getElem?_eq_some_iff.mp h
  rw [byte, run_bind_ok (take_eq_ok hlt), List.drop_eq_getElem_cons hlt, hb]
  simp [number]

theorem Reader.byte_eq_error {data : List UInt8} {offset : Nat} (h : data[offset]? = none) :
    byte.run data offset = (.error .outOfBounds, offset) := by
  have hle := List.getElem?_eq_none_iff.mp h
  rw [byte, run_bind_error (take_eq_error (Nat.lt_succ_of_le hle))]

end CilMetadata.Bytes

import CilMetadata.Proofs.Bytes.Span
import Mathlib.Algebra.BigOperators.Ring.Finset

/-!
# Integers at an offset

An integer is read exactly where all of its bytes are there, and what is read is told by the places of
its bytes.  Offsets are numbers here; a machine has words for them, which come to an end.  It computes
the end of a read with a check that the sum is a word, and so accepts no offset that it should not.

* `run_int`: what a read answers, by the bytes of the data;
* `wordRead_eq`: reads at machine words;
* `int_write`: an integer that was written is read back;
* `reads_integers`: all formats together, and columns.
-/

namespace CilMetadata.Bytes

-- the powers of the core library, also where another instance is in scope
attribute [local instance (2000)] instPowNat

/-! ### Places -/

/-- The number that bytes of the data spell, by the places of the bytes. -/
def placeSum (data : List UInt8) (offset w : Nat) : Nat :=
  ∑ i ∈ Finset.range w, (data.getD (offset + i) 0).toNat * 256 ^ i

theorem placeSum_succ {data : List UInt8} {offset w : Nat} {b : UInt8} (h : data[offset]? = some b) :
    placeSum data offset (w + 1) = b.toNat + 256 * placeSum data (offset + 1) w := by
  have hfirst : data.getD (offset + 0) 0 = b := by
    rw [Nat.add_zero, List.getD_eq_getElem?_getD, h, Option.getD_some]
  have hrest : ∀ i, (data.getD (offset + (i + 1)) 0).toNat * 256 ^ (i + 1) =
      256 * ((data.getD (offset + 1 + i) 0).toNat * 256 ^ i) := by
    intro i
    rw [Nat.add_comm i 1, ← Nat.add_assoc, Nat.add_comm 1 i, Nat.pow_succ, ← Nat.mul_assoc, Nat.mul_comm]
  rw [placeSum, Finset.sum_range_succ', hfirst, Nat.pow_zero, Nat.mul_one, placeSum, Finset.mul_sum,
    Nat.add_comm]
  simp only [hrest]

/-- **Places.**  Bytes of the data spell the sum of them by their places. -/
theorem number_slice {data : List UInt8} {offset w : Nat} (h : offset + w ≤ data.length) :
    number (slice data offset w) = placeSum data offset w := by
  induction w generalizing offset with
  | zero => simp [slice, number, placeSum]
  | succ w ih =>
    have hb := List.getElem?_eq_getElem (show offset < data.length by omega)
    rw [slice_succ hb, number, ih (by omega), placeSum_succ hb]

/-! ### Formats -/

namespace IntFormat

/-- The integers that a format can store. -/
def Holds (f : IntFormat) (v : Int) : Prop :=
  if f.signed then -((256 ^ f.size : Nat) : Int) ≤ 2 * v ∧ 2 * v < (256 ^ f.size : Nat)
  else 0 ≤ v ∧ v < (256 ^ f.size : Nat)

instance (f : IntFormat) (v : Int) : Decidable (f.Holds v) :=
  inferInstanceAs (Decidable (if f.signed then _ ∧ _ else _ ∧ _))

def toNumber (f : IntFormat) (v : Int) : Nat := (v % (256 ^ f.size : Nat)).toNat

def bytes (f : IntFormat) (v : Int) : List UInt8 := spell f.size (f.toNumber v)

theorem length_bytes (f : IntFormat) (v : Int) : (f.bytes v).length = f.size := length_spell _ _

/-- The stored numbers fall into two halves. -/
theorem exists_half (f : IntFormat) : ∃ half, 0 < half ∧ 256 ^ f.size = 2 * half :=
  ⟨256 ^ f.size / 2, by cases f <;> decide⟩

/-- **Two's complement.**  The upper half of the stored numbers is that of the negative integers. -/
theorem ofNumber_eq {f : IntFormat} {n : Nat} (h : n < 256 ^ f.size) :
    f.ofNumber n = if f.signed ∧ 256 ^ f.size ≤ 2 * n then (n : Int) - (256 ^ f.size : Nat) else n := by
  obtain ⟨half, -, hsize⟩ := f.exists_half
  rw [hsize] at h
  have hmod : (n : Int) % (2 * half : Nat) = n := Int.emod_eq_of_lt (by omega) (by omega)
  rw [ofNumber, Int.bmod, hsize, hmod]
  cases f.signed with
  | false => rfl
  | true =>
    simp only [if_true, true_and]
    split <;> split <;> omega

theorem holds_ofNumber {f : IntFormat} {n : Nat} (h : n < 256 ^ f.size) : f.Holds (f.ofNumber n) := by
  rw [ofNumber_eq h, Holds]
  cases f.signed with
  | false =>
    simp only [Bool.false_eq_true, if_false, false_and]
    omega
  | true =>
    simp only [if_true, true_and]
    split <;> omega

theorem toNumber_eq (f : IntFormat) (v : Int) : (f.toNumber v : Int) = v % (256 ^ f.size : Nat) := by
  obtain ⟨half, hpos, hsize⟩ := f.exists_half
  exact Int.toNat_of_nonneg (Int.emod_nonneg _ (by omega))

theorem toNumber_lt (f : IntFormat) (v : Int) : f.toNumber v < 256 ^ f.size := by
  obtain ⟨half, hpos, hsize⟩ := f.exists_half
  have hlt : v % (256 ^ f.size : Nat) < (256 ^ f.size : Nat) := Int.emod_lt_of_pos _ (by omega)
  rw [← toNumber_eq] at hlt
  omega

theorem ofNumber_toNumber {f : IntFormat} {v : Int} (h : f.Holds v) : f.ofNumber (f.toNumber v) = v := by
  have hnumber := f.toNumber_eq v
  rw [ofNumber_eq (f.toNumber_lt v)]
  rw [Holds] at h
  -- a negative integer is stored as its distance from the end of the stored numbers
  have hneg : v < 0 → -((256 ^ f.size : Nat) : Int) ≤ v →
      v % (256 ^ f.size : Nat) = v + (256 ^ f.size : Nat) := by
    intro hv hle
    rw [← Int.add_emod_right, Int.emod_eq_of_lt (by omega) (by omega)]
  have hsame : 0 ≤ v → v < (256 ^ f.size : Nat) → v % (256 ^ f.size : Nat) = v := Int.emod_eq_of_lt
  cases hsigned : f.signed with
  | false =>
    simp only [hsigned, Bool.false_eq_true, if_false, false_and] at h ⊢
    omega
  | true =>
    simp only [hsigned, if_true, true_and] at h ⊢
    split <;> omega

end IntFormat

/-! ### Reads -/

namespace Reader

variable {f : IntFormat} {data : List UInt8} {offset : Nat}

/-- **Reading.**  An integer is read exactly where all of its bytes are there. -/
theorem run_int (f : IntFormat) (data : List UInt8) (offset : Nat) :
    (int f).run data offset =
      if offset + f.size ≤ data.length then
        (.ok (f.ofNumber (placeSum data offset f.size)), offset + f.size)
      else (.error .outOfBounds, offset) := by
  split
  · rename_i h
    rw [int_eq_ok h, number_slice h]
  · rename_i h
    exact int_eq_error (Nat.lt_of_not_le h)

theorem placeSum_lt {w : Nat} (h : offset + w ≤ data.length) : placeSum data offset w < 256 ^ w := by
  have hlength : (slice data offset w).length = w := length_slice.mpr (.inr h)
  have hlt := number_lt (slice data offset w)
  rwa [hlength, number_slice h] at hlt

def columnFormat (large : Bool) : IntFormat := if large then .u32 else .u16

theorem run_column (large : Bool) (data : List UInt8) (offset : Nat) :
    (column large).run data offset =
      (((int (columnFormat large)).run data offset).1.map fun v => UInt32.ofNat v.toNat,
        ((int (columnFormat large)).run data offset).2) := by
  have hsize : (columnFormat large).size = if large then 4 else 2 := by cases large <;> rfl
  have hsigned : (columnFormat large).signed = false := by cases large <;> rfl
  by_cases h : offset + (columnFormat large).size ≤ data.length
  · rw [column_eq_ok hsize h, int_eq_ok h, IntFormat.ofNumber, hsigned]
    rfl
  · rw [int_eq_error (Nat.lt_of_not_le h), column, ← hsize, run_bind_error (take_eq_error (Nat.lt_of_not_le h))]
    rfl

end Reader

/-! ### Machine words -/

/-- The sum of two words, if it is a word: a sum that is not one comes out below its parts. -/
def checkedAdd (a b : UInt64) : Option UInt64 := if a + b < a then none else some (a + b)

theorem checkedAdd_eq (a b : UInt64) :
    (checkedAdd a b).map UInt64.toNat =
      if a.toNat + b.toNat < 2 ^ 64 then some (a.toNat + b.toNat) else none := by
  have ha := a.toNat_lt
  have hb := b.toNat_lt
  unfold checkedAdd
  by_cases h : a.toNat + b.toNat < 2 ^ 64
  · have hsum : (a + b).toNat = a.toNat + b.toNat := by rw [UInt64.toNat_add, Nat.mod_eq_of_lt h]
    have hle : ¬ a + b < a := by
      rw [UInt64.lt_iff_toNat_lt]
      omega
    rw [if_neg hle, if_pos h, Option.map_some, hsum]
  · have hlt : a + b < a := by
      rw [UInt64.lt_iff_toNat_lt, UInt64.toNat_add]
      omega
    rw [if_pos hlt, if_neg h, Option.map_none]

/-- Reads `w` bytes at a word.  The end of the read is to be a word, and to lie in the data. -/
def wordRead {α : Type} (w : UInt64) (decode : List UInt8 → α) (data : List UInt8) (offset : UInt64) :
    Except Error α × UInt64 :=
  match checkedAdd offset w with
  | none => (.error .outOfBounds, offset)
  | some last =>
    if data.length < last.toNat then (.error .outOfBounds, offset)
    else (.ok (decode (slice data offset.toNat w.toNat)), last)

/-- **Words.**  Data end at a word, so a read whose end is no word is one whose bytes are not there. -/
theorem wordRead_eq {α : Type} (w : UInt64) (decode : List UInt8 → α) {data : List UInt8}
    (hdata : data.length < 2 ^ 64) (offset : UInt64) :
    ((wordRead w decode data offset).1, (wordRead w decode data offset).2.toNat) =
      (do return decode (← Reader.take w.toNat) : Reader α).run data offset.toNat := by
  have hsum := checkedAdd_eq offset w
  unfold wordRead
  split
  · rename_i hnone
    rw [hnone] at hsum
    have hover : ¬ offset.toNat + w.toNat < 2 ^ 64 := fun h => by rw [if_pos h] at hsum; cases hsum
    rw [Reader.run_bind_error (Reader.take_eq_error (by omega))]
  · rename_i last hlast
    rw [hlast] at hsum
    have hword : offset.toNat + w.toNat < 2 ^ 64 := by
      refine Decidable.not_not.mp fun h => ?_
      rw [if_neg h] at hsum
      cases hsum
    rw [if_pos hword] at hsum
    have hend : last.toNat = offset.toNat + w.toNat := Option.some.inj hsum
    by_cases hlt : data.length < last.toNat
    · rw [if_pos hlt, Reader.run_bind_error (Reader.take_eq_error (hend ▸ hlt))]
    · rw [if_neg hlt, Reader.run_bind_ok (Reader.take_eq_ok (hend ▸ Nat.not_lt.mp hlt)), hend]
      rfl

/-- Reads an integer at a word. -/
def wordInt (f : IntFormat) : List UInt8 → UInt64 → Except Error Int × UInt64 :=
  wordRead (.ofNat f.size) fun bytes => f.ofNumber (number bytes)

theorem wordInt_eq (f : IntFormat) {data : List UInt8} (hdata : data.length < 2 ^ 64) (offset : UInt64) :
    ((wordInt f data offset).1, (wordInt f data offset).2.toNat) =
      (Reader.int f).run data offset.toNat := by
  have hsize : (UInt64.ofNat f.size).toNat = f.size := by cases f <;> rfl
  rw [wordInt, wordRead_eq _ _ hdata, hsize]
  rfl

/-! ### Writing -/

def write (data : List UInt8) (offset : Nat) (bytes : List UInt8) : List UInt8 :=
  data.take offset ++ (bytes ++ data.drop (offset + bytes.length))

section Write

variable {f : IntFormat} {data bytes : List UInt8} {offset : Nat}

theorem length_write (h : offset + bytes.length ≤ data.length) :
    (write data offset bytes).length = data.length := by
  simp only [write, List.length_append, List.length_take, List.length_drop]
  omega

theorem slice_write (h : offset + bytes.length ≤ data.length) :
    slice (write data offset bytes) offset bytes.length = bytes := by
  have hfront : (data.take offset).length = offset := List.length_take_of_le (by omega)
  rw [slice, write, List.drop_left' hfront, List.take_left]

/-- **Reading back.**  An integer that was written is read, whatever stands around it. -/
theorem int_write {v : Int} (hv : f.Holds v) (h : offset + f.size ≤ data.length) :
    (Reader.int f).run (write data offset (f.bytes v)) offset = (.ok v, offset + f.size) := by
  have hlength := f.length_bytes v
  have hfits : offset + (f.bytes v).length ≤ data.length := hlength.symm ▸ h
  have hslice : slice (write data offset (f.bytes v)) offset f.size = f.bytes v := by
    have hwritten := slice_write hfits
    rwa [hlength] at hwritten
  have hle : offset + f.size ≤ (write data offset (f.bytes v)).length := by
    rw [length_write hfits]
    exact h
  rw [Reader.int_eq_ok hle, hslice, IntFormat.bytes, number_spell, Nat.mod_eq_of_lt (f.toNumber_lt v),
    IntFormat.ofNumber_toNumber hv]

end Write

/-! ### All formats -/

/-- How the integers of a format are read and read back. -/
structure ReadsIntegers (f : IntFormat) : Prop where
  /-- an integer whose bytes are there is the sum of them by their places, in two's complement if it
  is signed -/
  read : ∀ data offset, offset + f.size ≤ data.length → (Reader.int f).run data offset =
    (.ok (if f.signed ∧ 256 ^ f.size ≤ 2 * placeSum data offset f.size
        then (placeSum data offset f.size : Int) - (256 ^ f.size : Nat)
        else placeSum data offset f.size),
      offset + f.size)
  refused : ∀ data offset, data.length < offset + f.size →
    (Reader.int f).run data offset = (.error .outOfBounds, offset)
  holds : ∀ data offset v next, (Reader.int f).run data offset = (.ok v, next) → f.Holds v
  /-- a machine reads alike, at every word -/
  words : ∀ data, data.length < 2 ^ 64 → ∀ offset : UInt64,
    ((wordInt f data offset).1, (wordInt f data offset).2.toNat) =
      (Reader.int f).run data offset.toNat
  written : ∀ data offset v, f.Holds v → offset + f.size ≤ data.length →
    (write data offset (f.bytes v)).length = data.length ∧
      (Reader.int f).run (write data offset (f.bytes v)) offset = (.ok v, offset + f.size)

theorem readsIntegers (f : IntFormat) : ReadsIntegers f where
  read data offset h := by
    rw [Reader.run_int, if_pos h, IntFormat.ofNumber_eq (Reader.placeSum_lt h)]
  refused _ _ h := Reader.int_eq_error h
  holds data offset v next h := by
    rw [Reader.run_int] at h
    split at h
    · rename_i hle
      cases h
      exact IntFormat.holds_ofNumber (Reader.placeSum_lt hle)
    · cases h
  words _ hdata offset := wordInt_eq f hdata offset
  written data offset v hv h := ⟨length_write ((f.length_bytes v).symm ▸ h), int_write hv h⟩

/-- How a column is read: as the unsigned integer of its width, with zeros above it. -/
structure ReadsColumn (large : Bool) (f : IntFormat) : Prop where
  read : ∀ data offset v next, (Reader.int f).run data offset = (.ok v, next) →
    ∃ c : UInt32, (Reader.column large).run data offset = (.ok c, next) ∧ (c.toNat : Int) = v
  refused : ∀ data offset e next, (Reader.int f).run data offset = (.error e, next) →
    (Reader.column large).run data offset = (.error e, next)

theorem readsColumn (large : Bool) : ReadsColumn large (Reader.columnFormat large) where
  read data offset v next h := by
    have hv := (readsIntegers (Reader.columnFormat large)).holds data offset v next h
    have hbounds : 0 ≤ v ∧ v < 2 ^ 32 := by
      cases large with
      | false => exact ⟨hv.1, Int.lt_trans hv.2 (by decide)⟩
      | true => exact hv
    refine ⟨UInt32.ofNat v.toNat, by rw [Reader.run_column, h]; rfl, ?_⟩
    rw [UInt32.toNat_ofNat']
    omega
  refused data offset e next h := by rw [Reader.run_column, h]; rfl

/-- **Integers.**  An integer of any format is read exactly where its bytes are there, as their sum by
places in two's complement, and the offset moves over them; elsewhere the read fails and the offset
stays.  At machine words it is the same.  What was written is read back.  A large column is an unsigned
integer of four bytes, any other one of two. -/
theorem reads_integers :
    (∀ f, ReadsIntegers f) ∧ ReadsColumn true .u32 ∧ ReadsColumn false .u16 :=
  ⟨readsIntegers, readsColumn true, readsColumn false⟩

/-- A negative integer, one that is cut off, the last word, and an integer that is written. -/
theorem reads_integers_negative :
    (Reader.int .i16).run [7, 0xFE, 0xFF] 1 = (.ok (-2), 3) ∧
      (Reader.int .i32).run [7, 0xFE, 0xFF] 1 = (.error .outOfBounds, 1) ∧
      (wordInt .u16 [7, 0xFE, 0xFF] 0xFFFFFFFFFFFFFFFF).1 = .error .outOfBounds ∧
      (Reader.int .i8).run (write [7, 0xFE, 0xFF] 1 [0x80]) 1 = (.ok (-128), 2) := by
  have h := reads_integers.1
  have hread := (h .i16).read [7, 0xFE, 0xFF] 1 (by decide)
  have hcut := (h .i32).refused [7, 0xFE, 0xFF] 1 (by decide)
  have hword := (h .u16).words [7, 0xFE, 0xFF] (by decide) 0xFFFFFFFFFFFFFFFF
  have hlast := (h .u16).refused [7, 0xFE, 0xFF] (0xFFFFFFFFFFFFFFFF : UInt64).toNat (by decide)
  have hwritten := (h .i8).written [7, 0xFE, 0xFF] 1 (-128) (by decide) (by decide)
  exact ⟨hread, hcut, (Prod.mk.inj (hword.trans hlast)).1, hwritten.2⟩

end CilMetadata.Bytes

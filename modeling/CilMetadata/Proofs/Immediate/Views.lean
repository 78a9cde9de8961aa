import CilMetadata.Body.Instruction
import Mathlib.Data.Nat.Digits.Defs

/-!
# Views of an immediate

An immediate is shown in digits, cut to the width of its type, and widened to a word of 64 bits.  Both
views are of one integer: the digits are its residue at the width of the type, and the word is its
residue at 64 bits.  A residue at more bits tells that at fewer, so the digits can be read off the word.

* `Text.Hex.isNumeral_digits`: digits as a numeral in base 16;
* `pattern_eq_emod`, `toNat_toUInt64_eq_emod`: both views by the integer that an immediate holds;
* `pattern_eq_mod`: the digits by the word;
* `toInt_toUInt64`, `toNat_toUInt64_of_unsigned`: the integer, read off the word;
* `views_agree`: all of this for every immediate, and for the instructions that it stands in.
-/

namespace CilMetadata

-- the powers of the core library, also where another instance is in scope
attribute [local instance (2000)] instPowNat

/-! ### Numerals -/

namespace Text.Hex

/-- The upper-case digits.  A digit stands for its place among them. -/
def upperDigits : List Char :=
  ['0', '1', '2', '3', '4', '5', '6', '7', '8', '9', 'A', 'B', 'C', 'D', 'E', 'F']

/-- A text is the numeral of a number in base 16, in `w` upper-case digits exactly. -/
structure IsNumeral (s : String) (w n : Nat) : Prop where
  length_eq : s.length = w
  mem_upperDigits : ∀ c ∈ s.toList, c ∈ upperDigits
  /-- the last digit counts ones, each digit before it sixteen times as much -/
  value_eq : Nat.ofDigits 16 (s.toList.reverse.map fun c => upperDigits.idxOf c) = n

theorem digit_mem_upperDigits {d : Nat} (h : d < 16) : digit .upper d ∈ upperDigits := by
  have key : ∀ k : Fin 16, digit .upper k ∈ upperDigits := by decide
  exact key ⟨d, h⟩

theorem digitValue_eq_idxOf : ∀ c ∈ upperDigits, digitValue c = upperDigits.idxOf c := by
  have hplaces : upperDigits.map digitValue = upperDigits.map fun c => upperDigits.idxOf c := by decide
  exact List.map_inj_left.mp hplaces

theorem mem_upperDigits_of_mem_digits {w n : Nat} {c : Char} (h : c ∈ digits .upper w n) :
    c ∈ upperDigits := by
  induction w generalizing n with
  | zero => exact nomatch h
  | succ w ih =>
    rcases List.mem_append.mp h with hfront | hlast
    · exact ih hfront
    · rw [List.mem_singleton.mp hlast]
      exact digit_mem_upperDigits (Nat.mod_lt _ (by decide))

theorem value_eq_ofDigits (cs : List Char) : value cs = Nat.ofDigits 16 (cs.reverse.map digitValue) := by
  have hstep : (fun (acc : Nat) c => 16 * acc + digitValue c) = fun acc c => digitValue c + 16 * acc := by
    funext acc c
    exact Nat.add_comm _ _
  rw [Nat.ofDigits_eq_foldr, List.foldr_map, List.foldr_reverse, value, hstep]
  rfl

/-- The lowest `w` digits of a number are the numeral of its residue. -/
theorem isNumeral_digits (w n : Nat) : IsNumeral (String.ofList (digits .upper w n)) w (n % 16 ^ w) where
  length_eq := by rw [String.length_ofList, length_digits]
  mem_upperDigits c hc := by
    rw [String.toList_ofList] at hc
    exact mem_upperDigits_of_mem_digits hc
  value_eq := by
    have hplaces : (digits .upper w n).reverse.map (fun c => upperDigits.idxOf c) =
        (digits .upper w n).reverse.map digitValue := by
      refine List.map_congr_left fun c hc => (digitValue_eq_idxOf c ?_).symm
      exact mem_upperDigits_of_mem_digits (List.mem_reverse.mp hc)
    rw [String.toList_ofList, hplaces, ← value_eq_ofDigits, value_digits]

end Text.Hex

namespace Immediate

/-! ### The integer of an immediate -/

def width : Immediate → Nat
  | .int8 _ | .uint8 _ => 8
  | .int16 _ | .uint16 _ => 16
  | .int32 _ | .uint32 _ | .float32 _ => 32
  | .int64 _ | .uint64 _ | .float64 _ => 64

def isSigned : Immediate → Bool
  | .int8 _ | .int16 _ | .int32 _ | .int64 _ => true
  | .uint8 _ | .uint16 _ | .uint32 _ | .uint64 _ | .float32 _ | .float64 _ => false

/-- The integer that an immediate holds; a float holds its bits. -/
def integer : Immediate → Int
  | .int8 v => v.toInt
  | .uint8 v => v.toNat
  | .int16 v => v.toInt
  | .uint16 v => v.toNat
  | .int32 v => v.toInt
  | .uint32 v => v.toNat
  | .int64 v => v.toInt
  | .uint64 v => v.toNat
  | .float32 bits => bits.toNat
  | .float64 bits => bits.toNat

theorem width_eq (v : Immediate) : v.width = 4 * v.hexDigits := by
  cases v <;> rfl

theorem width_le (v : Immediate) : v.width ≤ 64 := by
  cases v <;> simp [width]

theorem width_div_four (v : Immediate) : v.width / 4 = v.hexDigits := by
  rw [width_eq, Nat.mul_div_cancel_left _ (by decide)]

theorem two_pow_width (v : Immediate) : 2 ^ v.width = 16 ^ v.hexDigits := by
  rw [width_eq, Nat.pow_mul]

/-! ### Residues -/

/-- Bits that stand for an integer in two's complement are its residue. -/
theorem toNat_eq_toInt_emod {w : Nat} (b : BitVec w) : (b.toNat : Int) = b.toInt % (2 ^ w : Nat) := by
  have hlt : (b.toNat : Int) < (2 ^ w : Nat) := Int.ofNat_lt.mpr b.isLt
  rw [BitVec.toInt_eq_toNat_bmod, Int.bmod_emod, Int.emod_eq_of_lt (Int.natCast_nonneg _) hlt]

theorem natCast_eq_emod {n m : Nat} (h : n < m) : (n : Int) = (n : Int) % (m : Nat) :=
  (Int.emod_eq_of_lt (Int.natCast_nonneg n) (Int.ofNat_lt.mpr h)).symm

/-- An unsigned immediate is its pattern, as an integer and with zeros in front of it as a word. -/
theorem eq_pattern_of_unsigned {v : Immediate} (h : v.isSigned = false) :
    v.integer = v.pattern ∧ v.toUInt64.toNat = v.pattern := by
  cases v with
  | uint8 | uint16 | uint32 | uint64 | float32 | float64 => exact ⟨rfl, rfl⟩
  | int8 | int16 | int32 | int64 => exact nomatch h

/-- **Digits.**  The pattern is the residue at the width of the type. -/
theorem pattern_eq_emod (v : Immediate) : (v.pattern : Int) = v.integer % (2 ^ v.width : Nat) := by
  cases hsigned : v.isSigned with
  | true =>
    cases v with
    | int8 v => exact toNat_eq_toInt_emod v.toBitVec
    | int16 v => exact toNat_eq_toInt_emod v.toBitVec
    | int32 v => exact toNat_eq_toInt_emod v.toBitVec
    | int64 v => exact toNat_eq_toInt_emod v.toBitVec
    | uint8 | uint16 | uint32 | uint64 | float32 | float64 => exact nomatch hsigned
  | false =>
    rw [(eq_pattern_of_unsigned hsigned).1, two_pow_width]
    exact natCast_eq_emod v.toNat_pattern_lt

theorem toInt_toUInt64 {v : Immediate} (h : v.isSigned = true) : v.toUInt64.toInt64.toInt = v.integer := by
  cases v with
  | int8 v => exact v.toInt_toInt64
  | int16 v => exact v.toInt_toInt64
  | int32 v => exact v.toInt_toInt64
  | int64 v => rfl
  | uint8 | uint16 | uint32 | uint64 | float32 | float64 => exact nomatch h

theorem toNat_toUInt64_of_unsigned {v : Immediate} (h : v.isSigned = false) :
    (v.toUInt64.toNat : Int) = v.integer := by
  obtain ⟨hinteger, hword⟩ := eq_pattern_of_unsigned h
  rw [hinteger, hword]

/-- **Word.**  The word is the residue at 64 bits. -/
theorem toNat_toUInt64_eq_emod (v : Immediate) :
    (v.toUInt64.toNat : Int) = v.integer % (2 ^ 64 : Nat) := by
  cases hsigned : v.isSigned with
  | true =>
    rw [← toInt_toUInt64 hsigned]
    exact toNat_eq_toInt_emod v.toUInt64.toBitVec
  | false =>
    rw [← toNat_toUInt64_of_unsigned hsigned]
    exact natCast_eq_emod v.toUInt64.toNat_lt

/-! ### Agreement -/

theorem pattern_eq_mod (v : Immediate) : v.pattern = v.toUInt64.toNat % 2 ^ v.width := by
  have hdvd : ((2 ^ v.width : Nat) : Int) ∣ (2 ^ 64 : Nat) :=
    Int.natCast_dvd_natCast.mpr (Nat.pow_dvd_pow 2 v.width_le)
  apply Int.natCast_inj.mp
  calc (v.pattern : Int)
      = v.integer % (2 ^ v.width : Nat) := v.pattern_eq_emod
    _ = v.integer % (2 ^ 64 : Nat) % (2 ^ v.width : Nat) := (Int.emod_emod_of_dvd _ hdvd).symm
    _ = (v.toUInt64.toNat % 2 ^ v.width : Nat) := by rw [← toNat_toUInt64_eq_emod, Int.natCast_emod]

theorem isNumeral_hexText (v : Immediate) : Text.Hex.IsNumeral v.hexText (v.width / 4) v.pattern := by
  have hnumeral := Text.Hex.isNumeral_digits v.hexDigits v.pattern
  rwa [← hexText_eq, Nat.mod_eq_of_lt v.toNat_pattern_lt, ← width_div_four] at hnumeral

theorem toUInt64_lt_of_unsigned {v : Immediate} (h : v.isSigned = false) :
    v.toUInt64.toNat < 2 ^ v.width := by
  rw [(eq_pattern_of_unsigned h).2, two_pow_width]
  exact v.toNat_pattern_lt

/-- An instruction shows its immediate behind all else that it shows. -/
theorem text_of_immediate {v : Immediate} {i : Instruction} (h : i.operand = .immediate v) :
    i.text = Instruction.text { i with operand := .none } ++ " 0x" ++ v.hexText := by
  have hnone : Instruction.text { i with operand := .none } ++ (" 0x" ++ v.hexText) =
      Instruction.text { i with operand := .none } ++ i.operand.text := by
    rw [h, Operand.text]
  rw [String.append_assoc, hnone]
  simp only [Instruction.text, Operand.text, String.append_empty]

/-- The digits and the word of an immediate are views of one integer. -/
structure ViewsAgree (v : Immediate) : Prop where
  /-- the text has one digit for four bits, and spells the lowest bits of the word -/
  isNumeral : Text.Hex.IsNumeral v.hexText (v.width / 4) (v.toUInt64.toNat % 2 ^ v.width)
  /-- instructions show the immediate by these digits -/
  shown : ∀ i : Instruction, i.operand = .immediate v →
    i.text = Instruction.text { i with operand := .none } ++ " 0x" ++ v.hexText
  signed : v.isSigned = true → v.toUInt64.toInt64.toInt = v.integer
  unsigned : v.isSigned = false → (v.toUInt64.toNat : Int) = v.integer ∧ v.toUInt64.toNat < 2 ^ v.width

/-- **Views.**  The digits of an immediate, one for four bits of its type, are the numeral of the lowest
bits of its word, also where an instruction shows them.  The word holds the integer of the immediate:
a signed one in two's complement, any other below the powers of its type. -/
theorem views_agree (v : Immediate) : ViewsAgree v where
  isNumeral := pattern_eq_mod v ▸ isNumeral_hexText v
  shown _ h := text_of_immediate h
  signed := toInt_toUInt64
  unsigned h := ⟨toNat_toUInt64_of_unsigned h, toUInt64_lt_of_unsigned h⟩

/-- The sign of minus one fills the word, and the digits are cut to the 8 bits; the sign of a float is one
of its own bits, so that nothing stands above them. -/
theorem views_agree_minusOne :
    let i : Instruction := ⟨0, 0x1F, 0, "ldc.i4.s", .sequential, .immediate (.int8 (-1))⟩
    (i.operand = .immediate (.int8 (-1)) ∧ (int8 (-1)).isSigned = true ∧
      (float32 0xBF800000).isSigned = false) ∧
    Text.Hex.IsNumeral "FF" 2 (0xFFFFFFFFFFFFFFFF % 2 ^ 8) ∧ i.text = "IL_0000: ldc.i4.s 0xFF" ∧
    (int8 (-1)).toUInt64.toInt64.toInt = -1 ∧ (float32 0xBF800000).toUInt64.toNat < 2 ^ 32 := by
  intro i
  have htext : (int8 (-1)).hexText = "FF" := (int8 (-1)).hexText_eq
  have hsigned : (int8 (-1)).isSigned = true := rfl
  have hunsigned : (float32 0xBF800000).isSigned = false := rfl
  have hminusOne := views_agree (.int8 (-1))
  have hnumeral := hminusOne.isNumeral
  have hshown := hminusOne.shown i rfl
  have hwhole : Instruction.text { i with operand := .none } ++ " 0x" ++ "FF" = "IL_0000: ldc.i4.s 0xFF" := by
    decide
  rw [htext] at hnumeral hshown
  rw [hwhole] at hshown
  exact ⟨⟨rfl, hsigned, hunsigned⟩, hnumeral, hshown, hminusOne.signed hsigned,
    ((views_agree (.float32 0xBF800000)).unsigned hunsigned).2⟩

end Immediate
end CilMetadata

/-!
# Hexadecimal text

Numbers are written in base 16 with a least width, in lower or upper case, and read back.

* `length_digits`: a number below `16 ^ w` takes exactly `w` digits at width `w`;
* `value_digits`: the digits of a number read back as the number modulo `16 ^ w`.
-/

namespace CilMetadata.Text

-- the powers of the core library, also where another instance is in scope
attribute [local instance (2000)] instPowNat

/-- The letters for the digits ten to fifteen. -/
inductive LetterCase where
  | lower | upper
  deriving DecidableEq, Repr

namespace Hex

/-- The character of a digit below sixteen. -/
def digit (c : LetterCase) (d : Nat) : Char :=
  if d < 10 then Char.ofNat (48 + d)
  else match c with
    | .lower => Char.ofNat (87 + d)
    | .upper => Char.ofNat (55 + d)

def digits (c : LetterCase) : Nat → Nat → List Char
  | 0, _ => []
  | w + 1, n => digits c w (n / 16) ++ [digit c (n % 16)]

/-- The number of digits of a number; zero has one. -/
def width (n : Nat) : Nat := n.log2 / 4 + 1

def text (c : LetterCase) (least n : Nat) : String :=
  String.ofList (digits c (max least (width n)) n)

/-- Lower-case text, as tokens are written. -/
abbrev lower (least n : Nat) : String := text .lower least n

/-- Upper-case text, as code offsets and operands are written. -/
abbrev upper (least n : Nat) : String := text .upper least n

/-- The digit that a character stands for; zero if it stands for none. -/
def digitValue (c : Char) : Nat :=
  let n := c.toNat
  if n < 58 then n - 48 else if n < 71 then n - 55 else n - 87

/-- The number that digits spell. -/
def value (cs : List Char) : Nat := cs.foldl (fun acc c => 16 * acc + digitValue c) 0

/-! ### Laws -/

@[simp] theorem length_digits (c : LetterCase) (w n : Nat) : (digits c w n).length = w := by
  induction w generalizing n with
  | zero => rfl
  | succ w ih => simp [digits, ih]

theorem digitValue_digit (c : LetterCase) {d : Nat} (h : d < 16) : digitValue (digit c d) = d := by
  have key : ∀ k : Fin 16, digitValue (digit c k) = k := by cases c <;> decide
  exact key ⟨d, h⟩

theorem value_append_singleton (cs : List Char) (c : Char) :
    value (cs ++ [c]) = 16 * value cs + digitValue c := by
  simp [value]

/-- **Reading back.**  The lowest `w` digits spell the number modulo `16 ^ w`. -/
theorem value_digits (c : LetterCase) (w n : Nat) : value (digits c w n) = n % 16 ^ w := by
  induction w generalizing n with
  | zero => simp [digits, value, Nat.mod_one]
  | succ w ih =>
    rw [digits, value_append_singleton, ih, digitValue_digit c (Nat.mod_lt _ (by decide)),
      Nat.pow_succ', Nat.mod_mul]
    omega

theorem width_le {n w : Nat} (hw : 0 < w) (h : n < 16 ^ w) : width n ≤ w := by
  unfold width
  by_cases hn : n = 0
  · subst hn
    have : (0 : Nat).log2 = 0 := by decide
    omega
  · have : n.log2 < 4 * w := (Nat.log2_lt hn).mpr (by rw [Nat.pow_mul]; exact h)
    omega

theorem text_eq_of_lt (c : LetterCase) {n w : Nat} (hw : 0 < w) (h : n < 16 ^ w) :
    text c w n = String.ofList (digits c w n) := by
  rw [text, Nat.max_eq_left (width_le hw h)]

end Hex
end CilMetadata.Text

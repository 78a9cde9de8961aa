import CilMetadata.TableId
import CilMetadata.Text.Hex

/-!
# Tokens

A token addresses a row of a metadata table: the table number stands in the highest of its four
bytes, the row number in the other three.  Row 0 is no row.

* `toNat_ofParts`: the parts of a token as a sum;
* `ofParts_tableId_row`: a token whose table number is assigned is made from its parts.
-/

namespace CilMetadata

/-- The address of a table row. -/
structure Token where
  value : UInt32
  deriving DecidableEq, Repr

/-- The largest row that fits into a token. -/
def maxRow : UInt32 := 0xFFFFFF

/-- The token of row 0 of a table. -/
def TableId.tokenBase (t : TableId) : UInt32 := UInt32.ofNat (t.number * 0x1000000)

namespace Token

/-- The token of row `rid` of a table; a row that does not fit keeps its lowest 24 bits. -/
def ofParts (t : TableId) (rid : UInt32) : Token := ⟨t.tokenBase + rid % 0x1000000⟩

def tableByte (k : Token) : UInt8 := UInt8.ofNat (k.value.toNat / 0x1000000)

def tableId? (k : Token) : Option TableId := TableId.ofNumber? k.tableByte.toNat

def row (k : Token) : UInt32 := k.value % 0x1000000

def isNull (k : Token) : Bool := k.value = 0

/-- Tokens are ordered by table number, then by row. -/
instance : LE Token := ⟨fun a b => a.value ≤ b.value⟩

instance : LT Token := ⟨fun a b => a.value < b.value⟩

instance : DecidableLE Token := fun a b => inferInstanceAs (Decidable (a.value ≤ b.value))

instance : DecidableLT Token := fun a b => inferInstanceAs (Decidable (a.value < b.value))

/-- The short text of a token: eight hexadecimal digits. -/
def text (k : Token) : String := "0x" ++ Text.Hex.lower 8 k.value.toNat

/-- The long text of a token, which spells out its parts. -/
def describe (k : Token) : String :=
  "Token(" ++ k.text ++ ", table: 0x" ++ Text.Hex.lower 2 k.tableByte.toNat
    ++ ", row: " ++ toString k.row.toNat ++ ")"

/-! ### Laws -/

theorem lt_irrefl {k : Token} : ¬ k < k := UInt32.lt_irrefl k.value

theorem lt_trans {a b c : Token} (h : a < b) (h' : b < c) : a < c :=
  UInt32.lt_trans (a := a.value) (b := b.value) (c := c.value) h h'

theorem eq_of_not_lt {a b : Token} (h : ¬ a < b) (h' : ¬ b < a) : a = b := by
  cases a
  cases b
  exact congrArg mk (UInt32.le_antisymm (UInt32.not_lt.mp h') (UInt32.not_lt.mp h))

theorem toNat_tokenBase (t : TableId) : t.tokenBase.toNat = t.number * 0x1000000 := by
  have h := t.number_lt
  simp only [TableId.tokenBase, UInt32.toNat_ofNat']
  omega

/-- The parts of a token do not overlap. -/
theorem toNat_ofParts (t : TableId) (rid : UInt32) :
    (ofParts t rid).value.toNat = t.number * 0x1000000 + rid.toNat % 0x1000000 := by
  have h := t.number_lt
  have hm : (rid % 0x1000000).toNat = rid.toNat % 0x1000000 := UInt32.toNat_mod rid _
  simp only [ofParts, UInt32.toNat_add, toNat_tokenBase, hm]
  omega

theorem toNat_tableByte (k : Token) : k.tableByte.toNat = k.value.toNat / 0x1000000 := by
  have h := k.value.toNat_lt
  simp only [tableByte, UInt8.toNat_ofNat']
  omega

theorem toNat_row (k : Token) : k.row.toNat = k.value.toNat % 0x1000000 :=
  UInt32.toNat_mod k.value _

@[simp] theorem toNat_tableByte_ofParts (t : TableId) (rid : UInt32) :
    (ofParts t rid).tableByte.toNat = t.number := by
  rw [toNat_tableByte, toNat_ofParts]
  omega

@[simp] theorem tableId?_ofParts (t : TableId) (rid : UInt32) :
    (ofParts t rid).tableId? = some t := by
  simp [tableId?]

@[simp] theorem row_ofParts (t : TableId) (rid : UInt32) :
    (ofParts t rid).row = rid % 0x1000000 := by
  apply UInt32.toNat_inj.mp
  have hm : (rid % 0x1000000).toNat = rid.toNat % 0x1000000 := UInt32.toNat_mod rid _
  rw [toNat_row, toNat_ofParts, hm]
  omega

theorem row_ofParts_of_le (t : TableId) {rid : UInt32} (h : rid ≤ maxRow) : (ofParts t rid).row = rid := by
  have hle : rid.toNat ≤ 0xFFFFFF := UInt32.le_iff_toNat_le.mp h
  apply UInt32.toNat_inj.mp
  rw [row_ofParts, UInt32.toNat_mod]
  exact Nat.mod_eq_of_lt (Nat.lt_succ_of_le hle)

/-- **Parts.**  A token whose table number is assigned is made from its table and its row. -/
theorem ofParts_tableId_row {k : Token} {t : TableId} (h : k.tableId? = some t) :
    ofParts t k.row = k := by
  have ht : t.number = k.tableByte.toNat := TableId.ofNumber?_eq_some_iff.mp h
  rw [toNat_tableByte] at ht
  have hv : (ofParts t k.row).value = k.value := by
    apply UInt32.toNat_inj.mp
    rw [toNat_ofParts, toNat_row, ht]
    omega
  cases k
  exact congrArg Token.mk hv

end Token
end CilMetadata

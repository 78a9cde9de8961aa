import CilMetadata.Bytes.LittleEndian
import CilMetadata.CodedIndex

/-!
# Sizes of index columns

The row counts of a module decide how wide its index columns are: an index takes two bytes as long
as 16 bits number all rows it can point at, tag included, and four bytes otherwise.

* `indexBytes_eq`: the two ways to tell a large table agree.
-/

namespace CilMetadata

-- the powers of the core library, also where another instance is in scope
attribute [local instance (2000)] instPowNat

/-- The bits that number the rows of a table; an empty table still takes one. -/
def indexBits (rows : UInt32) : Nat := rows.toNat.log2 + 1

/-- A table with more rows than 16 bits can number. -/
def isLargeCount (rows : UInt32) : Bool := 65535 < rows

/-- The bytes of a column for indexes of so many bits. -/
def columnBytes (bits : Nat) : Nat := if 16 < bits then 4 else 2

/-- The row counts of a module and the size of its blob heap. -/
structure TableInfo where
  rows : TableId → UInt32
  largeBlob : Bool

namespace TableInfo

/-- The row counts of a list; the last entry of a table counts, and a table without an entry is
empty. -/
def ofList (counts : List (TableId × UInt32)) (largeBlob : Bool) : TableInfo where
  rows t := counts.foldl (fun n entry => if entry.1 = t then entry.2 else n) 0
  largeBlob := largeBlob

def isValidRid (info : TableInfo) (t : TableId) (rid : UInt32) : Bool :=
  rid ≠ 0 && rid ≤ info.rows t

/-- Whether indexes into a table take four bytes. -/
def isLarge (info : TableInfo) (t : TableId) : Bool := isLargeCount (info.rows t)

def indexBytes (info : TableInfo) (t : TableId) : Nat := columnBytes (indexBits (info.rows t))

def blobBytes (info : TableInfo) : Nat := if info.largeBlob then 4 else 2

/-- The bits of a coded index: its tag, and the rows of the largest table it can point at. -/
def codedBits (info : TableInfo) (kind : CodedIndex.Kind) : Nat :=
  kind.targets.foldl (fun bits target => max bits (target.elim 1 fun t => indexBits (info.rows t))) 1
    + kind.tagBits

/-- The bytes of a coded index. -/
def codedBytes (info : TableInfo) (kind : CodedIndex.Kind) : Nat := columnBytes (info.codedBits kind)

end TableInfo

/-- The next coded index.  The read moves over the column even if the value does not decode. -/
def CodedIndex.read (info : TableInfo) (kind : CodedIndex.Kind) : Bytes.Reader CodedIndex := do
  let value ← Bytes.Reader.column (16 < info.codedBits kind)
  Bytes.Reader.ofExcept (CodedIndex.decode kind value)

/-! ### Laws -/

theorem indexBits_le_iff {rows : UInt32} {b : Nat} (hb : 0 < b) :
    indexBits rows ≤ b ↔ rows.toNat < 2 ^ b := by
  unfold indexBits
  by_cases h : rows.toNat = 0
  · have h0 : (0 : Nat).log2 = 0 := by decide
    have hp : 0 < 2 ^ b := Nat.two_pow_pos b
    rw [h, h0]
    omega
  · rw [← Nat.log2_lt h]
    omega

theorem TableInfo.indexBytes_eq (info : TableInfo) (t : TableId) :
    info.indexBytes t = if info.isLarge t then 4 else 2 := by
  have h : indexBits (info.rows t) ≤ 16 ↔ (info.rows t).toNat < 2 ^ 16 :=
    indexBits_le_iff (by decide)
  have hl : (65535 : UInt32) < info.rows t ↔ 65535 < (info.rows t).toNat := UInt32.lt_iff_toNat_lt
  simp only [TableInfo.indexBytes, columnBytes, TableInfo.isLarge, isLargeCount, decide_eq_true_eq, hl]
  have h16 : (2 : Nat) ^ 16 = 65536 := by decide
  split <;> split <;> omega

end CilMetadata

import CilMetadata.Row

/-!
# Tables

A table is a run of rows of one size.  Rows are numbered from 1 and read from the bytes when they
are asked for, by number (`row`) or one after the other (`Iter`).
-/

namespace CilMetadata

/-- The bytes of a table, which hold all its rows. -/
structure Table (ρ : Type) [Row ρ] where
  info : TableInfo
  data : List UInt8
  rowCount : UInt32
  size_le : rowCount.toNat * Row.size ρ info ≤ data.length

namespace Table

variable {ρ : Type} [Row ρ]

/-- The table in some bytes, if they are enough for its rows. -/
def ofBytes (info : TableInfo) (data : List UInt8) (rowCount : UInt32) : Except Error (Table ρ) :=
  if h : rowCount.toNat * Row.size ρ info ≤ data.length then .ok ⟨info, data, rowCount, h⟩
  else .error .outOfBounds

/-- The bytes of a row. -/
def rowSize (t : Table ρ) : Nat := Row.size ρ t.info

def row (t : Table ρ) (rid : UInt32) : Except Error ρ :=
  if rid = 0 ∨ t.rowCount < rid then .error (.invalidRowId (Row.table ρ) rid)
  else ((Row.read t.info rid).run t.data ((rid.toNat - 1) * t.rowSize)).1

/-- The numbers of the rows of a table of so many rows. -/
def rowNumbers (rowCount : UInt32) : List UInt32 :=
  (List.range rowCount.toNat).map fun i => UInt32.ofNat (i + 1)

/-- The row of a number, if it is there and decodes. -/
def row? (t : Table ρ) (rid : UInt32) : Option ρ := (t.row rid).toOption

/-- A walk over the rows of a table: how many rows it is past, and where the next one starts. -/
structure Iter (ρ : Type) [Row ρ] where
  table : Table ρ
  done : Nat
  offset : Nat

/-- The walk that starts at the first row. -/
def iter (t : Table ρ) : Iter ρ := ⟨t, 0, 0⟩

namespace Iter

/-- The next row of a walk.  A row that does not decode ends the walk. -/
def next (it : Iter ρ) : Option (Except Error ρ) × Iter ρ :=
  if it.table.rowCount.toNat ≤ it.done then (none, it)
  else
    let (row, offset) :=
      (Row.read it.table.info (UInt32.ofNat (it.done + 1))).run it.table.data it.offset
    match row with
    | .ok r => (some (.ok r), ⟨it.table, it.done + 1, offset⟩)
    | .error e => (some (.error e), ⟨it.table, it.table.rowCount.toNat, offset⟩)

/-- The next rows of a walk, at most `n`. -/
def take : Nat → Iter ρ → List (Except Error ρ) × Iter ρ
  | 0, it => ([], it)
  | n + 1, it =>
    match it.next with
    | (none, it') => ([], it')
    | (some row, it') =>
      let (rows, last) := take n it'
      (row :: rows, last)

/-- All rows that a walk has ahead. -/
def toList (it : Iter ρ) : List (Except Error ρ) := (it.take (it.table.rowCount.toNat - it.done)).1

end Iter

def rows (t : Table ρ) : List (Except Error ρ) := t.iter.toList

end Table
end CilMetadata

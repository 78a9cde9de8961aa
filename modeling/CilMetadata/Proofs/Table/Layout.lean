import CilMetadata.Proofs.Table.Access

/-!
# The layout of rows

A row is a run of columns, each of which is a little-endian number as wide as the row counts of the
module call for.  So a row is told column by column: how many bytes it takes, what it holds, and why
it may not decode.  Each kind of rows says only which its columns are.

* `fields_slice`: the cells of a run of columns, from the bytes of each;
* `run_readAll`, `bounds_of_readAll_ok`: reading columns one after the other;
* `layoutAgrees`: size, reads and bounds agree, for both kinds of rows.
-/

namespace CilMetadata

open Bytes (Reader slice number)

/-- A column of a row, by what it points at. -/
inductive Column where
  /-- the number of a row of a table -/
  | index (t : TableId)
  /-- a coded index -/
  | coded (kind : CodedIndex.Kind)
  /-- a place in the blob heap -/
  | blob
  deriving DecidableEq, Repr

/-- What a row holds in a column. -/
inductive Cell where
  | number (n : UInt32)
  | coded (i : CodedIndex)
  deriving DecidableEq, Repr

namespace Column

def width (info : TableInfo) : Column → Nat
  | .index t => info.indexBytes t
  | .coded kind => info.codedBytes kind
  | .blob => info.blobBytes

/-- What the bytes of a column stand for. -/
def field (bytes : List UInt8) : Column → Except Error Cell
  | .index _ | .blob => .ok (.number (UInt32.ofNat (number bytes)))
  | .coded kind => (CodedIndex.decode kind (UInt32.ofNat (number bytes))).map .coded

def read (info : TableInfo) : Column → Reader Cell
  | .index t => do return .number (← Reader.column (info.isLarge t))
  | .coded kind => do return .coded (← CodedIndex.read info kind)
  | .blob => do return .number (← Reader.column info.largeBlob)

def widths (info : TableInfo) : List Column → Nat
  | [] => 0
  | c :: cs => c.width info + widths info cs

/-- What bytes stand for that some columns take up one after the other. -/
def fields (info : TableInfo) : List Column → List UInt8 → Except Error (List Cell)
  | [], _ => .ok []
  | c :: cs, bytes => do
    let cell ← c.field (bytes.take (c.width info))
    let cells ← fields info cs (bytes.drop (c.width info))
    return cell :: cells

def readAll (info : TableInfo) : List Column → Reader (List Cell)
  | [] => pure []
  | c :: cs => do
    let cell ← c.read info
    let cells ← readAll info cs
    return cell :: cells

/-! ### One column -/

variable {info : TableInfo} {c : Column} {cs : List Column} {data : List UInt8} {offset : Nat}

theorem width_bounds (info : TableInfo) (c : Column) : 0 < c.width info ∧ c.width info ≤ 4 := by
  cases c with
  | index t =>
    rw [width, info.indexBytes_eq]
    split <;> decide
  | coded kind =>
    rw [width, info.codedBytes_eq_ite]
    split <;> decide
  | blob =>
    rw [width, TableInfo.blobBytes]
    split <;> decide

/-- A column that lies in the bytes is told by them. -/
theorem run_read (h : offset + c.width info ≤ data.length) :
    (c.read info).run data offset =
      (c.field (slice data offset (c.width info)), offset + c.width info) := by
  cases c with
  | index t => rw [read, Reader.run_bind_ok (Reader.column_eq_ok (info.indexBytes_eq t) h)]; rfl
  | coded kind =>
    rw [read, Reader.run_bind, CodedIndex.read_eq h]
    simp only [field, slice, width]
    cases CodedIndex.decode kind _ <;> rfl
  | blob => rw [read, Reader.run_bind_ok (Reader.column_eq_ok rfl h)]; rfl

theorem run_read_of_lt (h : data.length < offset + c.width info) :
    (c.read info).run data offset = (.error .outOfBounds, offset) := by
  have hcolumn : ∀ large : Bool, c.width info = (if large then 4 else 2) →
      (Reader.column large).run data offset = (.error .outOfBounds, offset) := by
    intro large hw
    rw [hw] at h
    rw [Reader.column, Reader.run_bind_error (Reader.take_eq_error h)]
  cases c with
  | index t => rw [read, Reader.run_bind_error (hcolumn _ (info.indexBytes_eq t))]
  | coded kind =>
    rw [read, Reader.run_bind, CodedIndex.read,
      Reader.run_bind_error (hcolumn _ (info.codedBytes_eq_ite kind))]
  | blob => rw [read, Reader.run_bind_error (hcolumn _ rfl)]

theorem bounds_of_read_ok {cell : Cell} {next : Nat}
    (h : (c.read info).run data offset = (.ok cell, next)) :
    next = offset + c.width info ∧ next ≤ data.length := by
  rcases Nat.lt_or_ge data.length (offset + c.width info) with hlt | hle
  · rw [run_read_of_lt hlt] at h
    cases h
  · rw [run_read hle] at h
    have hnext := (Prod.mk.inj h).2
    exact ⟨hnext.symm, hnext ▸ hle⟩

/-- Only a coded index can fail to decode. -/
theorem exists_of_field_error {bytes : List UInt8} {e : Error} (h : c.field bytes = .error e) :
    ∃ kind, c = .coded kind ∧ CodedIndex.decode kind (UInt32.ofNat (number bytes)) = .error e := by
  cases c with
  | index t => cases h
  | coded kind =>
    refine ⟨kind, rfl, ?_⟩
    rw [field] at h
    cases hd : CodedIndex.decode kind (UInt32.ofNat (number bytes)) with
    | error e' =>
      rw [hd] at h
      cases h
      rfl
    | ok i =>
      rw [hd] at h
      cases h
  | blob => cases h

theorem decode_of_field_ok {kind : CodedIndex.Kind} {bytes : List UInt8} {i : CodedIndex}
    (h : (Column.coded kind).field bytes = .ok (.coded i)) :
    CodedIndex.decode kind (UInt32.ofNat (number bytes)) = .ok i := by
  rw [field] at h
  cases hd : CodedIndex.decode kind (UInt32.ofNat (number bytes)) with
  | error e =>
    rw [hd] at h
    cases h
  | ok j =>
    rw [hd] at h
    cases h
    rfl

/-! ### Columns one after the other -/

/-- The first of some columns takes the first bytes, the others take the rest. -/
theorem fields_slice (info : TableInfo) (c : Column) (cs : List Column) (data : List UInt8)
    (offset : Nat) :
    fields info (c :: cs) (slice data offset (widths info (c :: cs))) = (do
      let cell ← c.field (slice data offset (c.width info))
      let cells ← fields info cs (slice data (offset + c.width info) (widths info cs))
      return cell :: cells) := by
  obtain ⟨hfirst, hrest⟩ := Bytes.slice_add data offset (c.width info) (widths info cs)
  rw [widths, fields, hfirst, hrest]

theorem field_of_fields_ok {cell : Cell} {cells : List Cell}
    (h : fields info (c :: cs) (slice data offset (widths info (c :: cs))) = .ok (cell :: cells)) :
    c.field (slice data offset (c.width info)) = .ok cell := by
  rw [fields_slice] at h
  obtain ⟨found, hfound, h⟩ := Error.exists_of_bind_ok h
  obtain ⟨rest, -, h⟩ := Error.exists_of_bind_ok h
  cases h
  exact hfound

theorem rest_of_fields_ok {cell : Cell} {cells : List Cell}
    (h : fields info (c :: cs) (slice data offset (widths info (c :: cs))) = .ok (cell :: cells)) :
    fields info cs (slice data (offset + c.width info) (widths info cs)) = .ok cells := by
  rw [fields_slice] at h
  obtain ⟨found, -, h⟩ := Error.exists_of_bind_ok h
  obtain ⟨rest, hrest, h⟩ := Error.exists_of_bind_ok h
  cases h
  exact hrest

/-- Columns that lie in the bytes are told by them; if all decode, the read moves over all. -/
theorem run_readAll (h : offset + widths info cs ≤ data.length) :
    ((readAll info cs).run data offset).1 = fields info cs (slice data offset (widths info cs)) := by
  induction cs generalizing offset with
  | nil => rfl
  | cons c cs ih =>
    have hsum : widths info (c :: cs) = c.width info + widths info cs := rfl
    rw [fields_slice, readAll, Reader.run_bind, run_read (by omega)]
    cases c.field (slice data offset (c.width info)) with
    | error e => rfl
    | ok cell =>
      have hfits : offset + c.width info + widths info cs ≤ data.length := by omega
      simp only [Reader.run_bind, ← ih hfits]
      cases (readAll info cs).run data (offset + c.width info) with
      | mk x next => cases x <;> rfl

theorem bounds_of_readAll_ok {cells : List Cell} {next : Nat}
    (h : (readAll info cs).run data offset = (.ok cells, next)) :
    next = offset + widths info cs ∧ (cs ≠ [] → next ≤ data.length) := by
  induction cs generalizing offset cells with
  | nil =>
    cases h
    exact ⟨rfl, fun hne => absurd rfl hne⟩
  | cons c cs ih =>
    have hsum : widths info (c :: cs) = c.width info + widths info cs := rfl
    obtain ⟨cell, mid, hcell, h⟩ := Reader.exists_of_bind_ok h
    obtain ⟨rest, last, hrest, h⟩ := Reader.exists_of_bind_ok h
    cases h
    obtain ⟨hmid, hle⟩ := bounds_of_read_ok hcell
    obtain ⟨hnext, hlast⟩ := ih hrest
    refine ⟨by omega, fun _ => ?_⟩
    cases cs with
    | nil => exact hnext ▸ hle
    | cons c' cs => exact hlast (List.cons_ne_nil c' cs)

theorem exists_of_fields_error {bytes : List UInt8} {e : Error} (h : fields info cs bytes = .error e) :
    ∃ kind value, .coded kind ∈ cs ∧ CodedIndex.decode kind value = .error e := by
  induction cs generalizing bytes with
  | nil => cases h
  | cons c cs ih =>
    rw [fields] at h
    cases hfield : c.field (bytes.take (c.width info)) with
    | error e' =>
      rw [hfield] at h
      cases h
      obtain ⟨kind, rfl, hdecode⟩ := exists_of_field_error hfield
      exact ⟨kind, _, List.mem_cons_self, hdecode⟩
    | ok cell =>
      rw [hfield] at h
      cases hrest : fields info cs (bytes.drop (c.width info)) with
      | error e' =>
        simp only [bind, Except.bind, hrest] at h
        cases h
        obtain ⟨kind, value, hmem, hdecode⟩ := ih hrest
        exact ⟨kind, value, List.mem_cons_of_mem c hmem, hdecode⟩
      | ok cells =>
        simp only [bind, Except.bind, hrest] at h
        cases h

theorem widths_le (info : TableInfo) (cs : List Column) : widths info cs ≤ 4 * cs.length := by
  induction cs with
  | nil => exact Nat.le_refl _
  | cons c cs ih =>
    have hsum : widths info (c :: cs) = c.width info + widths info cs := rfl
    have hwidth := c.width_bounds info
    rw [List.length_cons]
    omega

end Column

/-! ### Rows -/

/-- Rows that are read column by column. -/
class Columnar (ρ : Type) [Row ρ] where
  /-- the columns of a row, in order -/
  columns : List Column
  /-- the number that a row got when it was read -/
  number : ρ → UInt32
  /-- the position where a row was read -/
  place : ρ → Nat
  /-- what a row holds in its columns -/
  cells : ρ → List Cell
  columns_ne_nil : columns ≠ []
  length_columns_le : columns.length ≤ 3
  size_eq : ∀ info, Row.size ρ info = Column.widths info columns
  run_read : ∀ info rid data offset,
    Prod.map (Except.map fun row => (number row, place row, cells row)) id
        ((Row.read info rid : Reader ρ).run data offset) =
      Prod.map (Except.map fun cells => (rid, offset, cells)) id
        ((Column.readAll info columns).run data offset)

instance : Columnar InterfaceImplRow where
  columns := [.index .typeDef, .coded .typeDefOrRef]
  number row := row.rid
  place row := row.offset
  cells row := [.number row.classIndex, .coded row.interfaceIndex]
  columns_ne_nil := List.cons_ne_nil _ _
  length_columns_le := by decide
  size_eq info := rfl
  run_read info rid data offset := by
    simp only [Row.read, InterfaceImplRow.read, Column.readAll, Column.read, Reader.run_bind,
      Reader.run_position]
    rcases (Reader.column (info.isLarge .typeDef)).run data offset with ⟨_ | c, next⟩
    · rfl
    simp only [Reader.run_pure]
    rcases (CodedIndex.read info .typeDefOrRef).run data next with ⟨_ | i, last⟩ <;> rfl

instance : Columnar CustomAttributeRow where
  columns := [.coded .hasCustomAttribute, .coded .customAttributeType, .blob]
  number row := row.rid
  place row := row.offset
  cells row := [.coded row.parent, .coded row.constructor, .number row.value]
  columns_ne_nil := List.cons_ne_nil _ _
  length_columns_le := by decide
  size_eq info := by
    simp only [Row.size, Column.widths, Column.width, Nat.add_zero, Nat.add_assoc]
  run_read info rid data offset := by
    simp only [Row.read, CustomAttributeRow.read, Column.readAll, Column.read, Reader.run_bind,
      Reader.run_position]
    rcases (CodedIndex.read info .hasCustomAttribute).run data offset with ⟨_ | parent, next⟩
    · rfl
    simp only [Reader.run_pure]
    rcases (CodedIndex.read info .customAttributeType).run data next with ⟨_ | constructor, next'⟩
    · rfl
    dsimp only
    rcases (Reader.column info.largeBlob).run data next' with ⟨_ | value, last⟩ <;> rfl

namespace Columnar

variable {ρ : Type} [Row ρ] [Columnar ρ] {info : TableInfo} {rid : UInt32} {data : List UInt8}
  {offset : Nat}

theorem readAll_of_read_ok {row : ρ} {next : Nat}
    (h : (Row.read info rid : Reader ρ).run data offset = (.ok row, next)) :
    number row = rid ∧ place row = offset ∧
      (Column.readAll info (columns ρ)).run data offset = (.ok (cells row), next) := by
  have hrun := run_read (ρ := ρ) info rid data offset
  rw [h] at hrun
  cases hall : (Column.readAll info (columns ρ)).run data offset with
  | mk x last =>
    rw [hall] at hrun
    cases x with
    | error e => cases hrun
    | ok found =>
      simp only [Prod.map, Except.map, id, Prod.mk.injEq, Except.ok.injEq] at hrun
      obtain ⟨⟨hnumber, hplace, hcells⟩, hnext⟩ := hrun
      rw [hcells, hnext]
      exact ⟨hnumber, hplace, rfl⟩

/-- A row that was read lies in the bytes, which hold its columns one after the other. -/
theorem fields_of_read_ok {row : ρ} {next : Nat}
    (h : (Row.read info rid : Reader ρ).run data offset = (.ok row, next)) :
    next = offset + Row.size ρ info ∧ next ≤ data.length ∧ number row = rid ∧ place row = offset ∧
      Column.fields info (columns ρ) (slice data offset (Row.size ρ info)) = .ok (cells row) := by
  obtain ⟨hnumber, hplace, hall⟩ := readAll_of_read_ok h
  obtain ⟨hnext, hbound⟩ := Column.bounds_of_readAll_ok hall
  have hle := hbound columns_ne_nil
  rw [size_eq (ρ := ρ)]
  refine ⟨hnext, hle, hnumber, hplace, ?_⟩
  rw [← Column.run_readAll (by omega), hall]

theorem fields_of_row {t : Table ρ} {row : ρ} (h : t.row rid = .ok row) :
    number row = rid ∧ place row = (rid.toNat - 1) * t.rowSize ∧
      Column.fields t.info (columns ρ) (slice t.data ((rid.toNat - 1) * t.rowSize) t.rowSize) =
        .ok (cells row) := by
  obtain ⟨h0, hle⟩ := Table.range_of_row h
  rw [Table.row_of_le h0 hle] at h
  exact (fields_of_read_ok (Prod.ext h rfl)).2.2

variable (ρ info rid data offset) in
theorem map_cells_read :
    ((Row.read info rid : Reader ρ).run data offset).1.map cells =
      ((Column.readAll info (columns ρ)).run data offset).1 := by
  have hrun := congrArg (fun x => x.1.map fun parts => parts.2.2)
    (run_read (ρ := ρ) info rid data offset)
  simp only [Prod.map] at hrun
  cases hread : ((Row.read info rid : Reader ρ).run data offset).1 <;>
    cases hall : ((Column.readAll info (columns ρ)).run data offset).1 <;>
    rw [hread, hall] at hrun <;> exact hrun

/-- A row takes few bytes, so all rows of a table are counted by 64 bits. -/
theorem mul_size_lt (info : TableInfo) (count : UInt32) :
    count.toNat * Row.size ρ info < UInt64.size := by
  have hcount : count.toNat ≤ 0xFFFFFFFF := Nat.le_of_lt_succ count.toNat_lt
  have hsize : Row.size ρ info ≤ 12 := by
    have hwidths := Column.widths_le info (columns ρ)
    have hlen := length_columns_le (ρ := ρ)
    rw [size_eq]
    omega
  calc count.toNat * Row.size ρ info ≤ 0xFFFFFFFF * 12 := Nat.mul_le_mul hcount hsize
    _ < UInt64.size := by decide

end Columnar

namespace Table

variable (ρ : Type) [Row ρ] [Columnar ρ]

/-- Size, reads and bounds of the rows of a table agree. -/
structure LayoutAgrees : Prop where
  /-- a row takes the bytes of its columns -/
  size_eq : ∀ info, Row.size ρ info = Column.widths info (Columnar.columns ρ)
  /-- a row that was read, at any place of any bytes, lies there; the read moves over exactly the
  bytes of a row, and these hold the columns one after the other -/
  read : ∀ info rid data offset (row : ρ) next,
    (Row.read info rid).run data offset = (.ok row, next) →
    next = offset + Row.size ρ info ∧ next ≤ data.length ∧
      Columnar.number row = rid ∧ Columnar.place row = offset ∧
      Column.fields info (Columnar.columns ρ) (slice data offset (Row.size ρ info)) =
        .ok (Columnar.cells row)
  /-- bytes are accepted as a table exactly if they hold all rows -/
  accepts_iff : ∀ info data count,
    (∃ h, ofBytes info data count = .ok (⟨info, data, count, h⟩ : Table ρ)) ↔
      count.toNat * Row.size ρ info ≤ data.length
  /-- the bytes of all rows are counted by 64 bits -/
  mul_size_lt : ∀ info (count : UInt32), count.toNat * Row.size ρ info < UInt64.size
  /-- a row of a table is told by the bytes between the rows before it and the rows after it -/
  row_eq : ∀ (t : Table ρ) rid, rid ≠ 0 → rid ≤ t.rowCount →
    (t.row rid).map Columnar.cells = Column.fields t.info (Columnar.columns ρ)
      (slice t.data ((rid.toNat - 1) * t.rowSize) t.rowSize)
  /-- and by nothing else -/
  row_eq_of_slice : ∀ t t' : Table ρ, t'.info = t.info →
    ∀ rid, rid ≠ 0 → rid ≤ t.rowCount → rid ≤ t'.rowCount →
    slice t.data ((rid.toNat - 1) * t.rowSize) t.rowSize =
      slice t'.data ((rid.toNat - 1) * t.rowSize) t.rowSize → t.row rid = t'.row rid
  /-- it reports its number and its place -/
  place : ∀ (t : Table ρ) rid row, t.row rid = .ok row →
    Columnar.number row = rid ∧ Columnar.place row = (rid.toNat - 1) * t.rowSize
  /-- a row that the table has is missing only because of a coded index that does not decode -/
  error : ∀ (t : Table ρ) rid e, rid ≠ 0 → rid ≤ t.rowCount → t.row rid = .error e →
    (∃ kind value, .coded kind ∈ Columnar.columns ρ ∧ CodedIndex.decode kind value = .error e) ∧
      ∃ defect, e = .malformed defect
  /-- a table has no other rows -/
  invalid : ∀ (t : Table ρ) rid, rid = 0 ∨ t.rowCount < rid →
    t.row rid = .error (.invalidRowId (Row.table ρ) rid)

variable {ρ}

theorem layoutAgrees_of_columnar [LawfulRow ρ] : LayoutAgrees ρ where
  size_eq := Columnar.size_eq
  read _ _ _ _ _ _ := Columnar.fields_of_read_ok
  accepts_iff info data count := by
    unfold ofBytes
    constructor
    · rintro ⟨h, -⟩
      exact h
    · exact fun h => ⟨h, dif_pos h⟩
  mul_size_lt := Columnar.mul_size_lt
  row_eq t rid h0 h := by
    have hfits := place_add_le h0 h
    have hsize : t.rowSize = Column.widths t.info (Columnar.columns ρ) := Columnar.size_eq t.info
    rw [row_of_le h0 h, Columnar.map_cells_read]
    rw [hsize] at hfits ⊢
    exact Column.run_readAll hfits
  row_eq_of_slice _ _ hinfo _ h0 h h' hbytes := row_eq_of_slice hinfo h0 h h' hbytes
  place _ _ _ h := ⟨(Columnar.fields_of_row h).1, (Columnar.fields_of_row h).2.1⟩
  error t rid e h0 h he := by
    have hfits := place_add_le h0 h
    have hsize : t.rowSize = Column.widths t.info (Columnar.columns ρ) := Columnar.size_eq t.info
    have hcells := Columnar.map_cells_read ρ t.info rid t.data ((rid.toNat - 1) * t.rowSize)
    rw [hsize] at hfits
    rw [← row_of_le h0 h, he, hsize, Column.run_readAll hfits] at hcells
    obtain ⟨kind, value, hmem, hdecode⟩ := Column.exists_of_fields_error hcells.symm
    exact ⟨⟨kind, value, hmem, hdecode⟩, CodedIndex.malformed_of_decode hdecode⟩
  invalid t rid h := if_pos h

/-- **Layout.**  Size, reads and bounds agree for both kinds of rows. -/
theorem layoutAgrees : LayoutAgrees InterfaceImplRow ∧ LayoutAgrees CustomAttributeRow :=
  ⟨layoutAgrees_of_columnar, layoutAgrees_of_columnar⟩

end Table

end CilMetadata

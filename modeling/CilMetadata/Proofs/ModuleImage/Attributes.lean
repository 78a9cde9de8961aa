import CilMetadata.Proofs.CodedIndex.Decoding
import CilMetadata.Proofs.ModuleImage.Columns
import CilMetadata.Proofs.Table.Walk

/-!
# The attributes of a parent

An image indexes the attribute rows by the token of their parent when it is made, so all of these
rows decode.  What it tells of a token is read off the parent columns: the rows whose column is the
index of the table and the row that the token addresses.

* `customAttributeRids_eq`: the attributes of the row of a number, by the parent columns;
* `attachedRids_disjoint`: different columns stand for different attributes.
-/

namespace CilMetadata

/-! ### Rows that were read -/

namespace Table

theorem mem_rowNumbers {count rid : UInt32} : rid ∈ rowNumbers count ↔ rid ≠ 0 ∧ rid ≤ count := by
  rw [rowNumbers, List.mem_map]
  constructor
  · rintro ⟨i, hi, rfl⟩
    exact range_ofNat_succ (List.mem_range.mp hi)
  · rintro ⟨h0, h⟩
    have hpos : 0 < rid.toNat := Nat.pos_of_ne_zero fun hz => h0 (UInt32.toNat_inj.mp hz)
    refine ⟨rid.toNat - 1, List.mem_range.mpr (place_lt h0 h), ?_⟩
    rw [Nat.sub_add_cancel hpos, UInt32.ofNat_toNat]

theorem pairwise_rowNumbers (count : UInt32) : (rowNumbers count).Pairwise (· < ·) := by
  rw [rowNumbers, List.pairwise_map]
  refine List.Pairwise.imp_of_mem (fun hi hj hij => ?_) List.pairwise_lt_range
  rw [UInt32.lt_iff_toNat_lt, toNat_ofNat_succ (List.mem_range.mp hi),
    toNat_ofNat_succ (List.mem_range.mp hj)]
  exact Nat.succ_lt_succ hij

theorem rowsFrom_zero {ρ : Type} [Row ρ] (t : Table ρ) :
    t.rowsFrom 0 = (rowNumbers t.rowCount).map t.row := by
  rw [rowsFrom, rowNumbers, Nat.sub_zero, ← List.range_eq_range', List.map_map]
  rfl

theorem eq_map_ok_of_mapM {α : Type} {xs : List (Except Error α)} {ys : List α}
    (h : xs.mapM id = .ok ys) : xs = ys.map .ok := by
  induction xs generalizing ys with
  | nil =>
    cases h
    rfl
  | cons x xs ih =>
    rw [List.mapM_cons] at h
    obtain ⟨a, ha, h⟩ := Error.exists_of_bind_ok h
    obtain ⟨rest, hrest, h⟩ := Error.exists_of_bind_ok h
    cases h
    rw [show x = .ok a from ha, ih hrest, List.map_cons]

theorem eq_map_ok_of_untilError {α : Type} {xs : List (Except Error α)} {ys : List α}
    (h : untilError xs = ys.map .ok) : xs = ys.map .ok := by
  induction xs generalizing ys with
  | nil => exact h
  | cons x xs ih =>
    cases x with
    | error e =>
      cases ys with
      | nil => cases h
      | cons y ys => cases h
    | ok a =>
      cases ys with
      | nil => cases h
      | cons y ys =>
        rw [untilError, List.map_cons, List.cons.injEq] at h
        rw [h.1, ih h.2, List.map_cons]

/-- What is kept of rows that were all read is told by their numbers. -/
theorem filterMap_of_map_ok {ρ : Type} {f : UInt32 → Except Error ρ} {g : ρ → Option UInt32}
    {q : UInt32 → Bool} {numbers : List UInt32} {rows : List ρ} (h : numbers.map f = rows.map .ok)
    (hg : ∀ number row, f number = .ok row → g row = if q number then some number else none) :
    rows.filterMap g = numbers.filter q := by
  induction numbers generalizing rows with
  | nil =>
    rw [List.map_nil, List.nil_eq, List.map_eq_nil_iff] at h
    rw [h]
    rfl
  | cons number numbers ih =>
    cases rows with
    | nil => cases h
    | cons row rows =>
      rw [List.map_cons, List.map_cons, List.cons.injEq] at h
      rw [List.filterMap_cons, List.filter_cons, hg number row h.1, ih h.2]
      cases q number <;> rfl

end Table

namespace CustomAttributeRow

def parentColumn (info : TableInfo) (data : List UInt8) (rid : UInt32) : UInt32 :=
  UInt32.ofNat (Bytes.number ((data.drop ((rid.toNat - 1) * Row.size CustomAttributeRow info)).take
    (info.codedBytes .hasCustomAttribute)))

theorem parent_of_row {t : Table CustomAttributeRow} {rid : UInt32} {row : CustomAttributeRow}
    (h : t.row rid = .ok row) :
    row.rid = rid ∧
      CodedIndex.decode .hasCustomAttribute (parentColumn t.info t.data rid) = .ok row.parent := by
  obtain ⟨hnumber, -, hfields⟩ := Columnar.fields_of_row h
  refine ⟨hnumber, ?_⟩
  rw [parentColumn, ← Bytes.slice]
  rw [Table.rowSize] at hfields
  -- the size of the row is told by its columns, its place is not
  generalize (rid.toNat - 1) * Row.size CustomAttributeRow t.info = offset at hfields ⊢
  rw [Columnar.size_eq] at hfields
  have hparent := Column.field_of_fields_ok (c := .coded .hasCustomAttribute) hfields
  exact Column.decode_of_field_ok hparent

/-- The rows, in table order, whose parent column is the given index. -/
def attachedRids (info : TableInfo) (data : List UInt8) (index : Option UInt32) : List UInt32 :=
  (Table.rowNumbers (info.rows .customAttribute)).filter fun rid => some (parentColumn info data rid) = index

theorem attachedRids_none (info : TableInfo) (data : List UInt8) : attachedRids info data none = [] := by
  simp [attachedRids]

/-- Different indexes stand for different attributes. -/
theorem attachedRids_disjoint {info : TableInfo} {data : List UInt8} {index index' : Option UInt32}
    (h : index ≠ index') : ∀ id ∈ attachedRids info data index, id ∉ attachedRids info data index' := by
  intro id hid hid'
  rw [attachedRids, List.mem_filter, decide_eq_true_iff] at hid hid'
  exact h (hid.2.symm.trans hid'.2)

end CustomAttributeRow

/-! ### Tokens of parents -/

namespace CodedIndex

/-- Tokens of decoded indexes tell them apart: the token is that of a row only if the stored value is
the index of the row that the token addresses. -/
theorem token_eq_iff {kind : Kind} {v : UInt32} {i : CodedIndex} (h : decode kind v = .ok i)
    (t : TableId) (rid : UInt32) :
    i.token = Token.ofParts t rid ↔ some v = encode? kind ⟨t, (Token.ofParts t rid).row⟩ := by
  rw [eq_comm (a := some v), ← decode_eq_ok_iff, h, Except.ok.injEq]
  constructor
  · intro htoken
    have htag := congrArg Token.tableId? htoken
    rw [token, Token.tableId?_ofParts, Token.tableId?_ofParts, Option.some.injEq] at htag
    rw [← htoken, ← htag, token, Token.row_ofParts_of_le i.tag (parts_of_decode h).2.1]
  · intro heq
    rw [heq, token, Token.ofParts_tableId_row (Token.tableId?_ofParts t rid)]

end CodedIndex

namespace ModuleImage

/-- The attribute table of an image is made of the given bytes, all its rows decode, and the image is
indexed by their parents. -/
theorem attributeParents_of_ofBytes {info : TableInfo} {impls attributes heap : List UInt8}
    {types : TypeRegistry} {m : ModuleImage} (h : ofBytes info impls attributes heap types = .ok m) :
    m.customAttributes.info = info ∧ m.customAttributes.data = attributes ∧
      m.customAttributes.rowCount = info.rows .customAttribute ∧
      ∃ rows : List CustomAttributeRow, m.customAttributes.rows = rows.map .ok ∧
        (Table.rowNumbers m.customAttributes.rowCount).map m.customAttributes.row = rows.map .ok ∧
        m.attributeParents = rows.map fun row => (row.parent.token, row.rid) := by
  obtain ⟨_, -, h⟩ := Error.exists_of_bind_ok h
  obtain ⟨_, -, h⟩ := Error.exists_of_bind_ok h
  obtain ⟨t, ht, h⟩ := Error.exists_of_bind_ok h
  obtain ⟨rows, hrows, h⟩ := Error.exists_of_bind_ok h
  cases h
  obtain ⟨hinfo, hdata, hcount⟩ := Table.parts_of_ofBytes ht
  have hall := Table.eq_map_ok_of_mapM hrows
  refine ⟨hinfo, hdata, hcount, rows, hall, ?_, rfl⟩
  rw [Table.rows_eq] at hall
  rw [← Table.rowsFrom_zero, Table.eq_map_ok_of_untilError hall]

/-- **Attributes.**  What an image tells of the token of a row are the attribute rows, in table
order, whose parent column is the index of the row that the token addresses. -/
theorem customAttributeRids_eq {info : TableInfo} {impls attributes heap : List UInt8}
    {types : TypeRegistry} {m : ModuleImage} (h : ofBytes info impls attributes heap types = .ok m)
    (t : TableId) (rid : UInt32) :
    m.customAttributeRids (Token.ofParts t rid) = CustomAttributeRow.attachedRids info attributes
      (CodedIndex.encode? .hasCustomAttribute ⟨t, (Token.ofParts t rid).row⟩) := by
  obtain ⟨rfl, rfl, hcount, rows, -, hrows, hparents⟩ := attributeParents_of_ofBytes h
  rw [customAttributeRids, hparents, List.filterMap_map, CustomAttributeRow.attachedRids, ← hcount]
  refine Table.filterMap_of_map_ok hrows fun number row hrow => ?_
  obtain ⟨hrid, hdecode⟩ := CustomAttributeRow.parent_of_row hrow
  have htoken := CodedIndex.token_eq_iff hdecode t rid
  rw [Function.comp_apply, hrid]
  by_cases hparent : row.parent.token = Token.ofParts t rid
  · rw [if_pos hparent, if_pos (decide_eq_true (htoken.mp hparent))]
  · rw [if_neg hparent, if_neg fun hcolumn => hparent (htoken.mpr (of_decide_eq_true hcolumn))]

end ModuleImage

end CilMetadata

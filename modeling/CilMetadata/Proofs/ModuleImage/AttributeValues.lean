import CilMetadata.Proofs.ModuleImage.Existence

/-!
# Reading attributes

An image reads the attribute of a row when it is asked for.  The row was read once before, when the
image was made, so its columns decode again; only its value may lead nowhere.  A value at place 0 is
empty without a look at the heap, and that is what the heap has there.

* `columns_of_row`: an attribute row by its columns;
* `toAttribute_eq`: the attribute of a row has the blob that the heap has at its value;
* `reads_of_ofBytes`: what an image answers for the number of an attribute row.
-/

namespace CilMetadata

open Bytes (slice number)

namespace CustomAttributeRow

variable {rid : UInt32} {row : CustomAttributeRow}

def valueColumn (info : TableInfo) (data : List UInt8) (rid : UInt32) : UInt32 :=
  UInt32.ofNat (number (slice data ((rid.toNat - 1) * Row.size CustomAttributeRow info +
    info.codedBytes .hasCustomAttribute + info.codedBytes .customAttributeType) info.blobBytes))

theorem columns_of_row {t : Table CustomAttributeRow} (h : t.row rid = .ok row) :
    CodedIndex.decode .customAttributeType (constructorColumn t.info t.data rid) = .ok row.constructor ∧
      row.value = valueColumn t.info t.data rid := by
  obtain ⟨-, -, hfields⟩ := Columnar.fields_of_row h
  rw [Table.rowSize] at hfields
  unfold constructorColumn valueColumn
  -- the size of the row is told by its columns, its place is not
  generalize (rid.toNat - 1) * Row.size CustomAttributeRow t.info = offset at hfields ⊢
  rw [Columnar.size_eq] at hfields
  have hrest := Column.rest_of_fields_ok (c := .coded .hasCustomAttribute) hfields
  have hconstructor := Column.field_of_fields_ok hrest
  have hvalue := Column.field_of_fields_ok (Column.rest_of_fields_ok hrest)
  exact ⟨Column.decode_of_field_ok hconstructor, (Cell.number.inj (Except.ok.inj hvalue)).symm⟩

/-- The attribute of a row has the blob that the heap has at its value, also at place 0. -/
theorem toAttribute_eq (row : CustomAttributeRow) (heap : BlobHeap) :
    row.toAttribute heap = (heap.get row.value.toNat).map fun value =>
      ⟨row.rid, row.token, row.offset, row.parent.token, row.constructor.token, value⟩ := by
  unfold toAttribute
  by_cases h : row.value = 0
  · have hzero : heap.get row.value.toNat = .ok [] := by
      rw [h]
      exact heap.get_zero
    rw [if_pos h, hzero]
    rfl
  · rw [if_neg h]
    cases heap.get row.value.toNat <;> rfl

end CustomAttributeRow

namespace CustomAttribute

open CustomAttributeRow (parentColumn constructorColumn valueColumn)

/-- An attribute is the one that a row of a table attaches: its fields are what the columns of the row
stand for, and its value is the blob that the heap has at the value column. -/
structure InRow (info : TableInfo) (data : List UInt8) (heap : BlobHeap) (rid : UInt32)
    (a : CustomAttribute) : Prop where
  rid_eq : a.rid = rid
  token_eq : a.token = Token.ofParts .customAttribute rid
  offset_eq : a.offset = (rid.toNat - 1) * Row.size CustomAttributeRow info
  parent_eq : ∃ p, CodedIndex.decode .hasCustomAttribute (parentColumn info data rid) = .ok p ∧
    a.parent = p.token
  constructor_eq : ∃ c, CodedIndex.decode .customAttributeType (constructorColumn info data rid) = .ok c ∧
    a.constructor = c.token
  value_eq_nil : valueColumn info data rid = 0 → a.value = []
  get_eq : heap.get (valueColumn info data rid).toNat = .ok a.value

/-- What a row of a table leads to: its attribute, or the error that the heap has for its value. -/
theorem inRow_or_error {t : Table CustomAttributeRow} {rid : UInt32} {row : CustomAttributeRow}
    (hrow : t.row rid = .ok row) (heap : BlobHeap) :
    (∃ a, row.toAttribute heap = .ok a ∧ a.InRow t.info t.data heap rid) ∨
      ∃ e, row.toAttribute heap = .error e ∧
        heap.get (valueColumn t.info t.data rid).toNat = .error e := by
  obtain ⟨hrid, hplace, -⟩ := Columnar.fields_of_row hrow
  obtain ⟨-, hparent⟩ := CustomAttributeRow.parent_of_row hrow
  obtain ⟨hconstructor, hvalue⟩ := CustomAttributeRow.columns_of_row hrow
  have hnumber : row.rid = rid := hrid
  rw [row.toAttribute_eq, ← hvalue]
  cases hget : heap.get row.value.toNat with
  | error e => exact .inr ⟨e, rfl, rfl⟩
  | ok value =>
    refine .inl ⟨_, rfl, hnumber, congrArg (Token.ofParts .customAttribute) hnumber, hplace,
      ⟨_, hparent, rfl⟩, ⟨_, hconstructor, rfl⟩, fun hzero => ?_, hvalue ▸ hget⟩
    rw [hvalue, hzero] at hget
    exact Except.ok.inj (hget.symm.trans heap.get_zero)

end CustomAttribute

namespace ModuleImage

open CustomAttributeRow (valueColumn)

variable {info : TableInfo} {impls attributes heap : List UInt8} {types : TypeRegistry} {m : ModuleImage}
  {rid : UInt32} {a : CustomAttribute}

theorem readCustomAttribute_of_missing (h : rid = 0 ∨ m.rowCount .customAttribute < rid) :
    m.readCustomAttribute rid = .error (.invalidRowId .customAttribute rid) := by
  have hmissing : ¬ (rid ≠ 0 ∧ rid ≤ m.rowCount .customAttribute) := by rwa [Table.counted_iff, not_not]
  rw [readCustomAttribute, Table.row_of_missing hmissing]
  rfl

/-- A row that is counted was read when the image was made, so only its value decides. -/
theorem readCustomAttribute_cases (h : ofBytes info impls attributes heap types = .ok m) (h0 : rid ≠ 0)
    (hle : rid ≤ m.rowCount .customAttribute) :
    (∃ a, m.readCustomAttribute rid = .ok a ∧ a.InRow info attributes m.heap rid) ∨
      ∃ e, m.readCustomAttribute rid = .error e ∧
        m.heap.get (valueColumn info attributes rid).toNat = .error e := by
  obtain ⟨rfl, rfl, -, -⟩ := attributeParents_of_ofBytes h
  obtain ⟨row, hrow⟩ := exists_row h h0 hle
  have hread : m.readCustomAttribute rid = row.toAttribute m.heap := by
    rw [readCustomAttribute, hrow]
    rfl
  rw [hread]
  exact CustomAttribute.inRow_or_error hrow m.heap

theorem get_of_read_error (h : ofBytes info impls attributes heap types = .ok m) (h0 : rid ≠ 0)
    (hle : rid ≤ m.rowCount .customAttribute) {e : Error} (he : m.readCustomAttribute rid = .error e) :
    m.heap.get (valueColumn info attributes rid).toNat = .error e := by
  rcases readCustomAttribute_cases h h0 hle with ⟨a, ha, -⟩ | ⟨e', he', hget⟩
  · cases he.symm.trans ha
  · cases he.symm.trans he'
    exact hget

theorem inRow_of_read (h : ofBytes info impls attributes heap types = .ok m)
    (ha : m.readCustomAttribute rid = .ok a) :
    (rid ≠ 0 ∧ rid ≤ m.rowCount .customAttribute) ∧ a.InRow info attributes m.heap rid := by
  have hcounted : rid ≠ 0 ∧ rid ≤ m.rowCount .customAttribute := by
    refine Table.counted_iff.mpr fun hmissing => ?_
    cases ha.symm.trans (readCustomAttribute_of_missing hmissing)
  refine ⟨hcounted, ?_⟩
  rcases readCustomAttribute_cases h hcounted.1 hcounted.2 with ⟨b, hb, hrow⟩ | ⟨e, he, -⟩
  · cases ha.symm.trans hb
    exact hrow
  · cases ha.symm.trans he

theorem mem_customAttributeRids_iff_of_inRow (h : ofBytes info impls attributes heap types = .ok m)
    (hcounted : rid ≠ 0 ∧ rid ≤ m.rowCount .customAttribute) (ha : a.InRow info attributes m.heap rid)
    (q : Token) : rid ∈ m.customAttributeRids q ↔ q = a.parent := by
  obtain ⟨row, hrow⟩ := exists_row h hcounted.1 hcounted.2
  have hparent : a.parent = row.parent.token := by
    obtain ⟨hinfo, hdata, -, -⟩ := attributeParents_of_ofBytes h
    obtain ⟨p, hp, hap⟩ := ha.parent_eq
    have hdecode := (CustomAttributeRow.parent_of_row hrow).2
    rw [hinfo, hdata, hp, Except.ok.injEq] at hdecode
    rw [hap, hdecode]
  rw [mem_customAttributeRids_iff h, hparent]
  constructor
  · rintro ⟨-, row', hrow', rfl⟩
    cases hrow.symm.trans hrow'
    rfl
  · rintro rfl
    exact ⟨hcounted, row, hrow, rfl⟩

/-- What an image answers for the number of an attribute row. -/
structure ReadsAttributes (info : TableInfo) (attributes heap : List UInt8) (m : ModuleImage) : Prop where
  /-- blobs come from the heap that the image was made of -/
  heap_eq : BlobHeap.ofBytes heap = .ok m.heap
  /-- exactly the numbers that the table does not count are refused -/
  refused_iff : ∀ rid, (∃ t n, m.readCustomAttribute rid = .error (.invalidRowId t n)) ↔
    rid = 0 ∨ m.rowCount .customAttribute < rid
  /-- with the table and the number -/
  refused : ∀ rid, rid = 0 ∨ m.rowCount .customAttribute < rid →
    m.readCustomAttribute rid = .error (.invalidRowId .customAttribute rid)
  /-- any other row has an attribute exactly if its value is 0 or leads to a blob -/
  ok_iff : ∀ rid, rid ≠ 0 → rid ≤ m.rowCount .customAttribute →
    ((∃ a, m.readCustomAttribute rid = .ok a) ↔ valueColumn info attributes rid = 0 ∨
      ∃ blob, m.heap.get (valueColumn info attributes rid).toNat = .ok blob)
  /-- and otherwise the error is the one that the heap has for the value -/
  error_iff : ∀ rid, rid ≠ 0 → rid ≤ m.rowCount .customAttribute → ∀ e,
    m.readCustomAttribute rid = .error e ↔ valueColumn info attributes rid ≠ 0 ∧
      m.heap.get (valueColumn info attributes rid).toNat = .error e
  /-- which is never one of a coded index or of a table -/
  error_cases : ∀ rid, rid ≠ 0 → rid ≤ m.rowCount .customAttribute → ∀ e,
    m.readCustomAttribute rid = .error e →
      (∃ first, e = .malformed (.compressedMarker first)) ∨ e = .outOfBounds
  /-- an attribute that was read is the one in its row -/
  inRow : ∀ rid a, m.readCustomAttribute rid = .ok a → a.InRow info attributes m.heap rid
  /-- and its parent is the one token under which the row is listed -/
  listed_iff : ∀ rid a, m.readCustomAttribute rid = .ok a →
    ∀ q, rid ∈ m.customAttributeRids q ↔ q = a.parent

/-- **Attributes.**  Reading an attribute agrees with the table, with the index by parents and with the
heap, in every image and for every number. -/
theorem reads_of_ofBytes (h : ofBytes info impls attributes heap types = .ok m) :
    ReadsAttributes info attributes heap m where
  heap_eq := (info_heap_of_ofBytes h).2
  refused_iff rid := by
    refine ⟨fun ⟨t, n, hrefused⟩ => ?_, fun hrid => ⟨_, _, readCustomAttribute_of_missing hrid⟩⟩
    by_contra hrid
    obtain ⟨h0, hle⟩ := Table.counted_iff.mpr hrid
    rcases m.heap.get_error_cases (get_of_read_error h h0 hle hrefused) with ⟨_, he⟩ | he <;> cases he
  refused _ := readCustomAttribute_of_missing
  ok_iff rid h0 hle := by
    constructor
    · rintro ⟨a, ha⟩
      exact .inr ⟨a.value, (inRow_of_read h ha).2.get_eq⟩
    · intro hvalue
      -- place 0 holds a blob too, so only the heap is left to ask
      have hfound : ∃ blob, m.heap.get (valueColumn info attributes rid).toNat = .ok blob := by
        rcases hvalue with hzero | hfound
        · rw [hzero]
          exact ⟨_, m.heap.get_zero⟩
        · exact hfound
      obtain ⟨blob, hblob⟩ := hfound
      rcases readCustomAttribute_cases h h0 hle with ⟨a, ha, -⟩ | ⟨e, -, he⟩
      · exact ⟨a, ha⟩
      · cases hblob.symm.trans he
  error_iff rid h0 hle e := by
    constructor
    · intro he
      have hget := get_of_read_error h h0 hle he
      refine ⟨fun hzero => ?_, hget⟩
      rw [hzero] at hget
      cases hget.symm.trans m.heap.get_zero
    · rintro ⟨-, hget⟩
      rcases readCustomAttribute_cases h h0 hle with ⟨a, -, ha⟩ | ⟨e', he', hget'⟩
      · cases hget.symm.trans ha.get_eq
      · cases hget.symm.trans hget'
        exact he'
  error_cases rid h0 hle e he := m.heap.get_error_cases (get_of_read_error h h0 hle he)
  inRow rid a ha := (inRow_of_read h ha).2
  listed_iff rid a ha := by
    obtain ⟨hcounted, hrow⟩ := inRow_of_read h ha
    exact mem_customAttributeRids_iff_of_inRow h hcounted hrow

/-- Three attributes of one entity: without a value, with two bytes and with a value past the heap. -/
theorem reads_of_ofBytes_three_rows :
    ∃ m a, ofBytes (.ofList [(.interfaceImpl, 1), (.customAttribute, 3)] false) [0, 0, 0, 0]
        [37, 0, 11, 0, 0, 0, 37, 0, 11, 0, 1, 0, 37, 0, 11, 0, 9, 0] [0, 2, 1, 0] (.ofList []) = .ok m ∧
      (∃ b, m.readCustomAttribute 1 = .ok b ∧ b.value = []) ∧
      m.readCustomAttribute 2 = .ok a ∧ a.value = [1, 0] ∧
      (∀ q, 2 ∈ m.customAttributeRids q ↔ q = Token.ofParts .interfaceImpl 1) ∧
      m.readCustomAttribute 3 = .error .outOfBounds ∧
      m.readCustomAttribute 4 = .error (.invalidRowId .customAttribute 4) := by
  obtain ⟨m, hm⟩ : ∃ m, ofBytes (.ofList [(.interfaceImpl, 1), (.customAttribute, 3)] false) [0, 0, 0, 0]
    [37, 0, 11, 0, 0, 0, 37, 0, 11, 0, 1, 0, 37, 0, 11, 0, 9, 0] [0, 2, 1, 0] (.ofList []) = .ok m := ⟨_, rfl⟩
  have hreads := reads_of_ofBytes hm
  obtain ⟨b, hb⟩ := (hreads.ok_iff 1 (by decide) (by cases hm; decide)).mpr (.inl (by decide))
  have hempty := (hreads.inRow 1 b hb).value_eq_nil (by decide)
  have hpast := (hreads.error_iff 3 (by decide) (by cases hm; decide) .outOfBounds).mpr
    ⟨by decide, by cases hm; rfl⟩
  have hrefused := hreads.refused 4 (.inr (by cases hm; decide))
  obtain ⟨a, ha, hvalue, hparent⟩ : ∃ a, m.readCustomAttribute 2 = .ok a ∧ a.value = [1, 0] ∧
      a.parent = Token.ofParts .interfaceImpl 1 := by
    cases hm
    exact ⟨_, rfl, rfl, rfl⟩
  exact ⟨m, a, hm, ⟨b, hb, hempty⟩, ha, hvalue, hparent ▸ hreads.listed_iff 2 a ha, hpast, hrefused⟩

end ModuleImage

end CilMetadata

import CilMetadata.Proofs.BlobHeap.Entries
import CilMetadata.Proofs.ModuleImage.ParentIndex

/-!
# What makes a module image

Which bytes are accepted as a module, and which error the others are answered with.  The checks come
in an order: the heap, the length of both tables, then the attribute rows one by one, of each the
parent column before the constructor column.  Nothing else of the bytes matters.

* `row_eq_error_iff`: why an attribute row does not decode, by its columns;
* `collect_eq_error_iff`: rows are collected up to the first that does not decode;
* `decides_ofBytes`: which bytes are accepted, and the first defect of the others.
-/

namespace CilMetadata

open Bytes (Reader slice number)

/-! ### Attribute rows by their columns -/

namespace CustomAttributeRow

def constructorColumn (info : TableInfo) (data : List UInt8) (rid : UInt32) : UInt32 :=
  UInt32.ofNat (number (slice data ((rid.toNat - 1) * Row.size CustomAttributeRow info +
    info.codedBytes .hasCustomAttribute) (info.codedBytes .customAttributeType)))

/-- The error of the first column of a row that does not decode: the parent comes before the
constructor. -/
def defect? (info : TableInfo) (data : List UInt8) (rid : UInt32) : Option Error :=
  match CodedIndex.decode .hasCustomAttribute (parentColumn info data rid) with
  | .error e => some e
  | .ok _ =>
    match CodedIndex.decode .customAttributeType (constructorColumn info data rid) with
    | .error e => some e
    | .ok _ => none

variable {info : TableInfo} {data : List UInt8} {rid : UInt32}

theorem defect?_eq_none_iff : defect? info data rid = none ↔
    (∃ p, CodedIndex.decode .hasCustomAttribute (parentColumn info data rid) = .ok p) ∧
      ∃ c, CodedIndex.decode .customAttributeType (constructorColumn info data rid) = .ok c := by
  unfold defect?
  cases CodedIndex.decode .hasCustomAttribute (parentColumn info data rid) with
  | error e => simp
  | ok p => cases CodedIndex.decode .customAttributeType (constructorColumn info data rid) <;> simp

theorem malformed_of_defect? {e : Error} (h : defect? info data rid = some e) : ∃ d, e = .malformed d := by
  unfold defect? at h
  split at h
  · rename_i hparent
    cases h
    exact CodedIndex.malformed_of_decode hparent
  · split at h
    · rename_i hconstructor
      cases h
      exact CodedIndex.malformed_of_decode hconstructor
    · cases h

/-- A row of a table is missing exactly because of its defect. -/
theorem row_eq_error_iff {t : Table CustomAttributeRow} (h0 : rid ≠ 0) (h : rid ≤ t.rowCount) {e : Error} :
    t.row rid = .error e ↔ defect? t.info t.data rid = some e := by
  have hcells := Table.layoutAgrees_of_columnar.row_eq t rid h0 h
  rw [Table.rowSize] at hcells
  unfold defect? parentColumn constructorColumn
  rw [← slice]
  -- the size of the row is told by its columns, its place is not
  generalize (rid.toNat - 1) * Row.size CustomAttributeRow t.info = offset at hcells ⊢
  rw [Columnar.size_eq, show Columnar.columns CustomAttributeRow =
    [.coded .hasCustomAttribute, .coded .customAttributeType, .blob] from rfl, Column.fields_slice,
    Column.fields_slice] at hcells
  simp only [Column.field, Column.width] at hcells
  revert hcells
  cases CodedIndex.decode .hasCustomAttribute _ with
  | error e' =>
    cases t.row rid with
    | error e'' => rintro ⟨⟩; simp
    | ok row => rintro ⟨⟩
  | ok p =>
    cases CodedIndex.decode .customAttributeType _ with
    | error e' =>
      cases t.row rid with
      | error e'' => rintro ⟨⟩; simp
      | ok row => rintro ⟨⟩
    | ok c =>
      cases t.row rid with
      | error e' => rintro ⟨⟩
      | ok row => simp

/-- The columns of a row are told by the bytes of the rows up to it. -/
theorem defect?_congr {data' : List UInt8} {count : UInt32} (h0 : rid ≠ 0) (h : rid ≤ count)
    (hdata : data.take (count.toNat * Row.size CustomAttributeRow info) =
      data'.take (count.toNat * Row.size CustomAttributeRow info)) :
    defect? info data rid = defect? info data' rid := by
  have hsize : info.codedBytes .hasCustomAttribute + info.codedBytes .customAttributeType ≤
    Row.size CustomAttributeRow info := Nat.le_add_right _ _
  have hend : (rid.toNat - 1) * Row.size CustomAttributeRow info + Row.size CustomAttributeRow info ≤
      count.toNat * Row.size CustomAttributeRow info := by
    rw [← Nat.succ_mul]
    exact Nat.mul_le_mul_right _ (Table.place_lt h0 h)
  have hslice : ∀ offset w, offset + w ≤ count.toNat * Row.size CustomAttributeRow info →
      slice data offset w = slice data' offset w := by
    intro offset w hle
    have hdrop := congrArg (fun bytes => (bytes.drop offset).take w) hdata
    simp only [List.drop_take, List.take_take, Nat.min_eq_left (Nat.le_sub_of_add_le' hle)] at hdrop
    exact hdrop
  unfold defect? parentColumn constructorColumn
  generalize (rid.toNat - 1) * Row.size CustomAttributeRow info = offset at hend ⊢
  rw [← slice, ← slice, hslice offset _ (by omega), hslice (offset + _) _ (by omega)]

end CustomAttributeRow

/-! ### Collecting rows -/

theorem Error.eq_error_or_exists_of_bind_error {α β : Type} {x : Except Error α} {f : α → Except Error β}
    {e : Error} (h : (x >>= f) = .error e) : x = .error e ∨ ∃ a, x = .ok a ∧ f a = .error e := by
  cases x with
  | error e' =>
    cases h
    exact .inl rfl
  | ok a => exact .inr ⟨a, rfl, h⟩

/-- Rows are collected up to the first that does not decode. -/
theorem Table.collect_eq_error_iff {κ ρ : Type} {f : κ → Except Error ρ} {numbers : List κ} {e : Error} :
    (untilError (numbers.map f)).mapM id = .error e ↔
      ∃ front n back, numbers = front ++ n :: back ∧ (∀ k ∈ front, ∃ r, f k = .ok r) ∧ f n = .error e := by
  induction numbers with
  | nil => simp [untilError, pure, Except.pure]
  | cons k numbers ih =>
    rw [List.map_cons]
    cases hk : f k with
    | error e' =>
      rw [untilError, List.mapM_cons]
      constructor
      · intro h
        cases h
        exact ⟨[], k, numbers, rfl, List.forall_mem_nil _, hk⟩
      · rintro ⟨front, n, back, hsplit, hfront, hn⟩
        cases front with
        | nil =>
          cases hsplit
          cases hk.symm.trans hn
          rfl
        | cons k' front =>
          cases hsplit
          obtain ⟨r, hr⟩ := hfront k List.mem_cons_self
          cases hk.symm.trans hr
    | ok r =>
      have hcollect : (untilError (.ok r :: numbers.map f)).mapM id = .error e ↔
          (untilError (numbers.map f)).mapM id = .error e := by
        rw [untilError, List.mapM_cons]
        cases (untilError (numbers.map f)).mapM id <;> simp [bind, Except.bind, pure, Except.pure]
      rw [hcollect, ih]
      constructor
      · rintro ⟨front, n, back, rfl, hfront, hn⟩
        refine ⟨k :: front, n, back, rfl, fun k' hk' => ?_, hn⟩
        rcases List.mem_cons.mp hk' with rfl | hk'
        · exact ⟨r, hk⟩
        · exact hfront k' hk'
      · rintro ⟨front, n, back, hsplit, hfront, hn⟩
        cases front with
        | nil =>
          cases hsplit
          cases hk.symm.trans hn
        | cons k' front =>
          cases hsplit
          exact ⟨front, n, back, rfl, fun k' hk' => hfront k' (List.mem_cons_of_mem k hk'), hn⟩

theorem Table.exists_of_collect_error {ρ : Type} [Row ρ] [LawfulRow ρ] {t : Table ρ} {e : Error}
    (h : t.rows.mapM id = .error e) : ∃ rid, (rid ≠ 0 ∧ rid ≤ t.rowCount) ∧ t.row rid = .error e ∧
      ∀ k, k ≠ 0 → k < rid → ∃ r, t.row k = .ok r := by
  rw [rows_eq, rowsFrom_zero] at h
  obtain ⟨front, rid, back, hsplit, hfront, hrid⟩ := collect_eq_error_iff.mp h
  have hrange : ∀ {k}, k ∈ front ++ rid :: back ↔ k ≠ 0 ∧ k ≤ t.rowCount := by
    intro k
    rw [← hsplit, mem_rowNumbers]
  have hmem := hrange.mp (List.mem_append_right front List.mem_cons_self)
  refine ⟨rid, hmem, hrid, fun k h0 hlt => hfront k ?_⟩
  have hk := hrange.mpr ⟨h0, UInt32.le_trans (UInt32.le_of_lt hlt) hmem.2⟩
  -- the numbers ascend, so those after the row are too large
  have hasc := pairwise_rowNumbers t.rowCount
  rw [hsplit, List.pairwise_append, List.pairwise_cons] at hasc
  rcases List.mem_append.mp hk with hk | hk
  · exact hk
  · rcases List.mem_cons.mp hk with rfl | hk
    · exact absurd hlt (UInt32.lt_irrefl k)
    · exact absurd hlt (UInt32.lt_asymm (hasc.2.1.1 k hk))

/-! ### Heaps and tables that are not accepted -/

theorem BlobHeap.defect_of_ofBytes {data : List UInt8} {e : Error} (h : ofBytes data = .error e) :
    data.head? ≠ some 0 ∧ e = .malformed .blobHeap := by
  unfold ofBytes at h
  split at h
  · cases h
  · rename_i hhead
    cases h
    exact ⟨hhead, rfl⟩

theorem Table.defect_of_ofBytes {ρ : Type} [Row ρ] {info : TableInfo} {data : List UInt8}
    {rowCount : UInt32} {e : Error} (h : (ofBytes info data rowCount : Except Error (Table ρ)) = .error e) :
    data.length < rowCount.toNat * Row.size ρ info ∧ e = .outOfBounds := by
  unfold ofBytes at h
  split at h
  · cases h
  · rename_i hshort
    cases h
    exact ⟨Nat.lt_of_not_le hshort, rfl⟩

theorem Table.size_le_of_ofBytes {ρ : Type} [Row ρ] {info : TableInfo} {data : List UInt8}
    {rowCount : UInt32} {t : Table ρ} (h : ofBytes info data rowCount = .ok t) :
    rowCount.toNat * Row.size ρ info ≤ data.length := by
  obtain ⟨rfl, rfl, rfl⟩ := parts_of_ofBytes h
  exact t.size_le

/-! ### Acceptance -/

namespace ModuleImage

def implBytes (info : TableInfo) : Nat :=
  (info.rows .interfaceImpl).toNat * Row.size InterfaceImplRow info

def attributeBytes (info : TableInfo) : Nat :=
  (info.rows .customAttribute).toNat * Row.size CustomAttributeRow info

/-- Bytes that make a module. -/
structure WellFormed (info : TableInfo) (impls attributes heap : List UInt8) : Prop where
  head?_eq : heap.head? = some 0
  impls_le : implBytes info ≤ impls.length
  attributes_le : attributeBytes info ≤ attributes.length
  columns : ∀ rid, rid ≠ 0 → rid ≤ info.rows .customAttribute →
    (∃ p, CodedIndex.decode .hasCustomAttribute
      (CustomAttributeRow.parentColumn info attributes rid) = .ok p) ∧
    ∃ c, CodedIndex.decode .customAttributeType
      (CustomAttributeRow.constructorColumn info attributes rid) = .ok c

/-- The first thing that is wrong with the bytes of a module, and the error that tells it. -/
inductive FirstDefect (info : TableInfo) (impls attributes heap : List UInt8) : Error → Prop
  | heap (h : heap.head? ≠ some 0) : FirstDefect info impls attributes heap (.malformed .blobHeap)
  | impls (hheap : heap.head? = some 0) (h : impls.length < implBytes info) :
    FirstDefect info impls attributes heap .outOfBounds
  | attributes (hheap : heap.head? = some 0) (himpls : implBytes info ≤ impls.length)
    (h : attributes.length < attributeBytes info) : FirstDefect info impls attributes heap .outOfBounds
  /-- the row of the lowest number that has a defect -/
  | row (hheap : heap.head? = some 0) (himpls : implBytes info ≤ impls.length)
    (hattributes : attributeBytes info ≤ attributes.length) {rid : UInt32} (h0 : rid ≠ 0)
    (hle : rid ≤ info.rows .customAttribute) {e : Error}
    (h : CustomAttributeRow.defect? info attributes rid = some e)
    (hfirst : ∀ k, k ≠ 0 → k < rid → CustomAttributeRow.defect? info attributes k = none) :
    FirstDefect info impls attributes heap e

variable {info : TableInfo} {impls attributes heap : List UInt8} {types : TypeRegistry}

theorem wellFormed_of_ofBytes {m : ModuleImage} (h : ofBytes info impls attributes heap types = .ok m) :
    WellFormed info impls attributes heap := by
  obtain ⟨hinfo, hdata, hcount, -⟩ := attributeParents_of_ofBytes h
  refine ⟨?_, ?_, ?_, fun rid h0 hle => ?_⟩
  · obtain ⟨b, hheap, -⟩ := Error.exists_of_bind_ok h
    exact BlobHeap.data_of_ofBytes hheap ▸ b.head?_eq
  · obtain ⟨_, -, htables⟩ := Error.exists_of_bind_ok h
    obtain ⟨t, ht, -⟩ := Error.exists_of_bind_ok htables
    exact Table.size_le_of_ofBytes ht
  · have hle := m.customAttributes.size_le
    rwa [hinfo, hdata, hcount] at hle
  · rw [← hcount] at hle
    obtain ⟨row, hrow⟩ := exists_row h h0 hle
    refine CustomAttributeRow.defect?_eq_none_iff.mp (Option.eq_none_iff_forall_ne_some.mpr fun e he => ?_)
    rw [← hinfo, ← hdata, ← CustomAttributeRow.row_eq_error_iff h0 hle, hrow] at he
    cases he

theorem firstDefect_of_ofBytes {e : Error} (h : ofBytes info impls attributes heap types = .error e) :
    FirstDefect info impls attributes heap e := by
  rcases Error.eq_error_or_exists_of_bind_error h with hb | ⟨b, hb, htables⟩
  · obtain ⟨hheap, rfl⟩ := BlobHeap.defect_of_ofBytes hb
    exact .heap hheap
  have hheap : heap.head? = some 0 := BlobHeap.data_of_ofBytes hb ▸ b.head?_eq
  rcases Error.eq_error_or_exists_of_bind_error htables with ht | ⟨t, ht, htable⟩
  · obtain ⟨himpls, rfl⟩ := Table.defect_of_ofBytes ht
    exact .impls hheap himpls
  have himpls := Table.size_le_of_ofBytes ht
  rcases Error.eq_error_or_exists_of_bind_error htable with hu | ⟨u, hu, hcollect⟩
  · obtain ⟨hattributes, rfl⟩ := Table.defect_of_ofBytes hu
    exact .attributes hheap himpls hattributes
  have hattributes := Table.size_le_of_ofBytes hu
  rcases Error.eq_error_or_exists_of_bind_error hcollect with hrows | ⟨rows, hrows, hnone⟩
  · obtain ⟨hinfo, hdata, hcount⟩ := Table.parts_of_ofBytes hu
    obtain ⟨rid, ⟨h0, hle⟩, hrid, hfirst⟩ := Table.exists_of_collect_error hrows
    have hdefect : ∀ k, k ≠ 0 → k ≤ u.rowCount → ∀ e, u.row k = .error e ↔
        CustomAttributeRow.defect? info attributes k = some e := by
      intro k hk hkle e
      rw [CustomAttributeRow.row_eq_error_iff hk hkle, hinfo, hdata]
    refine .row hheap himpls hattributes h0 (hcount ▸ hle) ((hdefect rid h0 hle e).mp hrid)
      fun k hk hlt => ?_
    obtain ⟨r, hr⟩ := hfirst k hk hlt
    refine Option.eq_none_iff_forall_ne_some.mpr fun e' he' => ?_
    rw [← hdefect k hk (UInt32.le_trans (UInt32.le_of_lt hlt) hle), hr] at he'
    cases he'
  · cases hnone

theorem WellFormed.defect?_eq_none (h : WellFormed info impls attributes heap) {rid : UInt32}
    (h0 : rid ≠ 0) (hle : rid ≤ info.rows .customAttribute) :
    CustomAttributeRow.defect? info attributes rid = none :=
  CustomAttributeRow.defect?_eq_none_iff.mpr (h.columns rid h0 hle)

theorem WellFormed.not_firstDefect (h : WellFormed info impls attributes heap) (e : Error) :
    ¬ FirstDefect info impls attributes heap e := by
  intro hdefect
  cases hdefect with
  | heap hheap => exact hheap h.head?_eq
  | impls _ himpls => exact absurd h.impls_le (Nat.not_le.mpr himpls)
  | attributes _ _ hattributes => exact absurd h.attributes_le (Nat.not_le.mpr hattributes)
  | row _ _ _ h0 hle he _ =>
    rw [h.defect?_eq_none h0 hle] at he
    cases he

theorem FirstDefect.unique {e e' : Error} (h : FirstDefect info impls attributes heap e)
    (h' : FirstDefect info impls attributes heap e') : e = e' := by
  cases h with
  | heap hheap =>
    cases h' with
    | heap => rfl
    | impls hheap' | attributes hheap' | row hheap' => exact absurd hheap' hheap
  | impls hheap himpls =>
    cases h' with
    | heap hheap' => exact absurd hheap hheap'
    | impls => rfl
    | attributes _ himpls' | row _ himpls' => omega
  | attributes hheap himpls hattributes =>
    cases h' with
    | heap hheap' => exact absurd hheap hheap'
    | impls _ himpls' => omega
    | attributes => rfl
    | row _ _ hattributes' => omega
  | @row hheap himpls hattributes rid h0 _ _ he hfirst =>
    cases h' with
    | heap hheap' => exact absurd hheap hheap'
    | impls _ himpls' => omega
    | attributes _ _ hattributes' => omega
    | @row _ _ _ rid' h0' _ _ he' hfirst' =>
      by_cases heq : rid = rid'
      · rw [heq, he'] at he
        exact (Option.some.inj he).symm
      · rcases UInt32.lt_or_lt_of_ne heq with hlt | hlt
        · rw [hfirst' rid h0 hlt] at he
          cases he
        · rw [hfirst rid' h0' hlt] at he'
          cases he'

theorem exists_ofBytes_iff : (∃ m, ofBytes info impls attributes heap types = .ok m) ↔
    WellFormed info impls attributes heap := by
  refine ⟨fun ⟨m, hm⟩ => wellFormed_of_ofBytes hm, fun h => ?_⟩
  cases hx : ofBytes info impls attributes heap types with
  | ok m => exact ⟨m, rfl⟩
  | error e => exact absurd (firstDefect_of_ofBytes hx) (h.not_firstDefect e)

theorem ofBytes_eq_error_iff {e : Error} : ofBytes info impls attributes heap types = .error e ↔
    FirstDefect info impls attributes heap e := by
  refine ⟨firstDefect_of_ofBytes, fun h => ?_⟩
  cases hx : ofBytes info impls attributes heap types with
  | ok m => exact absurd h ((wellFormed_of_ofBytes hx).not_firstDefect e)
  | error e' => rw [(firstDefect_of_ofBytes hx).unique h]

/-! ### What does not matter -/

/-- Bytes that differ only in what does not matter: the contents of the `InterfaceImpl` rows, what
comes after the last row of a table, and what comes after the first byte of the heap. -/
structure SameOutline (info : TableInfo) (impls attributes heap impls' attributes' heap' : List UInt8) :
    Prop where
  head?_eq : heap.head? = heap'.head?
  impls_iff : implBytes info ≤ impls.length ↔ implBytes info ≤ impls'.length
  attributes_iff : attributeBytes info ≤ attributes.length ↔ attributeBytes info ≤ attributes'.length
  rows_eq : attributes.take (attributeBytes info) = attributes'.take (attributeBytes info)

variable {impls' attributes' heap' : List UInt8}

theorem SameOutline.symm (h : SameOutline info impls attributes heap impls' attributes' heap') :
    SameOutline info impls' attributes' heap' impls attributes heap :=
  ⟨h.head?_eq.symm, h.impls_iff.symm, h.attributes_iff.symm, h.rows_eq.symm⟩

theorem SameOutline.defect?_eq (h : SameOutline info impls attributes heap impls' attributes' heap')
    {rid : UInt32} (h0 : rid ≠ 0) (hle : rid ≤ info.rows .customAttribute) :
    CustomAttributeRow.defect? info attributes rid = CustomAttributeRow.defect? info attributes' rid :=
  CustomAttributeRow.defect?_congr h0 hle h.rows_eq

theorem SameOutline.wellFormed (h : SameOutline info impls attributes heap impls' attributes' heap')
    (hw : WellFormed info impls attributes heap) : WellFormed info impls' attributes' heap' := by
  refine ⟨h.head?_eq ▸ hw.head?_eq, h.impls_iff.mp hw.impls_le, h.attributes_iff.mp hw.attributes_le,
    fun rid h0 hle => ?_⟩
  rw [← CustomAttributeRow.defect?_eq_none_iff, ← h.defect?_eq h0 hle]
  exact hw.defect?_eq_none h0 hle

theorem SameOutline.firstDefect (h : SameOutline info impls attributes heap impls' attributes' heap')
    {e : Error} (hd : FirstDefect info impls attributes heap e) :
    FirstDefect info impls' attributes' heap' e := by
  have hhead : heap.head? = some 0 → heap'.head? = some 0 := fun hh => h.head?_eq ▸ hh
  cases hd with
  | heap hheap => exact .heap (h.head?_eq ▸ hheap)
  | impls hheap himpls =>
    exact .impls (hhead hheap) (Nat.lt_of_not_le fun hle => Nat.not_le.mpr himpls (h.impls_iff.mpr hle))
  | attributes hheap himpls hattributes =>
    exact .attributes (hhead hheap) (h.impls_iff.mp himpls)
      (Nat.lt_of_not_le fun hle => Nat.not_le.mpr hattributes (h.attributes_iff.mpr hle))
  | row hheap himpls hattributes h0 hle he hfirst =>
    refine .row (hhead hheap) (h.impls_iff.mp himpls) (h.attributes_iff.mp hattributes) h0 hle
      (h.defect?_eq h0 hle ▸ he) fun k hk hlt => ?_
    rw [← h.defect?_eq hk (UInt32.le_trans (UInt32.le_of_lt hlt) hle)]
    exact hfirst k hk hlt

theorem info_heap_of_ofBytes {m : ModuleImage} (h : ofBytes info impls attributes heap types = .ok m) :
    m.info = info ∧ BlobHeap.ofBytes heap = .ok m.heap := by
  obtain ⟨_, hheap, htables⟩ := Error.exists_of_bind_ok h
  obtain ⟨_, -, htable⟩ := Error.exists_of_bind_ok htables
  obtain ⟨_, -, hcollect⟩ := Error.exists_of_bind_ok htable
  obtain ⟨_, -, hlast⟩ := Error.exists_of_bind_ok hcollect
  cases hlast
  exact ⟨rfl, hheap⟩

theorem rowCount_of_ofBytes {m : ModuleImage} (h : ofBytes info impls attributes heap types = .ok m)
    (t : TableId) : m.rowCount t = info.rows t := by
  have himpls := (tables_of_ofBytes h).2.2
  have hattributes := (attributeParents_of_ofBytes h).2.2.1
  unfold rowCount
  split
  · exact himpls
  · exact hattributes
  · rw [(info_heap_of_ofBytes h).1]

/-! ### The decision -/

/-- Which bytes make a module, and what the others are answered with. -/
structure Decides (info : TableInfo) (impls attributes heap : List UInt8) (types : TypeRegistry) :
    Prop where
  /-- exactly what is well formed is accepted -/
  accepts_iff : (∃ m, ofBytes info impls attributes heap types = .ok m) ↔
    WellFormed info impls attributes heap
  /-- and what is not is answered with the error of its first defect -/
  error_iff : ∀ e, ofBytes info impls attributes heap types = .error e ↔
    FirstDefect info impls attributes heap e
  /-- the defect of a row is a coded index that does not decode -/
  malformed : ∀ rid e, CustomAttributeRow.defect? info attributes rid = some e → ∃ d, e = .malformed d
  /-- bytes of the same outline and any types are accepted alike and fail alike -/
  outline : ∀ impls' attributes' heap' types',
    SameOutline info impls attributes heap impls' attributes' heap' →
    ((∃ m, ofBytes info impls attributes heap types = .ok m) ↔
      ∃ m, ofBytes info impls' attributes' heap' types' = .ok m) ∧
    ∀ e, ofBytes info impls attributes heap types = .error e ↔
      ofBytes info impls' attributes' heap' types' = .error e
  /-- an image that was made has the rows that were counted -/
  rowCount : ∀ m, ofBytes info impls attributes heap types = .ok m → ∀ t, m.rowCount t = info.rows t

/-- **Acceptance.**  Exactly the bytes that are well formed make a module; the others are answered with
the error of their first defect. -/
theorem decides_ofBytes (info : TableInfo) (impls attributes heap : List UInt8) (types : TypeRegistry) :
    Decides info impls attributes heap types where
  accepts_iff := exists_ofBytes_iff
  error_iff _ := ofBytes_eq_error_iff
  malformed _ _ := CustomAttributeRow.malformed_of_defect?
  outline impls' attributes' heap' types' h := by
    refine ⟨?_, fun e => ?_⟩
    · rw [exists_ofBytes_iff, exists_ofBytes_iff]
      exact ⟨h.wellFormed, h.symm.wellFormed⟩
    · rw [ofBytes_eq_error_iff, ofBytes_eq_error_iff]
      exact ⟨h.firstDefect, h.symm.firstDefect⟩
  rowCount _ := rowCount_of_ofBytes

/-- Three rows, of which the second has no constructor and the third neither parent nor constructor. -/
example : ofBytes (.ofList [(.customAttribute, 3)] false) []
    [0x25, 0, 0x0B, 0, 0, 0, 0x25, 0, 0x08, 0, 0, 0, 0x3F, 0, 0x09, 0, 0, 0] [0] (.ofList []) =
      .error (.malformed (.invalidTag 0 .customAttributeType 8)) := rfl

end ModuleImage

end CilMetadata

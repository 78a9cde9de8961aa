import CilMetadata.Proofs.ModuleImage.Acceptance
import CilMetadata.Proofs.ModuleImage.Entities
import CilMetadata.Session.Image

/-!
# Which rows are there

Whether the `InterfaceImpl` table of an image has a row is checked in four places: by the row counts, by
the source, by the table when the row is read and by the entity when it is bound.  All of them count the
same rows, and so do the entities that are made of all rows.  What a row holds does not matter: a row
that does not decode is there.

* `row_of_missing`, `row_ne_invalidRowId`: a table refuses exactly the numbers that it does not count;
* `entitiesOf_eq`: rows that are there are all bound;
* `rows_agree_of_ofBytes`: the agreement.
-/

namespace CilMetadata

namespace Table

variable {ρ : Type} [Row ρ] {t : Table ρ} {rid : UInt32}

theorem row_of_missing (h : ¬ (rid ≠ 0 ∧ rid ≤ t.rowCount)) :
    t.row rid = .error (.invalidRowId (Row.table ρ) rid) := by
  rw [counted_iff, not_not] at h
  exact if_pos h

/-- A number that it counts is not, even if the row does not decode. -/
theorem row_ne_invalidRowId [Columnar ρ] [LawfulRow ρ] (h0 : rid ≠ 0) (h : rid ≤ t.rowCount)
    (table : TableId) (n : UInt32) : t.row rid ≠ .error (.invalidRowId table n) := by
  intro hrow
  obtain ⟨-, defect, hdefect⟩ := layoutAgrees_of_columnar.error t rid _ h0 h hrow
  cases hdefect

theorem getElem?_rowNumbers {count : UInt32} {k : Nat} (h : (rowNumbers count)[k]? = some rid) :
    k < count.toNat ∧ rid = UInt32.ofNat (k + 1) := by
  rw [rowNumbers, List.getElem?_map, Option.map_eq_some_iff] at h
  obtain ⟨i, hi, rfl⟩ := h
  obtain ⟨hlt, rfl⟩ := List.getElem?_eq_some_iff.mp hi
  rw [List.length_range] at hlt
  exact ⟨hlt, by rw [List.getElem_range]⟩

end Table

theorem InterfaceImpl.ofRow_missing {m : ModuleImage} {rid : UInt32}
    (h : ¬ (rid ≠ 0 ∧ rid ≤ m.interfaceImpls.rowCount)) (mode : ValidationMode) :
    ofRow .debug mode rid (some m) = (.error (.invalidRowId .interfaceImpl rid), some m) := by
  simp only [ofRow, RowBacked.bind, mode.checksRowIds_debug, if_true, ModuleImage.isValidRid_eq,
    decide_eq_false h]
  rfl

namespace ModuleImage

variable {m : ModuleImage} {rid : UInt32}

theorem entitiesOf_eq {rids : List UInt32} (h : ∀ rid ∈ rids, m.HasRow rid) (build : Build) :
    m.entitiesOf build rids = .ok (rids.map fun rid => .rowBacked (RowBacked.unread rid)) := by
  induction rids with
  | nil => rfl
  | cons rid rids ih =>
    obtain ⟨h0, hle⟩ := h rid List.mem_cons_self
    have hrest := ih fun n hn => h n (List.mem_cons_of_mem rid hn)
    rw [entitiesOf, InterfaceImpl.ofRow_image h0 hle, hrest]
    rfl

theorem allEntities_eq (m : ModuleImage) (build : Build) : m.allEntities build =
    .ok ((Table.rowNumbers m.interfaceImpls.rowCount).map fun rid => .rowBacked (RowBacked.unread rid)) :=
  entitiesOf_eq (fun _ hrid => Table.mem_rowNumbers.mp hrid) build

/-- Everything that tells whether the `InterfaceImpl` table of an image has a row tells the same.  What
is bound is so in debug builds, which check every row number. -/
structure RowsAgree (m : ModuleImage) : Prop where
  /-- the row can be bound -/
  bound_iff : ∀ rid,
    (∃ e, (InterfaceImpl.ofRow .debug m.validation rid (some m)).1 = .ok e) ↔ m.HasRow rid
  /-- the source has the row -/
  source_iff : ∀ rid, (Source.isValidRid .interfaceImpl rid m).1 = true ↔ m.HasRow rid
  /-- the row is counted -/
  counted_iff : ∀ rid, m.info.isValidRid .interfaceImpl rid = true ↔ m.HasRow rid
  /-- the row is not refused when it is read, whether it decodes or not -/
  read_iff : ∀ rid, (∀ table n, (Source.readInterfaceImpl rid m).1 ≠ .error (.invalidRowId table n)) ↔
    m.HasRow rid
  /-- a row that is not there is refused with its table and its number -/
  missing : ∀ rid, ¬ m.HasRow rid →
    InterfaceImpl.ofRow .debug m.validation rid (some m) =
        (.error (.invalidRowId .interfaceImpl rid), some m) ∧
      Source.readInterfaceImpl rid m = (.error (.invalidRowId .interfaceImpl rid), m)
  /-- the entities of all rows are made, each of them as if it were bound alone, and no row is read -/
  all : ∃ es, (∀ build, m.allEntities build = .ok es) ∧ es.length = (m.rowCount .interfaceImpl).toNat ∧
    ∀ k e, es[k]? = some e → e.isRowBacked = true ∧ e.rid.toNat = k + 1 ∧ e.isRowLoaded? = some false ∧
      ∀ build, InterfaceImpl.ofRow build m.validation e.rid (some m) = (.ok e, some m)

theorem rowsAgree_of_counted (h : m.interfaceImpls.rowCount = m.info.rows .interfaceImpl) : RowsAgree m where
  bound_iff rid := by
    constructor
    · rintro ⟨e, he⟩
      by_contra hmissing
      rw [InterfaceImpl.ofRow_missing hmissing] at he
      cases he
    · rintro ⟨h0, hle⟩
      rw [InterfaceImpl.ofRow_image h0 hle]
      exact ⟨_, rfl⟩
  source_iff rid := by
    rw [isValidRid_eq]
    exact decide_eq_true_iff
  counted_iff rid := by
    rw [TableInfo.isValidRid, ← h, Bool.and_eq_true, decide_eq_true_iff, decide_eq_true_iff]
    exact Iff.rfl
  read_iff rid := by
    constructor
    · intro hread
      by_contra hmissing
      exact hread _ _ (Table.row_of_missing hmissing)
    · rintro ⟨h0, hle⟩ table n
      exact Table.row_ne_invalidRowId h0 hle table n
  missing rid hmissing :=
    ⟨InterfaceImpl.ofRow_missing hmissing m.validation,
      congrArg (fun r => (r, m)) (Table.row_of_missing hmissing)⟩
  all := by
    refine ⟨_, m.allEntities_eq, ?_, fun k e he => ?_⟩
    · rw [List.length_map, Table.rowNumbers, List.length_map, List.length_range]
      rfl
    · rw [List.getElem?_map, Option.map_eq_some_iff] at he
      obtain ⟨rid, hrid, rfl⟩ := he
      obtain ⟨hk, rfl⟩ := Table.getElem?_rowNumbers hrid
      obtain ⟨h0, hle⟩ := Table.range_ofNat_succ hk
      exact ⟨rfl, Table.toNat_ofNat_succ hk, rfl, fun build =>
        InterfaceImpl.ofRow_image h0 hle build m.validation⟩

variable {info : TableInfo} {impls attributes heap : List UInt8} {types : TypeRegistry}

/-- **Rows.**  In every image, whatever its rows hold and however it checks row numbers, everything that
tells whether a row is there tells the same. -/
theorem rows_agree_of_ofBytes (h : ofBytes info impls attributes heap types = .ok m)
    (mode : ValidationMode) : RowsAgree (m.withValidation mode) := by
  refine rowsAgree_of_counted ?_
  have hinfo := (info_heap_of_ofBytes h).1
  have hcount := (tables_of_ofBytes h).2.2
  rw [← hinfo] at hcount
  exact hcount

/-- Two rows of which neither decodes. -/
theorem rows_agree_of_ofBytes_malformed :
    ∃ m es, ofBytes (.ofList [(.interfaceImpl, 2)] false) [1, 0, 3, 0, 1, 0, 7, 0] [] [0] (.ofList []) =
        .ok m ∧
      m.interfaceImpls.row 2 = .error (.malformed (.invalidTag 3 .typeDefOrRef 7)) ∧ m.HasRow 2 ∧
      (m.withValidation .fast).allEntities .debug = .ok es ∧ es.length = 2 := by
  obtain ⟨m, hm⟩ : ∃ m, ofBytes (.ofList [(.interfaceImpl, 2)] false) [1, 0, 3, 0, 1, 0, 7, 0] [] [0]
    (.ofList []) = .ok m := ⟨_, rfl⟩
  have hagree := rows_agree_of_ofBytes hm .fast
  obtain ⟨es, hes, hlength, -⟩ := hagree.all
  cases hm
  exact ⟨_, es, rfl, rfl, (hagree.source_iff 2).mp rfl, hes .debug, hlength⟩

end ModuleImage

end CilMetadata

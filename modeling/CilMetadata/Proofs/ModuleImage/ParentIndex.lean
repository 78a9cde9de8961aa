import Mathlib.Data.UInt
import CilMetadata.Proofs.CodedIndex.Width
import CilMetadata.Proofs.ModuleImage.Attributes

/-!
# The index of attributes by parent

The attribute rows of a table are indexed one after the other: every row is put behind the rows of
its parent.  An image lists what such an index has under a token, and since rows of tokens are rows
of the parent columns, the lists part the table.

* `rids_add`: what one more row changes;
* `indexRows_eq`: the index of a whole table;
* `partition_of_ofBytes`: the lists of an image part its attribute table.
-/

namespace CilMetadata

/-- The rows of every parent, by the value of its token. -/
abbrev ParentIndex : Type := Std.TreeMap UInt32 (List UInt32)

namespace ParentIndex

/-- Puts a row behind the rows of its parent. -/
def add (index : ParentIndex) (p : Token) (rid : UInt32) : ParentIndex :=
  index.alter p.value fun rids => some (rids.getD [] ++ [rid])

/-- The rows of a parent; a parent that is not in the index has none. -/
def rids (index : ParentIndex) (p : Token) : List UInt32 := index.getD p.value []

@[simp] theorem rids_empty (p : Token) : rids ∅ p = [] := Std.TreeMap.getD_emptyc

/-- **One row.**  A row comes last among the rows of its parent, and no other parent gets it. -/
theorem rids_add (index : ParentIndex) (p : Token) (rid : UInt32) (q : Token) :
    (index.add p rid).rids q = if p = q then index.rids q ++ [rid] else index.rids q := by
  have hkey : compare p.value q.value = .eq ↔ p = q := by
    rw [Std.LawfulEqCmp.compare_eq_iff_eq]
    exact ⟨fun h => congrArg Token.mk h, fun h => congrArg Token.value h⟩
  rw [rids, add, Std.TreeMap.getD_alter]
  by_cases h : p = q
  · rw [if_pos (hkey.mpr h), if_pos h, h, rids, Std.TreeMap.getD_eq_getD_getElem?]
    rfl
  · rw [if_neg fun hcompare => h (hkey.mp hcompare), if_neg h, rids]

/-- Indexes rows in order.  The first that does not decode ends it. -/
def indexRows : List (Except Error CustomAttributeRow) → ParentIndex → Except Error ParentIndex
  | [], index => .ok index
  | .ok row :: rows, index => indexRows rows (index.add row.parent.token row.rid)
  | .error e :: _, _ => .error e

/-- The number of a row, if it has the parent. -/
def ridUnder (p : Token) (row : CustomAttributeRow) : Option UInt32 :=
  if row.parent.token = p then some row.rid else none

theorem rids_add_row (index : ParentIndex) (row : CustomAttributeRow) (p : Token) :
    (index.add row.parent.token row.rid).rids p = index.rids p ++ (ridUnder p row).toList := by
  rw [rids_add, ridUnder]
  split
  · rfl
  · exact (List.append_nil _).symm

/-- **All rows.**  Rows that all decode are indexed, each behind those that come before it. -/
theorem indexRows_eq (rows : List CustomAttributeRow) (index : ParentIndex) :
    ∃ last, indexRows (rows.map .ok) index = .ok last ∧
      ∀ p, last.rids p = index.rids p ++ rows.filterMap (ridUnder p) := by
  induction rows generalizing index with
  | nil => exact ⟨index, rfl, fun p => (List.append_nil _).symm⟩
  | cons row rows ih =>
    obtain ⟨last, hlast, hrids⟩ := ih (index.add row.parent.token row.rid)
    refine ⟨last, hlast, fun p => ?_⟩
    rw [hrids, rids_add_row, List.append_assoc, List.filterMap_cons]
    cases ridUnder p row <;> rfl

end ParentIndex

/-! ### The lists of an image -/

namespace ModuleImage

variable {info : TableInfo} {impls attributes heap : List UInt8} {types : TypeRegistry} {m : ModuleImage}

/-- The attribute rows of an image are parted by the tokens of their parents. -/
structure PartsAttributes (info : TableInfo) (attributes : List UInt8) (m : ModuleImage) : Prop where
  /-- every token is answered with a list, and asking changes nothing -/
  answers : ∀ p, Source.customAttributeRids p m = (.ok (m.customAttributeRids p), m)
  /-- the list is what the index of the rows has under the token -/
  indexed : ∃ index, ParentIndex.indexRows m.customAttributes.rows ∅ = .ok index ∧
    ∀ p, m.customAttributeRids p = index.rids p
  ascending : ∀ p, (m.customAttributeRids p).Pairwise (· < ·)
  /-- the list holds the rows of the table that decode to the parent -/
  mem_iff : ∀ p rid, rid ∈ m.customAttributeRids p ↔
    (rid ≠ 0 ∧ rid ≤ m.rowCount .customAttribute) ∧
      ∃ row, m.customAttributes.row rid = .ok row ∧ row.parent.token = p
  /-- every row of the table is in a list, and in no other -/
  exists_unique : ∀ rid, rid ≠ 0 → rid ≤ m.rowCount .customAttribute →
    ∃ p, rid ∈ m.customAttributeRids p ∧ ∀ q, rid ∈ m.customAttributeRids q → q = p
  /-- the list of a row that attributes can point at is told by the parent columns -/
  column : ∀ k t, CodedIndex.Kind.target? .hasCustomAttribute k = some t → ∀ n ≤ maxRow,
    m.customAttributeRids (Token.ofParts t n) = (Table.rowNumbers (info.rows .customAttribute)).filter
      fun rid => (CustomAttributeRow.parentColumn info attributes rid).toNat = n.toNat <<< 5 ||| k
  /-- different parents share no row -/
  disjoint : ∀ t n t' n', n ≤ maxRow → n' ≤ maxRow → (t, n) ≠ (t', n') →
    ∀ rid ∈ m.customAttributeRids (Token.ofParts t n), rid ∉ m.customAttributeRids (Token.ofParts t' n')

theorem customAttributeRids_eq_filterMap {rows : List CustomAttributeRow}
    (h : m.attributeParents = rows.map fun row => (row.parent.token, row.rid)) (p : Token) :
    m.customAttributeRids p = rows.filterMap (ParentIndex.ridUnder p) := by
  rw [customAttributeRids, h, List.filterMap_map]
  rfl

theorem customAttributeRids_eq_filter (h : ofBytes info impls attributes heap types = .ok m) (p : Token) :
    m.customAttributeRids p = (Table.rowNumbers m.customAttributes.rowCount).filter
      fun rid => (m.customAttributes.row? rid).any fun row => row.parent.token = p := by
  obtain ⟨-, -, -, rows, -, hrows, hparents⟩ := attributeParents_of_ofBytes h
  rw [customAttributeRids_eq_filterMap hparents]
  refine Table.filterMap_of_map_ok hrows fun number row hrow => ?_
  rw [ParentIndex.ridUnder, (CustomAttributeRow.parent_of_row hrow).1,
    Table.row?_eq_some_iff.mpr hrow, Option.any_some]
  by_cases hp : row.parent.token = p
  · rw [if_pos hp, if_pos (decide_eq_true hp)]
  · rw [if_neg hp, if_neg fun hd => hp (of_decide_eq_true hd)]

theorem mem_customAttributeRids_iff (h : ofBytes info impls attributes heap types = .ok m) {p : Token}
    {rid : UInt32} : rid ∈ m.customAttributeRids p ↔
      (rid ≠ 0 ∧ rid ≤ m.rowCount .customAttribute) ∧
        ∃ row, m.customAttributes.row rid = .ok row ∧ row.parent.token = p := by
  rw [customAttributeRids_eq_filter h, List.mem_filter, Table.mem_rowNumbers, Option.any_eq_true]
  refine and_congr_right fun _ => exists_congr fun row => ?_
  rw [Table.row?_eq_some_iff, decide_eq_true_eq]

theorem exists_row (h : ofBytes info impls attributes heap types = .ok m) {rid : UInt32} (h0 : rid ≠ 0)
    (hle : rid ≤ m.customAttributes.rowCount) : ∃ row, m.customAttributes.row rid = .ok row := by
  obtain ⟨-, -, -, rows, -, hrows, -⟩ := attributeParents_of_ofBytes h
  have hmem := List.mem_map_of_mem (f := m.customAttributes.row) (Table.mem_rowNumbers.mpr ⟨h0, hle⟩)
  rw [hrows, List.mem_map] at hmem
  obtain ⟨row, -, hrow⟩ := hmem
  exact ⟨row, hrow.symm⟩

theorem customAttributeRids_ofParts (h : ofBytes info impls attributes heap types = .ok m) {k : Nat}
    {t : TableId} (hk : CodedIndex.Kind.target? .hasCustomAttribute k = some t) {n : UInt32}
    (hn : n ≤ maxRow) : m.customAttributeRids (Token.ofParts t n) =
      (Table.rowNumbers (info.rows .customAttribute)).filter fun rid =>
        (CustomAttributeRow.parentColumn info attributes rid).toNat = n.toNat <<< 5 ||| k := by
  have hlt : n.toNat <<< 5 ||| k < UInt32.size :=
    Nat.lt_trans (CodedIndex.shiftLeft_or_lt hk (b := 24) (Nat.lt_succ_of_le hn)) (by decide)
  have hvalue : (UInt32.ofNat (n.toNat <<< 5 ||| k)).toNat = n.toNat <<< 5 ||| k :=
    UInt32.toNat_ofNat_of_lt' hlt
  rw [customAttributeRids_eq h, Token.row_ofParts_of_le t hn, CodedIndex.encode?_eq_shiftLeft hk hn,
    CustomAttributeRow.attachedRids]
  refine List.filter_congr fun rid _ => decide_eq_decide.mpr ?_
  rw [Option.some.injEq, ← UInt32.toNat_inj]
  exact ⟨fun he => he.trans hvalue, fun he => he.trans hvalue.symm⟩

/-- **Parents.**  The lists that an image answers for tokens part its attribute table. -/
theorem partition_of_ofBytes (h : ofBytes info impls attributes heap types = .ok m) :
    PartsAttributes info attributes m := by
  have hunique : ∀ {p q : Token} {rid : UInt32}, rid ∈ m.customAttributeRids p →
      rid ∈ m.customAttributeRids q → q = p := by
    intro p q rid hp hq
    obtain ⟨-, row, hrow, rfl⟩ := (mem_customAttributeRids_iff h).mp hp
    obtain ⟨-, row', hrow', rfl⟩ := (mem_customAttributeRids_iff h).mp hq
    cases hrow.symm.trans hrow'
    rfl
  refine ⟨fun _ => rfl, ?_, fun p => ?_, fun p rid => mem_customAttributeRids_iff h, ?_,
    fun k t hk n hn => customAttributeRids_ofParts h hk hn, ?_⟩
  · obtain ⟨-, -, -, rows, hall, -, hparents⟩ := attributeParents_of_ofBytes h
    obtain ⟨index, hindex, hrids⟩ := ParentIndex.indexRows_eq rows ∅
    refine ⟨index, hall ▸ hindex, fun p => ?_⟩
    rw [customAttributeRids_eq_filterMap hparents, hrids, ParentIndex.rids_empty, List.nil_append]
  · rw [customAttributeRids_eq_filter h]
    exact (Table.pairwise_rowNumbers _).filter _
  · intro rid h0 hle
    obtain ⟨row, hrow⟩ := exists_row h h0 hle
    have hmem := (mem_customAttributeRids_iff h).mpr ⟨⟨h0, hle⟩, row, hrow, rfl⟩
    exact ⟨row.parent.token, hmem, fun q hq => hunique hmem hq⟩
  · intro t n t' n' hn hn' hne rid hrid hrid'
    have htoken := hunique hrid' hrid
    have htable := congrArg Token.tableId? htoken
    have hrow := congrArg Token.row htoken
    rw [Token.tableId?_ofParts, Token.tableId?_ofParts, Option.some.injEq] at htable
    rw [Token.row_ofParts_of_le t hn, Token.row_ofParts_of_le t' hn'] at hrow
    exact hne (by rw [htable, hrow])

/-- Three attributes, two of them of the same parent. -/
theorem partition_of_ofBytes_pair :
    ∃ m, ofBytes (.ofList [(.interfaceImpl, 1), (.customAttribute, 3)] false) [0, 0, 0, 0]
        [0x25, 0, 0x0B, 0, 0, 0, 0x23, 0, 0x0B, 0, 0, 0, 0x25, 0, 0x0A, 0, 0, 0] [0] (.ofList []) = .ok m ∧
      m.customAttributeRids (Token.ofParts .interfaceImpl 1) = [1, 3] ∧
      (2 : UInt32) ∈ m.customAttributeRids (Token.ofParts .typeDef 1) := by
  have hok : ∃ m, ofBytes (.ofList [(.interfaceImpl, 1), (.customAttribute, 3)] false) [0, 0, 0, 0]
      [0x25, 0, 0x0B, 0, 0, 0, 0x23, 0, 0x0B, 0, 0, 0, 0x25, 0, 0x0A, 0, 0, 0] [0] (.ofList []) = .ok m :=
    ⟨_, rfl⟩
  obtain ⟨m, hm⟩ := hok
  have hcolumn := (partition_of_ofBytes hm).column
  refine ⟨m, hm, ?_, ?_⟩
  · rw [hcolumn 5 .interfaceImpl rfl 1 (by decide)]
    decide
  · rw [hcolumn 3 .typeDef rfl 1 (by decide)]
    decide

end ModuleImage

end CilMetadata

import CilMetadata.Token

/-!
# How tokens are packed

A token is the number of a table above 24 bits that are left for a row.  Nothing of either is lost, and
the parts are compared from the table down, so tokens can stand for rows wherever rows are looked up or
listed in order.

* `ofParts_eq_or`, `tableByte_eq_shiftRight`, `row_eq_and`: tokens and their parts, by their bits;
* `lt_iff`, `ofParts_lt_iff`: the order of tokens is the order of their parts;
* `packing`: how tokens and rows of tables determine each other.
-/

namespace CilMetadata

theorem TableId.ofNumber?_eq_none_iff {n : Nat} : ofNumber? n = none ↔ 0x2D ≤ n :=
  List.getElem?_eq_none_iff

namespace Token

variable {k k' : Token} {t t' : TableId} {rid rid' : UInt32}

/-! ### Bits -/

theorem toNat_and_rowMask (v : UInt32) : (v &&& 0xFFFFFF).toNat = v.toNat % 0x1000000 := by
  rw [UInt32.toNat_and]
  exact Nat.and_two_pow_sub_one_eq_mod v.toNat 24

/-- A token is the number of its table above the lowest 24 bits of a row. -/
theorem ofParts_eq_or (t : TableId) (rid : UInt32) :
    (ofParts t rid).value = UInt32.ofNat t.number <<< 24 ||| (rid &&& 0xFFFFFF) := by
  have htable : (UInt32.ofNat t.number <<< 24).toNat = t.number <<< 24 := by
    cases t <;> rfl
  have hrow : rid.toNat % 0x1000000 < 2 ^ 24 := Nat.mod_lt _ (by decide)
  apply UInt32.toNat_inj.mp
  rw [UInt32.toNat_or, htable, toNat_and_rowMask, ← Nat.shiftLeft_add_eq_or_of_lt hrow,
    Nat.shiftLeft_eq, toNat_ofParts]

theorem tableByte_eq_shiftRight (k : Token) : k.tableByte = (k.value >>> 24).toUInt8 := by
  have hvalue : k.value.toNat / 2 ^ 24 < 2 ^ 8 := Nat.div_lt_of_lt_mul k.value.toNat_lt
  have hbits : (24 : UInt32).toNat % 32 = 24 := rfl
  apply UInt8.toNat_inj.mp
  rw [toNat_tableByte, UInt32.toNat_toUInt8, UInt32.toNat_shiftRight, hbits, Nat.shiftRight_eq_div_pow]
  exact (Nat.mod_eq_of_lt hvalue).symm

theorem row_eq_and (k : Token) : k.row = k.value &&& 0xFFFFFF := by
  apply UInt32.toNat_inj.mp
  rw [toNat_row, toNat_and_rowMask]

/-! ### Parts -/

theorem toNat_eq (k : Token) : k.value.toNat = k.tableByte.toNat * 0x1000000 + k.row.toNat := by
  rw [toNat_tableByte, toNat_row]
  omega

theorem toNat_row_lt (k : Token) : k.row.toNat < 0x1000000 := by
  rw [toNat_row]
  exact Nat.mod_lt _ (by decide)

theorem eq_iff : k = k' ↔ k.tableByte = k'.tableByte ∧ k.row = k'.row := by
  constructor
  · rintro rfl
    exact ⟨rfl, rfl⟩
  · rintro ⟨htable, hrow⟩
    have hvalue : k.value = k'.value := by
      apply UInt32.toNat_inj.mp
      rw [toNat_eq, htable, hrow, ← toNat_eq]
    cases k
    exact congrArg mk hvalue

/-- **Order.**  Tokens are compared by their tables, and by their rows in one table. -/
theorem lt_iff : k < k' ↔ k.tableByte < k'.tableByte ∨ k.tableByte = k'.tableByte ∧ k.row < k'.row := by
  have hlt : k < k' ↔ k.value.toNat < k'.value.toNat := UInt32.lt_iff_toNat_lt
  have hrow := toNat_row_lt k
  have hrow' := toNat_row_lt k'
  rw [hlt, toNat_eq, toNat_eq k', UInt8.lt_iff_toNat_lt, UInt32.lt_iff_toNat_lt, ← UInt8.toNat_inj]
  omega

theorem le_iff : k ≤ k' ↔ k.tableByte < k'.tableByte ∨ k.tableByte = k'.tableByte ∧ k.row ≤ k'.row := by
  have hle : k ≤ k' ↔ k.value.toNat ≤ k'.value.toNat := UInt32.le_iff_toNat_le
  have hrow := toNat_row_lt k
  have hrow' := toNat_row_lt k'
  rw [hle, toNat_eq, toNat_eq k', UInt8.lt_iff_toNat_lt, UInt32.le_iff_toNat_le, ← UInt8.toNat_inj]
  omega

/-! ### Rows of tables -/

theorem tableByte_ofParts_lt : (ofParts t rid).tableByte < (ofParts t' rid').tableByte ↔
    t.number < t'.number := by
  rw [UInt8.lt_iff_toNat_lt, toNat_tableByte_ofParts, toNat_tableByte_ofParts]

theorem tableByte_ofParts_eq : (ofParts t rid).tableByte = (ofParts t' rid').tableByte ↔ t = t' := by
  rw [← UInt8.toNat_inj, toNat_tableByte_ofParts, toNat_tableByte_ofParts]
  exact ⟨TableId.number_injective, fun h => h ▸ rfl⟩

theorem ofParts_inj (h : rid ≤ maxRow) (h' : rid' ≤ maxRow) :
    ofParts t rid = ofParts t' rid' ↔ t = t' ∧ rid = rid' := by
  rw [eq_iff, tableByte_ofParts_eq, row_ofParts_of_le t h, row_ofParts_of_le t' h']

theorem ofParts_lt_iff (h : rid ≤ maxRow) (h' : rid' ≤ maxRow) :
    ofParts t rid < ofParts t' rid' ↔ t.number < t'.number ∨ t = t' ∧ rid < rid' := by
  rw [lt_iff, tableByte_ofParts_lt, tableByte_ofParts_eq, row_ofParts_of_le t h, row_ofParts_of_le t' h']

/-! ### Texts -/

theorem toList_text (k : Token) :
    k.text.toList = '0' :: 'x' :: Text.Hex.digits .lower 8 k.value.toNat := by
  have hdigits : Text.Hex.lower 8 k.value.toNat = _ :=
    Text.Hex.text_eq_of_lt .lower (by decide) k.value.toNat_lt
  rw [text, String.toList_append, hdigits]
  exact congrArg (['0', 'x'] ++ ·) String.toList_ofList

theorem length_text (k : Token) : k.text.length = 10 := by
  rw [← String.length_toList, toList_text, List.length_cons, List.length_cons, Text.Hex.length_digits]

/-- A token can be read back from its text. -/
theorem value_text (k : Token) : Text.Hex.value (k.text.toList.drop 2) = k.value.toNat := by
  have hvalue : k.value.toNat < 16 ^ 8 := k.value.toNat_lt
  rw [toList_text, List.drop_succ_cons, List.drop_succ_cons, List.drop_zero, Text.Hex.value_digits,
    Nat.mod_eq_of_lt hvalue]

theorem text_inj : k.text = k'.text ↔ k = k' := by
  constructor
  · intro h
    have hvalue : k.value.toNat = k'.value.toNat := by rw [← value_text, h, value_text]
    cases k
    exact congrArg mk (UInt32.toNat_inj.mp hvalue)
  · exact congrArg text

/-! ### Packing -/

/-- How a row of a table is packed. -/
structure Packs (t : TableId) (rid : UInt32) : Prop where
  value_eq : (ofParts t rid).value = UInt32.ofNat t.number <<< 24 ||| (rid &&& 0xFFFFFF)
  tableId?_eq : (ofParts t rid).tableId? = some t
  toNat_row_eq : (ofParts t rid).row.toNat = rid.toNat % 0x1000000

/-- How a token is taken apart. -/
structure Unpacks (k : Token) : Prop where
  tableByte_eq : k.tableByte = (k.value >>> 24).toUInt8
  row_eq : k.row = k.value &&& 0xFFFFFF
  /-- a token with an assigned table byte is made from its parts -/
  assigned : ∀ t : TableId, t.number = k.tableByte.toNat → k.tableId? = some t ∧ ofParts t k.row = k
  unassigned : k.tableId? = none ↔ ∀ t : TableId, t.number ≠ k.tableByte.toNat
  unassigned_iff_le : k.tableId? = none ↔ 0x2D ≤ k.tableByte.toNat

theorem packs (t : TableId) (rid : UInt32) : Packs t rid where
  value_eq := ofParts_eq_or t rid
  tableId?_eq := tableId?_ofParts t rid
  toNat_row_eq := by rw [row_ofParts, UInt32.toNat_mod]; rfl

theorem unpacks (k : Token) : Unpacks k where
  tableByte_eq := tableByte_eq_shiftRight k
  row_eq := row_eq_and k
  assigned t ht := by
    have htable : k.tableId? = some t := TableId.ofNumber?_eq_some_iff.mpr ht
    exact ⟨htable, ofParts_tableId_row htable⟩
  unassigned := by
    have hassigned : ∀ t, k.tableId? = some t ↔ t.number = k.tableByte.toNat := fun t =>
      TableId.ofNumber?_eq_some_iff
    rw [Option.eq_none_iff_forall_ne_some]
    exact forall_congr' fun t => not_congr (hassigned t)
  unassigned_iff_le := TableId.ofNumber?_eq_none_iff

/-- **Packing.**  A token is packed from a table and the lowest 24 bits of a row, and gives back both; a
token whose table byte is assigned is packed from its own parts.  Tokens are ordered as their parts are,
from the table down, and told apart by texts of one length.  So rows that fit have tokens of their own,
in the order of the rows. -/
theorem packing :
    (∀ t rid, Packs t rid) ∧ (∀ k, Unpacks k) ∧
    (∀ k k' : Token,
      (k < k' ↔ k.tableByte < k'.tableByte ∨ k.tableByte = k'.tableByte ∧ k.row < k'.row) ∧
      (k ≤ k' ↔ k.tableByte < k'.tableByte ∨ k.tableByte = k'.tableByte ∧ k.row ≤ k'.row) ∧
      k.text.length = 10 ∧ (k.text = k'.text ↔ k = k')) ∧
    ∀ (t t' : TableId) (rid rid' : UInt32), rid ≤ maxRow → rid' ≤ maxRow →
      (ofParts t rid = ofParts t' rid' ↔ t = t' ∧ rid = rid') ∧
      (ofParts t rid < ofParts t' rid' ↔ t.number < t'.number ∨ t = t' ∧ rid < rid') := by
  refine ⟨packs, unpacks, fun k k' => ⟨lt_iff, le_iff, length_text k, text_inj⟩, ?_⟩
  intro t t' rid rid' h h'
  exact ⟨ofParts_inj h h', ofParts_lt_iff h h'⟩

/-- The last row that fits comes right before the rows of the next table. -/
theorem packing_lastRow :
    (maxRow ≤ maxRow ∧ (1 : UInt32) ≤ maxRow) ∧
      ofParts .typeRef maxRow ≠ ofParts .typeDef 1 ∧
      ofParts .typeRef maxRow < ofParts .typeDef 1 ∧ ofParts .interfaceImpl 0x2A = ⟨0x0900002A⟩ := by
  have hlast : maxRow ≤ maxRow := by decide
  have hfirst : (1 : UInt32) ≤ maxRow := by decide
  obtain ⟨heq, hlt⟩ := packing.2.2.2 .typeRef .typeDef maxRow 1 hlast hfirst
  have htoken := (packing.2.1 ⟨0x0900002A⟩).assigned .interfaceImpl (by decide)
  have hne : ofParts .typeRef maxRow ≠ ofParts .typeDef 1 := fun h => nomatch (heq.mp h).1
  exact ⟨⟨hlast, hfirst⟩, hne, hlt.mpr (.inl (by decide)), htoken.2⟩

end Token
end CilMetadata

import CilMetadata.ModuleImage
import CilMetadata.Proofs.InterfaceImpl.TypeField
import CilMetadata.Proofs.Table.Access

/-!
# The columns of a row and where they lead

A row of the `InterfaceImpl` table of a module image is spelled by the bytes of the table: first the
class column, then the interface column, each as wide as the row counts of the module call for.

* `row_eq`: the row of a number, by its two columns;
* `ask_eq`: what the image tells of the columns;
* `stored_of_lead`: a type that a column leads to is the one stored in it.
-/

namespace CilMetadata

namespace InterfaceImplRow

def classColumn (info : TableInfo) (data : List UInt8) (rid : UInt32) : Nat :=
  Bytes.number ((data.drop ((rid.toNat - 1) * Row.size InterfaceImplRow info)).take
    (info.indexBytes .typeDef))

def interfaceColumn (info : TableInfo) (data : List UInt8) (rid : UInt32) : Nat :=
  Bytes.number ((data.drop ((rid.toNat - 1) * Row.size InterfaceImplRow info +
    info.indexBytes .typeDef)).take (info.codedBytes .typeDefOrRef))

theorem classColumn_lt (info : TableInfo) (data : List UInt8) (rid : UInt32) :
    classColumn info data rid < 0x100000000 := by
  have hlen : ((data.drop ((rid.toNat - 1) * Row.size InterfaceImplRow info)).take
      (info.indexBytes .typeDef)).length ≤ 4 := by
    have hw := info.indexBytes_eq .typeDef
    rw [List.length_take]
    split at hw <;> omega
  calc classColumn info data rid < 256 ^ _ := Bytes.number_lt _
    _ ≤ 256 ^ 4 := Nat.pow_le_pow_right (by omega) hlen
    _ = 0x100000000 := rfl

theorem run_read {info : TableInfo} {rid : UInt32} {data : List UInt8} {offset : Nat}
    (h : offset + Row.size InterfaceImplRow info ≤ data.length) :
    ((InterfaceImplRow.read info rid).run data offset).1 =
      (CodedIndex.decode .typeDefOrRef (UInt32.ofNat (Bytes.number
        ((data.drop (offset + info.indexBytes .typeDef)).take (info.codedBytes .typeDefOrRef))))).map
      fun i => ⟨rid, offset,
        UInt32.ofNat (Bytes.number ((data.drop offset).take (info.indexBytes .typeDef))), i⟩ := by
  have hsize : Row.size InterfaceImplRow info = info.indexBytes .typeDef + info.codedBytes .typeDefOrRef :=
    rfl
  have hfits : offset + info.indexBytes .typeDef ≤ data.length := by omega
  have hclass := Bytes.Reader.column_eq_ok (info.indexBytes_eq .typeDef) hfits
  rw [InterfaceImplRow.read, Bytes.Reader.run_bind_ok (Bytes.Reader.run_position data offset),
    Bytes.Reader.run_bind_ok hclass, Bytes.Reader.run_bind, CodedIndex.read_eq (by omega)]
  cases CodedIndex.decode .typeDefOrRef _ <;> rfl

/-- **Rows.**  The row of a number is spelled by its columns; if its interface column does not
decode, there is no row. -/
theorem row_eq {t : Table InterfaceImplRow} {rid : UInt32} (h0 : rid ≠ 0) (h : rid ≤ t.rowCount) :
    t.row rid =
      (CodedIndex.decode .typeDefOrRef (UInt32.ofNat (interfaceColumn t.info t.data rid))).map
        fun i => ⟨rid, (rid.toNat - 1) * Row.size InterfaceImplRow t.info,
          UInt32.ofNat (classColumn t.info t.data rid), i⟩ := by
  rw [Table.row_of_le h0 h]
  exact run_read (Table.place_add_le h0 h)

end InterfaceImplRow

/-! ### Where columns lead -/

theorem Table.parts_of_ofBytes {ρ : Type} [Row ρ] {info : TableInfo}
    {data : List UInt8} {rowCount : UInt32} {t : Table ρ}
    (h : Table.ofBytes info data rowCount = .ok t) :
    t.info = info ∧ t.data = data ∧ t.rowCount = rowCount := by
  unfold Table.ofBytes at h
  split at h
  · cases h
    exact ⟨rfl, rfl, rfl⟩
  · cases h

namespace ModuleImage

theorem tables_of_ofBytes {info : TableInfo} {impls attributes heap : List UInt8} {types : TypeRegistry}
    {m : ModuleImage} (h : ofBytes info impls attributes heap types = .ok m) :
    m.interfaceImpls.info = info ∧ m.interfaceImpls.data = impls ∧
      m.interfaceImpls.rowCount = info.rows .interfaceImpl := by
  obtain ⟨_, -, h⟩ := Error.exists_of_bind_ok h
  obtain ⟨_, himpls, h⟩ := Error.exists_of_bind_ok h
  obtain ⟨_, -, h⟩ := Error.exists_of_bind_ok h
  obtain ⟨_, -, h⟩ := Error.exists_of_bind_ok h
  cases h
  exact Table.parts_of_ofBytes himpls

end ModuleImage

def TypeRegistry.lookup (types : TypeRegistry) (k : Token) : Except Error (Option CilType) :=
  match types.get? k with
  | some t => .ok (some t)
  | none => .error (.typeNotFound k)

theorem TypeRegistry.token_of_lookup {types : TypeRegistry} {k : Token} {t : CilType}
    (h : types.lookup k = .ok (some t)) : t.token = k := by
  unfold lookup at h
  split at h
  · rename_i u hu
    cases h
    exact token_of_get? hu
  · cases h

namespace TypeField

/-- What the field of a row leads to in front of a registry, from the number in the class column and
the index in the interface column. -/
def lead (types : TypeRegistry) (c : Nat) (i : CodedIndex) : TypeField → Except Error (Option CilType)
  | .classType =>
    if c = 0 then .ok none
    else if 0xFFFFFF < c then
      .error (.resolution (Token.ofParts .typeDef (UInt32.ofNat c)) (.typeDefTooLarge (UInt32.ofNat c)))
    else types.lookup ⟨UInt32.ofNat (0x02000000 + c)⟩
  | .interfaceType => if i.row = 0 then .ok none else types.lookup (Token.ofParts i.tag i.row)

/-- The table and the row that are stored in the column of a field. -/
def stored (c : Nat) (i : CodedIndex) : TypeField → TableId × Nat
  | .classType => (.typeDef, c)
  | .interfaceType => (i.tag, i.row.toNat)

/-- An index that was decoded points at a row that fits into a token, of a table of its kind. -/
theorem bounds_of_decode {v : UInt32} {i : CodedIndex}
    (h : CodedIndex.decode .typeDefOrRef v = .ok i) :
    ¬ maxRow < i.row ∧ (i.tag = .typeDef ∨ i.tag = .typeRef ∨ i.tag = .typeSpec) := by
  have he := CodedIndex.decode_eq_ok_iff.mp h
  unfold CodedIndex.encode? at he
  split at he
  · cases he
  · rename_i hrow
    obtain ⟨n, hn, -⟩ := Option.map_eq_some_iff.mp he
    have ht := CodedIndex.Kind.target?_eq_some_iff.mpr hn
    have hlt : n < 3 := CodedIndex.Kind.target?_lt ht
    refine ⟨hrow, ?_⟩
    obtain rfl | rfl | rfl : n = 0 ∨ n = 1 ∨ n = 2 := by omega
    · exact .inl (Option.some.inj ht).symm
    · exact .inr (.inl (Option.some.inj ht).symm)
    · exact .inr (.inr (Option.some.inj ht).symm)

theorem ofParts_typeDef {c : Nat} (hc : c ≤ 0xFFFFFF) :
    Token.ofParts .typeDef (UInt32.ofNat c) = ⟨UInt32.ofNat (0x02000000 + c)⟩ := by
  have hv : (Token.ofParts .typeDef (UInt32.ofNat c)).value = UInt32.ofNat (0x02000000 + c) := by
    apply UInt32.toNat_inj.mp
    rw [Token.toNat_ofParts, UInt32.toNat_ofNat', UInt32.toNat_ofNat']
    have hn : TableId.typeDef.number = 2 := rfl
    omega
  exact congrArg Token.mk hv

/-- What an image tells a field is what the columns of the row lead to. -/
theorem ask_eq {m : ModuleImage} {c : Nat} (hc : c < 0x100000000) {v : UInt32} {i : CodedIndex}
    (hi : CodedIndex.decode .typeDefOrRef v = .ok i) (f : TypeField) (rid : UInt32) (offset : Nat) :
    (f.ask ⟨rid, offset, UInt32.ofNat c, i⟩ m).1 = f.lead m.types c i := by
  have hn : (UInt32.ofNat c).toNat = c := UInt32.toNat_ofNat_of_lt' hc
  cases f with
  | classType =>
    show m.resolveTypeDef (UInt32.ofNat c) = lead m.types c i .classType
    have hzero : UInt32.ofNat c = 0 ↔ c = 0 := by
      rw [← UInt32.toNat_inj, hn]
      rfl
    have hmax : maxRow < UInt32.ofNat c ↔ 0xFFFFFF < c := by
      rw [UInt32.lt_iff_toNat_lt, hn]
      rfl
    simp only [ModuleImage.resolveTypeDef, lead, hzero, hmax]
    split
    · rfl
    · split
      · rfl
      · rename_i hle
        rw [ofParts_typeDef (Nat.not_lt.mp hle)]
        rfl
  | interfaceType =>
    show m.resolveTypeDefOrRef i = lead m.types c i .interfaceType
    obtain ⟨hrow, htag⟩ := bounds_of_decode hi
    simp only [ModuleImage.resolveTypeDefOrRef, lead, CodedIndex.isNull, decide_eq_true_eq, if_neg hrow]
    split
    · rfl
    · rcases htag with htag | htag | htag <;> rw [htag] <;> simp only [CodedIndex.token, htag] <;> rfl

/-- A type that a field leads to is the one that is stored in its column. -/
theorem stored_of_lead {types : TypeRegistry} {c : Nat} {v : UInt32} {i : CodedIndex}
    (hi : CodedIndex.decode .typeDefOrRef v = .ok i) {f : TypeField} {t : CilType}
    (h : f.lead types c i = .ok (some t)) :
    t.token.tableId? = some (f.stored c i).1 ∧ t.token.row.toNat = (f.stored c i).2 := by
  cases f with
  | classType =>
    simp only [lead] at h
    split at h
    · cases h
    · split at h
      · cases h
      · rename_i hle
        have hc : c ≤ 0xFFFFFF := Nat.not_lt.mp hle
        rw [← ofParts_typeDef hc] at h
        rw [TypeRegistry.token_of_lookup h, Token.tableId?_ofParts, Token.row_ofParts]
        refine ⟨rfl, ?_⟩
        rw [UInt32.toNat_mod, UInt32.toNat_ofNat']
        show c % 0x100000000 % 0x1000000 = c
        omega
  | interfaceType =>
    simp only [lead] at h
    split at h
    · cases h
    · have hrow : i.row.toNat ≤ 0xFFFFFF :=
        UInt32.le_iff_toNat_le.mp (UInt32.not_lt.mp (bounds_of_decode hi).1)
      rw [TypeRegistry.token_of_lookup h, Token.tableId?_ofParts, Token.row_ofParts]
      refine ⟨rfl, ?_⟩
      rw [UInt32.toNat_mod]
      show i.row.toNat % 0x1000000 = i.row.toNat
      omega

end TypeField

end CilMetadata

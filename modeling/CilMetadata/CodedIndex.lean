import CilMetadata.Error

/-!
# Coded indexes

A coded index names a table among the candidates of its kind and a row of that table.  The stored
value holds the tag in its lowest bits and the row above them.

* `decode_eq_ok_iff`: a value decodes to exactly the index that encodes to it.
-/

namespace CilMetadata

/-- A table and a row of it; row 0 is no row. -/
structure CodedIndex where
  tag : TableId
  row : UInt32
  deriving DecidableEq, Repr

namespace CodedIndex

/-- The token that an index points at; a row that does not fit keeps its lowest 24 bits.  It is not
stored: whatever makes an index makes its token of the table and the row. -/
def token (i : CodedIndex) : Token := Token.ofParts i.tag i.row

def isNull (i : CodedIndex) : Bool := i.row = 0

/-- The index that a stored value stands for.  The row is checked before the tag. -/
def decode (kind : Kind) (value : UInt32) : Except Error CodedIndex :=
  let tag := value % kind.tagCount
  let row := value / kind.tagCount
  if maxRow < row then .error (.malformed (.rowTooLarge row kind value))
  else match kind.target? tag.toNat with
    | some table => .ok ⟨table, row⟩
    | none => .error (.malformed (.invalidTag tag kind value))

/-- The stored value of an index, if the kind can point at the table and the row fits. -/
def encode? (kind : Kind) (i : CodedIndex) : Option UInt32 :=
  if maxRow < i.row then none
  else (kind.tagOf? i.tag).map fun tag => i.row * kind.tagCount + UInt32.ofNat tag

/-! ### Laws -/

theorem tagOf?_lt {kind : Kind} {t : TableId} {n : Nat} (h : kind.tagOf? t = some n) :
    n < kind.tagCount.toNat := by
  rw [Kind.toNat_tagCount]
  exact Nat.lt_of_lt_of_le (Kind.target?_lt (Kind.target?_eq_some_iff.mpr h)) kind.targets_length_le

theorem tagCount_bounds (kind : Kind) : 0 < kind.tagCount.toNat ∧ kind.tagCount.toNat ≤ 32 := by
  cases kind <;> decide

theorem toNat_value {kind : Kind} {row : UInt32} {n : Nat} (hr : ¬ maxRow < row)
    (hn : n < kind.tagCount.toNat) :
    (row * kind.tagCount + UInt32.ofNat n).toNat = row.toNat * kind.tagCount.toNat + n := by
  have hc := tagCount_bounds kind
  have hrow : row.toNat ≤ 0xFFFFFF := UInt32.le_iff_toNat_le.mp (UInt32.not_lt.mp hr)
  have hmul : row.toNat * kind.tagCount.toNat ≤ 0xFFFFFF * 32 := Nat.mul_le_mul hrow hc.2
  rw [UInt32.toNat_add, UInt32.toNat_mul, UInt32.toNat_ofNat']
  omega

theorem decode_of_encode? {kind : Kind} {i : CodedIndex} {v : UInt32}
    (h : encode? kind i = some v) : decode kind v = .ok i := by
  unfold encode? at h
  split at h
  · cases h
  · rename_i hr
    obtain ⟨n, hn, rfl⟩ := Option.map_eq_some_iff.mp h
    have hlt := tagOf?_lt hn
    have hc := (tagCount_bounds kind).1
    have hv := toNat_value hr hlt
    have hrow : (i.row * kind.tagCount + UInt32.ofNat n) / kind.tagCount = i.row := by
      apply UInt32.toNat_inj.mp
      rw [UInt32.toNat_div, hv, Nat.add_comm, Nat.add_mul_div_right _ _ hc, Nat.div_eq_of_lt hlt,
        Nat.zero_add]
    have htag : ((i.row * kind.tagCount + UInt32.ofNat n) % kind.tagCount).toNat = n := by
      rw [UInt32.toNat_mod, hv, Nat.add_comm, Nat.add_mul_mod_self_right, Nat.mod_eq_of_lt hlt]
    simp only [decode, hrow, htag, if_neg hr, Kind.target?_eq_some_iff.mpr hn]

theorem encode?_of_decode {kind : Kind} {i : CodedIndex} {v : UInt32}
    (h : decode kind v = .ok i) : encode? kind i = some v := by
  simp only [decode] at h
  split at h
  · cases h
  · rename_i hr
    split at h
    · rename_i table ht
      cases h
      have hn := Kind.target?_eq_some_iff.mp ht
      simp only [encode?, if_neg hr, hn, Option.map_some, Option.some.injEq]
      apply UInt32.toNat_inj.mp
      rw [toNat_value hr (tagOf?_lt hn), UInt32.toNat_div, UInt32.toNat_mod]
      exact Nat.div_add_mod' _ _
    · cases h

/-- **Coding.**  A value decodes to exactly the index that encodes to it. -/
theorem decode_eq_ok_iff {kind : Kind} {i : CodedIndex} {v : UInt32} :
    decode kind v = .ok i ↔ encode? kind i = some v :=
  ⟨encode?_of_decode, decode_of_encode?⟩

end CodedIndex
end CilMetadata

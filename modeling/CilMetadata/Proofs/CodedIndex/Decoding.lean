import CilMetadata.Proofs.CodedIndex.Width

/-!
# Decoding coded indexes

A stored value is a row above a tag.  It is accepted exactly if its row fits into a token and its tag
is assigned, and then nothing of it is lost: the values that a kind accepts and the rows of its targets
that a token can address determine each other, and so do the tokens.

* `decode_cases`: what a value decodes to, by its bits;
* `decode_target_iff`: the one value of a row of a target;
* `decode_bijective`: decoding is a bijection onto the rows of the targets.
-/

namespace CilMetadata.CodedIndex

-- the powers of the core library, also where another instance is in scope
attribute [local instance (2000)] instPowNat

variable {kind : Kind} {v : UInt32} {i : CodedIndex}

/-! ### The bits of a stored value -/

/-- The bits of a stored value above its tag. -/
def rowPart (kind : Kind) (v : UInt32) : UInt32 := v >>> UInt32.ofNat kind.tagBits

/-- The lowest bits of a stored value, which hold its tag. -/
def tagPart (kind : Kind) (v : UInt32) : UInt32 := v &&& (1 <<< UInt32.ofNat kind.tagBits - 1)

theorem toNat_rowPart (kind : Kind) (v : UInt32) :
    (rowPart kind v).toNat = v.toNat >>> kind.tagBits := by
  have hbits : (UInt32.ofNat kind.tagBits).toNat % 32 = kind.tagBits := by cases kind <;> rfl
  rw [rowPart, UInt32.toNat_shiftRight, hbits]

theorem toNat_tagPart (kind : Kind) (v : UInt32) :
    (tagPart kind v).toNat = v.toNat % 2 ^ kind.tagBits := by
  have hmask : (1 <<< UInt32.ofNat kind.tagBits - 1 : UInt32).toNat = 2 ^ kind.tagBits - 1 := by
    cases kind <;> rfl
  rw [tagPart, UInt32.toNat_and, hmask, Nat.and_two_pow_sub_one_eq_mod]

theorem div_tagCount (kind : Kind) (v : UInt32) : v / kind.tagCount = rowPart kind v := by
  apply UInt32.toNat_inj.mp
  rw [UInt32.toNat_div, Kind.toNat_tagCount, toNat_rowPart, Nat.shiftRight_eq_div_pow]

theorem mod_tagCount (kind : Kind) (v : UInt32) : v % kind.tagCount = tagPart kind v := by
  apply UInt32.toNat_inj.mp
  rw [UInt32.toNat_mod, Kind.toNat_tagCount, toNat_tagPart]

theorem toNat_eq_shiftLeft_or (kind : Kind) (v : UInt32) :
    v.toNat = (rowPart kind v).toNat <<< kind.tagBits ||| (tagPart kind v).toNat := by
  have htag : (tagPart kind v).toNat < 2 ^ kind.tagBits := by
    rw [toNat_tagPart]
    exact Nat.mod_lt _ (Nat.two_pow_pos _)
  rw [← Nat.shiftLeft_add_eq_or_of_lt htag, Nat.shiftLeft_eq, toNat_rowPart, toNat_tagPart,
    Nat.shiftRight_eq_div_pow, Nat.div_add_mod']

/-! ### What is accepted -/

/-- What a value decodes to, by its bits.  The row is looked at before the tag. -/
theorem decode_cases (kind : Kind) (v : UInt32) :
    (maxRow < rowPart kind v ∧
      decode kind v = .error (.malformed (.rowTooLarge (rowPart kind v) kind v))) ∨
    (rowPart kind v ≤ maxRow ∧ kind.target? (tagPart kind v).toNat = none ∧
      decode kind v = .error (.malformed (.invalidTag (tagPart kind v) kind v))) ∨
    (rowPart kind v ≤ maxRow ∧ ∃ t, kind.target? (tagPart kind v).toNat = some t ∧
      decode kind v = .ok ⟨t, rowPart kind v⟩) := by
  by_cases hrow : maxRow < rowPart kind v
  · refine .inl ⟨hrow, ?_⟩
    simp only [decode, div_tagCount, if_pos hrow]
  · have hle : rowPart kind v ≤ maxRow := UInt32.not_lt.mp hrow
    cases htag : kind.target? (tagPart kind v).toNat with
    | none =>
      refine .inr (.inl ⟨hle, rfl, ?_⟩)
      simp only [decode, div_tagCount, mod_tagCount, if_neg hrow, htag]
    | some t =>
      refine .inr (.inr ⟨hle, t, rfl, ?_⟩)
      simp only [decode, div_tagCount, mod_tagCount, if_neg hrow, htag]

theorem parts_of_decode (h : decode kind v = .ok i) :
    i.row = rowPart kind v ∧ i.row ≤ maxRow ∧ kind.target? (tagPart kind v).toNat = some i.tag := by
  rcases decode_cases kind v with ⟨-, hv⟩ | ⟨-, -, hv⟩ | ⟨hrow, t, htag, hv⟩ <;>
    cases h.symm.trans hv
  exact ⟨rfl, hrow, htag⟩

/-- The token of an index that was decoded has its table and its full row. -/
theorem token_of_decode (h : decode kind v = .ok i) :
    i.token.tableId? = some i.tag ∧ i.token.row = i.row :=
  ⟨Token.tableId?_ofParts i.tag i.row, Token.row_ofParts_of_le i.tag (parts_of_decode h).2.1⟩

theorem eq_of_token_eq {kind' : Kind} {w : UInt32} {j : CodedIndex} (hi : decode kind v = .ok i)
    (hj : decode kind' w = .ok j) (h : i.token = j.token) : i = j := by
  obtain ⟨htable, hrow⟩ := token_of_decode hi
  obtain ⟨htable', hrow'⟩ := token_of_decode hj
  rw [h, htable', Option.some.injEq] at htable
  rw [h, hrow'] at hrow
  cases i
  cases j
  exact (mk.injEq ..).mpr ⟨htable.symm, hrow.symm⟩

theorem eq_of_decode_eq {w : UInt32} (hv : decode kind v = .ok i) (hw : decode kind w = .ok i) : v = w :=
  Option.some.inj ((encode?_of_decode hv).symm.trans (encode?_of_decode hw))

/-- A row of a target that a token can address is what exactly one value decodes to. -/
theorem decode_target_iff {k : Nat} {t : TableId} (hk : kind.target? k = some t) {row : UInt32}
    (hrow : row ≤ maxRow) (w : UInt32) :
    decode kind w = .ok ⟨t, row⟩ ↔ w = UInt32.ofNat (row.toNat <<< kind.tagBits ||| k) := by
  rw [decode_eq_ok_iff, encode?_eq_shiftLeft hk hrow, Option.some.injEq, eq_comm]

theorem Kind.exists_target? {t : TableId} (h : some t ∈ kind.targets) : ∃ k, kind.target? k = some t := by
  obtain ⟨k, hk⟩ := List.mem_iff_getElem?.mp h
  exact ⟨k, Option.join_eq_some_iff.mpr hk⟩

/-! ### The bijection -/

/-- Decoding the values of a kind is a bijection onto the rows of its targets that a token can
address. -/
structure Bijective (kind : Kind) : Prop where
  /-- a value is accepted exactly if its row fits into a token and its tag is assigned -/
  accepts_iff : ∀ v, (∃ i, decode kind v = .ok i) ↔
    rowPart kind v ≤ maxRow ∧ ∃ t, kind.target? (tagPart kind v).toNat = some t
  /-- it is the row it decodes to above the place of the table it decodes to -/
  value_eq : ∀ v i, decode kind v = .ok i → ∃ k, kind.tagOf? i.tag = some k ∧
    v.toNat = i.row.toNat <<< kind.tagBits ||| k
  /-- nothing is lost in the token -/
  token : ∀ v i, decode kind v = .ok i → i.token.tableId? = some i.tag ∧ i.token.row = i.row
  /-- it decodes to a row of a target -/
  mem_targets : ∀ v i, decode kind v = .ok i → some i.tag ∈ kind.targets ∧ i.row ≤ maxRow
  /-- and every row of every target is what exactly one value decodes to -/
  exists_unique : ∀ t, some t ∈ kind.targets → ∀ row ≤ maxRow,
    ∃ v, ∀ w, decode kind w = .ok ⟨t, row⟩ ↔ w = v
  /-- different values have different tokens -/
  token_injective : ∀ v w i j, decode kind v = .ok i → decode kind w = .ok j → i.token = j.token →
    v = w
  /-- a row that does not fit is what the error tells, whatever the tag -/
  rowTooLarge : ∀ v, maxRow < rowPart kind v →
    decode kind v = .error (.malformed (.rowTooLarge (rowPart kind v) kind v))
  /-- a tag that is not assigned is told only of a row that fits -/
  invalidTag : ∀ v, rowPart kind v ≤ maxRow → kind.target? (tagPart kind v).toNat = none →
    decode kind v = .error (.malformed (.invalidTag (tagPart kind v) kind v))

/-- **Decoding.**  For every kind of coded indexes, decoding is a bijection onto the rows of its
targets. -/
theorem decode_bijective (kind : Kind) : Bijective kind where
  accepts_iff v := by
    constructor
    · rintro ⟨i, hi⟩
      obtain ⟨hrow, hle, htag⟩ := parts_of_decode hi
      exact ⟨hrow ▸ hle, i.tag, htag⟩
    · rintro ⟨hle, t, ht⟩
      rcases decode_cases kind v with ⟨hlt, -⟩ | ⟨-, hnone, -⟩ | ⟨-, t', -, hv⟩
      · exact absurd hle (UInt32.not_le.mpr hlt)
      · cases hnone.symm.trans ht
      · exact ⟨_, hv⟩
  value_eq v i hi := by
    obtain ⟨hrow, -, htag⟩ := parts_of_decode hi
    refine ⟨_, Kind.target?_eq_some_iff.mp htag, ?_⟩
    rw [hrow]
    exact toNat_eq_shiftLeft_or kind v
  token _ _ := token_of_decode
  mem_targets v i hi := by
    obtain ⟨-, hle, htag⟩ := parts_of_decode hi
    exact ⟨Kind.target_mem htag, hle⟩
  exists_unique t ht row hrow := by
    obtain ⟨k, hk⟩ := Kind.exists_target? ht
    exact ⟨_, decode_target_iff hk hrow⟩
  token_injective v w i j hi hj h := by
    rw [← eq_of_token_eq hi hj h] at hj
    exact eq_of_decode_eq hi hj
  rowTooLarge v hlt := by
    rcases decode_cases kind v with ⟨-, hv⟩ | ⟨hle, -⟩ | ⟨hle, -⟩
    · exact hv
    · exact absurd hle (UInt32.not_le.mpr hlt)
    · exact absurd hle (UInt32.not_le.mpr hlt)
  invalidTag v hle hnone := by
    rcases decode_cases kind v with ⟨hlt, -⟩ | ⟨-, -, hv⟩ | ⟨-, t, ht, -⟩
    · exact absurd hle (UInt32.not_le.mpr hlt)
    · exact hv
    · cases hnone.symm.trans ht

/-- A reserved tag below a row that does not fit: the row is told. -/
example : decode .customAttributeType 0x08000001 =
    .error (.malformed (.rowTooLarge 0x1000000 .customAttributeType 0x08000001)) := rfl

end CilMetadata.CodedIndex

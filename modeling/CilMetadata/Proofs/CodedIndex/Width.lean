import CilMetadata.Proofs.Bytes.Span

/-!
# The width of a coded index

A column of coded indexes takes two bytes as long as the tag leaves enough of the 16 bits to number
the rows of every table that the kind can point at, and four bytes otherwise.  So the stored value
of every index to a row that is there fits into the column, and reading the column undoes writing.

* `codedBits_le_iff`: when the bits of a coded index fit into two bytes;
* `encode?_eq_shiftLeft`: the stored value as a row above a tag;
* `read_stored`: the width of a column, and what is read where an index was written.
-/

namespace CilMetadata

-- the powers of the core library, also where another instance is in scope
attribute [local instance (2000)] instPowNat

/-! ### Row counts -/

/-- The last count that is listed for a table; a table that is not listed has no rows. -/
def lastCount (counts : List (TableId × UInt32)) (t : TableId) : UInt32 :=
  ((counts.reverse.find? fun entry => entry.1 = t).map Prod.snd).getD 0

theorem foldr_eq_find? (counts : List (TableId × UInt32)) (t : TableId) :
    counts.foldr (fun entry n => if entry.1 = t then entry.2 else n) 0 =
      ((counts.find? fun entry => entry.1 = t).map Prod.snd).getD 0 := by
  induction counts with
  | nil => rfl
  | cons entry counts ih =>
    rw [List.foldr_cons, List.find?_cons]
    by_cases h : entry.1 = t
    · rw [if_pos h, decide_eq_true h]
      rfl
    · rw [if_neg h, decide_eq_false h, ih]

theorem TableInfo.rows_ofList (counts : List (TableId × UInt32)) (largeBlob : Bool) (t : TableId) :
    (ofList counts largeBlob).rows t = lastCount counts t := by
  rw [lastCount, ← foldr_eq_find?, ← List.foldl_eq_foldr_reverse]
  rfl

/-! ### Widths -/

theorem foldl_max_le_iff {α : Type} (f : α → Nat) (xs : List α) (n b : Nat) :
    xs.foldl (fun n x => max n (f x)) n ≤ b ↔ n ≤ b ∧ ∀ x ∈ xs, f x ≤ b := by
  induction xs generalizing n with
  | nil => simp
  | cons x xs ih => rw [List.foldl_cons, ih, List.forall_mem_cons, Nat.max_le, and_assoc]

theorem CodedIndex.Kind.tagBits_bounds (kind : Kind) : 0 < kind.tagBits ∧ kind.tagBits ≤ 5 := by
  cases kind <;> decide

namespace TableInfo

variable (info : TableInfo) (kind : CodedIndex.Kind)

/-- The bits of a coded index are at most 16 if the bits that the tag leaves number the rows of every
table of the kind. -/
theorem codedBits_le_iff : info.codedBits kind ≤ 16 ↔
    ∀ t, some t ∈ kind.targets → (info.rows t).toNat < 2 ^ (16 - kind.tagBits) := by
  have htag := kind.tagBits_bounds
  have hsplit : info.codedBits kind ≤ 16 ↔
      kind.targets.foldl (fun bits target => max bits (target.elim 1 fun t => indexBits (info.rows t))) 1
        ≤ 16 - kind.tagBits := by
    rw [codedBits]
    omega
  rw [hsplit, foldl_max_le_iff]
  constructor
  · rintro ⟨-, h⟩ t ht
    exact (indexBits_le_iff (by omega)).mp (h (some t) ht)
  · intro h
    refine ⟨by omega, fun target ht => ?_⟩
    cases target with
    | none => exact show 1 ≤ 16 - kind.tagBits by omega
    | some t => exact (indexBits_le_iff (by omega)).mpr (h t ht)

theorem codedBytes_eq_two_iff : info.codedBytes kind = 2 ↔
    ∀ t, some t ∈ kind.targets → (info.rows t).toNat < 2 ^ (16 - kind.tagBits) := by
  rw [← info.codedBits_le_iff kind, codedBytes, columnBytes]
  split <;> omega

theorem codedBytes_eq_four_iff : info.codedBytes kind = 4 ↔
    ∃ t, some t ∈ kind.targets ∧ 2 ^ (16 - kind.tagBits) ≤ (info.rows t).toNat := by
  have hbits := info.codedBits_le_iff kind
  have hfour : info.codedBytes kind = 4 ↔ ¬ info.codedBits kind ≤ 16 := by
    rw [codedBytes, columnBytes]
    split <;> omega
  rw [hfour, hbits]
  simp only [Classical.not_forall, Nat.not_lt, exists_prop]

end TableInfo

/-! ### Stored values -/

namespace CodedIndex

variable {kind : Kind} {k : Nat} {t : TableId} {row : UInt32}

theorem Kind.target_mem (hk : kind.target? k = some t) : some t ∈ kind.targets :=
  List.mem_of_getElem? (Option.join_eq_some_iff.mp hk)

theorem target_lt (hk : kind.target? k = some t) : k < 2 ^ kind.tagBits :=
  Nat.lt_of_lt_of_le (Kind.target?_lt hk) kind.targets_length_le

theorem shiftLeft_or_eq (hk : kind.target? k = some t) (n : Nat) :
    n <<< kind.tagBits ||| k = n * 2 ^ kind.tagBits + k := by
  rw [← Nat.shiftLeft_add_eq_or_of_lt (target_lt hk), Nat.shiftLeft_eq]

theorem encode?_eq_shiftLeft (hk : kind.target? k = some t) (hrow : row ≤ maxRow) :
    encode? kind ⟨t, row⟩ = some (UInt32.ofNat (row.toNat <<< kind.tagBits ||| k)) := by
  have hn := Kind.target?_eq_some_iff.mp hk
  have hr : ¬ maxRow < row := UInt32.not_lt.mpr hrow
  have hv := toNat_value hr (tagOf?_lt hn)
  rw [Kind.toNat_tagCount, ← shiftLeft_or_eq hk] at hv
  simp only [encode?, if_neg hr, hn, Option.map_some, ← hv, UInt32.ofNat_toNat]

theorem shiftLeft_or_lt {n b : Nat} (hk : kind.target? k = some t) (hn : n < 2 ^ b) :
    n <<< kind.tagBits ||| k < 2 ^ (b + kind.tagBits) := by
  have hrow : n <<< kind.tagBits < 2 ^ (b + kind.tagBits) := by
    rw [Nat.shiftLeft_eq, Nat.pow_add]
    exact Nat.mul_lt_mul_of_pos_right hn (Nat.two_pow_pos _)
  have htag : k < 2 ^ (b + kind.tagBits) :=
    Nat.lt_of_lt_of_le (target_lt hk) (Nat.pow_le_pow_right (by decide) (Nat.le_add_left _ b))
  exact Nat.or_lt_two_pow hrow htag

/-- The stored value of an index to a row that is there fits into the column. -/
theorem stored_lt {info : TableInfo} (hk : kind.target? k = some t)
    (hrow : row.toNat ≤ min (info.rows t).toNat maxRow.toNat) :
    row.toNat <<< kind.tagBits ||| k < 256 ^ info.codedBytes kind := by
  obtain ⟨hrows, hmax⟩ := Nat.le_min.mp hrow
  have hbits := kind.tagBits_bounds
  rw [TableInfo.codedBytes, columnBytes]
  split
  · -- four bytes hold the 24 bits of a row of a token and the tag
    have hlt := shiftLeft_or_lt hk (b := 24) (Nat.lt_succ_of_le hmax)
    have hpow : 2 ^ (24 + kind.tagBits) ≤ 2 ^ 32 := Nat.pow_le_pow_right (by decide) (by omega)
    exact Nat.lt_of_lt_of_le hlt hpow
  · rename_i hsmall
    have hfits := (info.codedBits_le_iff kind).mp (Nat.not_lt.mp hsmall) t (Kind.target_mem hk)
    have hlt := shiftLeft_or_lt hk (Nat.lt_of_le_of_lt hrows hfits)
    rw [Nat.sub_add_cancel (by omega)] at hlt
    exact hlt

/-- **Columns.**  A column takes two bytes if every table of the kind has so few rows that the bits
left by the tag number them, and else four.  The stored value of every index to a row that is there
fits into the column; wherever its bytes stand, the index is read back and the read moves over
exactly the column. -/
theorem read_stored (counts : List (TableId × UInt32)) (largeBlob : Bool) (kind : Kind) :
    let info := TableInfo.ofList counts largeBlob
    let rows := fun t => (lastCount counts t).toNat
    (info.codedBytes kind = 2 ↔ ∀ t, some t ∈ kind.targets → rows t < 2 ^ (16 - kind.tagBits)) ∧
    (info.codedBytes kind = 4 ↔ ∃ t, some t ∈ kind.targets ∧ 2 ^ (16 - kind.tagBits) ≤ rows t) ∧
    ∀ k t, kind.target? k = some t → ∀ row : UInt32, row.toNat ≤ min (rows t) maxRow.toNat →
      let value := row.toNat <<< kind.tagBits ||| k
      value < 256 ^ info.codedBytes kind ∧
      ∀ data offset,
        Bytes.slice data offset (info.codedBytes kind) = Bytes.spell (info.codedBytes kind) value →
        (read info kind).run data offset = (.ok ⟨t, row⟩, offset + info.codedBytes kind) := by
  intro info rows
  have hrows : ∀ t, (info.rows t).toNat = rows t := fun t =>
    congrArg UInt32.toNat (TableInfo.rows_ofList counts largeBlob t)
  refine ⟨?_, ?_, fun k t hk row hrow => ?_⟩
  · simpa only [hrows] using info.codedBytes_eq_two_iff kind
  · simpa only [hrows] using info.codedBytes_eq_four_iff kind
  rw [← hrows] at hrow
  have hlt := stored_lt hk hrow
  have hle : row ≤ maxRow := UInt32.le_iff_toNat_le.mpr (Nat.le_min.mp hrow).2
  refine ⟨hlt, fun data offset hbytes => ?_⟩
  have hlen : offset + info.codedBytes kind ≤ data.length := by
    have hpos : info.codedBytes kind ≠ 0 := by
      rw [TableInfo.codedBytes, columnBytes]
      split <;> decide
    have hfull := congrArg List.length hbytes
    rw [Bytes.length_spell] at hfull
    exact (Bytes.length_slice.mp hfull).resolve_left hpos
  rw [read_eq hlen]
  change (decode kind (UInt32.ofNat (Bytes.number (Bytes.slice _ _ _))), _) = _
  rw [hbytes, Bytes.number_spell, Nat.mod_eq_of_lt hlt, decode_of_encode? (encode?_eq_shiftLeft hk hle)]

/-- Of the two counts of a table the last one calls for four bytes. -/
theorem read_stored_wide :
    (read (.ofList [(.typeRef, 5), (.typeRef, 0x4000)] false) .typeDefOrRef).run [0xFF, 1, 0, 1, 0, 7] 1 =
      (.ok ⟨.typeRef, 0x4000⟩, 5) := by
  have hread := (read_stored [(.typeRef, 5), (.typeRef, 0x4000)] false .typeDefOrRef).2.2 1 .typeRef rfl
    0x4000 (by decide)
  exact hread.2 [0xFF, 1, 0, 1, 0, 7] 1 (by decide)

end CodedIndex

end CilMetadata

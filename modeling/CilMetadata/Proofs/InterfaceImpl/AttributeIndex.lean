import CilMetadata.InterfaceImpl
import CilMetadata.Proofs.CodedIndex.Decoding

/-!
# The index of an entity

Attribute rows point at an interface implementation by its row number above the tag of its table.  The
tag is written down on its own and not looked up among the targets, and a row number may have more bits
than a stored value has left; so it takes a proof that the index of an entity is the value that decodes
to it.

* `attributeIndex?_eq_some_iff`: the index of an entity is the value that decodes to its row;
* `attributeIndex_inverts`: which entities have an index, and what is known of it.
-/

namespace CilMetadata.InterfaceImpl

open CodedIndex (Kind rowPart tagPart)

-- the powers of the core library, also where another instance is in scope
attribute [local instance (2000)] instPowNat

variable {σ : Type} {e : InterfaceImpl σ} {v : UInt32}

/-! ### Entities that have an index -/

theorem attributeIndex?_eq_none_iff : e.attributeIndex? = none ↔ maxRow < e.rid := by
  unfold attributeIndex?
  by_cases h : maxRow < e.rid <;> simp [h]

theorem exists_attributeIndex_iff : (∃ v, e.attributeIndex? = some v) ↔ e.rid ≤ maxRow := by
  rw [← Option.isSome_iff_exists, ← Option.ne_none_iff_isSome, ne_eq, attributeIndex?_eq_none_iff,
    UInt32.not_lt]

theorem attributeIndex?_eq_some_iff : e.attributeIndex? = some v ↔
    CodedIndex.decode .hasCustomAttribute v = .ok ⟨.interfaceImpl, e.rid⟩ := by
  rw [attributeIndex?_eq_encode?, CodedIndex.decode_eq_ok_iff]

theorem attributeIndex?_ne {τ : Type} {e' : InterfaceImpl τ} (h : e.rid ≤ maxRow) (hne : e.rid ≠ e'.rid) :
    e.attributeIndex? ≠ e'.attributeIndex? := by
  intro heq
  obtain ⟨v, hv⟩ := exists_attributeIndex_iff.mpr h
  have hdecode := attributeIndex?_eq_some_iff.mp hv
  rw [attributeIndex?_eq_some_iff.mp (heq ▸ hv), Except.ok.injEq, CodedIndex.mk.injEq] at hdecode
  exact hne hdecode.2.symm

/-! ### What is known of an index -/

/-- A stored value points at an entity: it is the row of the entity above the tag, it decodes to the
entity and nothing else does, and it fits into the columns of every table that has the row. -/
structure PointsAt (v : UInt32) (e : InterfaceImpl σ) : Prop where
  /-- no bit of the row is lost above the tag -/
  toNat_eq : v.toNat = e.rid.toNat <<< Kind.hasCustomAttribute.tagBits ||| attributeTag.toNat
  rowPart_eq : rowPart .hasCustomAttribute v = e.rid
  tagPart_eq : tagPart .hasCustomAttribute v = attributeTag
  decode_eq : CodedIndex.decode .hasCustomAttribute v = .ok ⟨.interfaceImpl, e.rid⟩
  token_eq : ∀ i, CodedIndex.decode .hasCustomAttribute v = .ok i → i.token = e.token
  /-- no other value decodes to a row with the token of the entity -/
  unique : ∀ w i, CodedIndex.decode .hasCustomAttribute w = .ok i → i.token = e.token → w = v
  /-- whatever the row counts are, as long as the row is there -/
  fits : ∀ info : TableInfo, e.rid ≤ info.rows .interfaceImpl →
    v.toNat < 256 ^ info.codedBytes .hasCustomAttribute

theorem pointsAt_of_decode (h : CodedIndex.decode .hasCustomAttribute v = .ok ⟨.interfaceImpl, e.rid⟩) :
    PointsAt v e := by
  obtain ⟨hrow, hle, htarget⟩ := CodedIndex.parts_of_decode h
  have htag : (tagPart .hasCustomAttribute v).toNat = attributeTag.toNat :=
    Option.some.inj ((Kind.target?_eq_some_iff.mp htarget).symm.trans tagOf?_interfaceImpl)
  have hvalue : v.toNat = e.rid.toNat <<< Kind.hasCustomAttribute.tagBits ||| attributeTag.toNat := by
    rw [CodedIndex.toNat_eq_shiftLeft_or .hasCustomAttribute v, ← hrow, htag]
  refine ⟨hvalue, hrow.symm, UInt32.toNat_inj.mp htag, h, fun i hi => ?_, fun w i hi htoken => ?_,
    fun info hrows => ?_⟩
  · cases h.symm.trans hi
    rfl
  · have hindex : i = ⟨.interfaceImpl, e.rid⟩ := CodedIndex.eq_of_token_eq hi h htoken
    exact CodedIndex.eq_of_decode_eq (hindex ▸ hi) h
  · rw [hvalue]
    exact CodedIndex.stored_lt (Kind.target?_eq_some_iff.mpr tagOf?_interfaceImpl)
      (Nat.le_min.mpr ⟨UInt32.le_iff_toNat_le.mp hrows, UInt32.le_iff_toNat_le.mp hle⟩)

/-- **Indexes.**  An entity of either kind has an index exactly if its row fits into a token, its index
is the one value that points at it, and no value decodes to a row that does not fit. -/
theorem attributeIndex_inverts (e : InterfaceImpl σ) :
    ((∃ v, e.attributeIndex? = some v) ↔ e.rid ≤ maxRow) ∧
    (∀ v, e.attributeIndex? = some v ↔ PointsAt v e) ∧
    (maxRow < e.rid → ∀ w, CodedIndex.decode .hasCustomAttribute w ≠ .ok ⟨.interfaceImpl, e.rid⟩) := by
  refine ⟨exists_attributeIndex_iff, fun v => ?_, fun hlt w hw => ?_⟩
  · rw [attributeIndex?_eq_some_iff]
    exact ⟨pointsAt_of_decode, PointsAt.decode_eq⟩
  · exact absurd (CodedIndex.parts_of_decode hw).2.1 (UInt32.not_le.mpr hlt)

/-- The last row that fits, and the one after it. -/
example : ((blank (σ := Unit)).setRid 0xFFFFFF).2.attributeIndex? = some 0x1FFFFFE5 ∧
    ((blank (σ := Unit)).setRid 0x1000000).2.attributeIndex? = none := by decide

end CilMetadata.InterfaceImpl

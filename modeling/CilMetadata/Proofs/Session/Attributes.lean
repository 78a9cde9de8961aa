import CilMetadata.Proofs.InterfaceImpl.AttributeIndex
import CilMetadata.Proofs.ModuleImage.Attributes
import CilMetadata.Proofs.Session.Waiting

/-!
# The first request to the attributes of an entity

From the bytes of the attribute table to the list of an entity: which attributes it holds when it is
first asked for, whatever the session was asked before.

An entity asks for the attributes of its token, and a token keeps the lowest 24 bits of a row number
only.  Up to the largest row that fits into a token every entity has its own attributes.  Entities
beyond get those of the row that their token happens to address.

* `first_attributes`: the list of an entity, by the parent columns of the attribute rows;
* `attributes_shared`: a table in which an entity gets the attributes of another one.
-/

namespace CilMetadata

namespace InterfaceImpl

def Op.asksAttributes : Op → Bool
  | .attributes _ => true
  | _ => false

/-- The index of the row that the token of an entity addresses. -/
def tokenIndex? {σ : Type} (e : InterfaceImpl σ) : Option UInt32 :=
  CodedIndex.encode? .hasCustomAttribute ⟨.interfaceImpl, e.token.row⟩

/-- Up to the largest row that fits, the token of an entity addresses its own row. -/
theorem tokenIndex?_eq {σ : Type} {e : InterfaceImpl σ} (h : e.rid ≤ maxRow) :
    e.tokenIndex? = e.attributeIndex? := by
  rw [tokenIndex?, attributeIndex?_eq_encode?, token, Token.row_ofParts_of_le .interfaceImpl h]

end InterfaceImpl

namespace RowBacked

/-- The list of attributes of an entity was not asked for. -/
def AttributesWait (r : RowBacked ModuleImage) : Prop :=
  r.attributesCell = .unresolved (attributesOf r.rid)

/-- The first request to the attributes of an entity works on the list that the image tells of its
token. -/
theorem step_attributesWait {m : ModuleImage} {r : RowBacked ModuleImage} (hw : r.AttributesWait)
    (op : LazyList.Op CustomAttribute) :
    (InterfaceImpl.step (.attributes op) (.rowBacked r, some m)).1 = .attributes (.value
      (LazyList.step op (.ofIds (m.customAttributeRids (tokenOf r.rid)) attributeReader, some m)).1) := by
  have hread : r.attributesCell.read (some m) =
      (.value (.ofIds (m.customAttributeRids (tokenOf r.rid)) attributeReader),
        .resolved (.ofIds (m.customAttributeRids (tokenOf r.rid)) attributeReader), some m) := by
    rw [hw]
    rfl
  simp only [InterfaceImpl.step, InterfaceImpl.editAttributes, editAttributes, Deferred.edit, hread]

end RowBacked

namespace Session

open InterfaceImpl (Op)

theorem kept_attributesWait : Kept Op.asksAttributes RowBacked.AttributesWait where
  unread _ := rfl
  step op r r' owner hop h hw := by
    induction op using Op.byField with
    | read f =>
      rw [f.step_readOp] at h
      cases h
      rw [RowBacked.AttributesWait, f.attributesCell_put, f.rid_put]
      exact hw
    | write f t =>
      rw [f.step_writeOp] at h
      cases h
      rw [RowBacked.AttributesWait, f.attributesCell_put, f.rid_put]
      exact hw
    | attributes op => cases hop
    | other op hother =>
      rw [hother] at h
      cases h
      exact hw

variable {build : Build} {m : ModuleImage} {s : Session ModuleImage} {n : Nat}

/-- **Attributes.**  After any run that did not ask for the attributes of an entity, and as long as the
image is there, a request to them works on a list of attributes that were not read: those, in table
order, whose parent column is the index of the row that the token of the entity addresses.  Up to the
largest row that fits into a token this is the index of the entity, and no attribute is in the list
of another entity. -/
theorem first_attributes {info : TableInfo} {impls attributes heap : List UInt8} {types : TypeRegistry}
    (hm : ModuleImage.ofBytes info impls attributes heap types = .ok m) {mode : ValidationMode}
    {qs : List Request} (hq : ∀ q ∈ qs, q.asks n Op.asksAttributes = false)
    (hs : (run (request build) qs (start (some (m.withValidation mode)))).2 = s) {m' : ModuleImage}
    {r : RowBacked ModuleImage} (howner : s.owner = some m')
    (hr : s.entities[n]? = some (.rowBacked r)) (op : LazyList.Op CustomAttribute) :
    let e : InterfaceImpl ModuleImage := .rowBacked r
    let attached := CustomAttributeRow.attachedRids info attributes
    (request build (.any (.entity n (.attributes op))) s).1 = .inl (.entity (.attributes (.value
      (LazyList.step op (.ofIds (attached e.tokenIndex?) RowBacked.attributeReader, some m')).1))) ∧
    (e.rid ≤ maxRow → e.tokenIndex? = e.attributeIndex? ∧
      ∀ e' : InterfaceImpl ModuleImage, e'.rid ≤ maxRow → e'.rid ≠ e.rid →
        ∀ id ∈ attached e.tokenIndex?, id ∉ attached e'.tokenIndex?) := by
  subst hs
  intro e attached
  have hwait := holds_run kept_attributesWait (fits_start build (m.withValidation mode))
    (holds_start _ n _) hq
  have hparents : m'.attributeParents = m.attributeParents := by
    rw [(fits_run build (m.withValidation mode) qs).owner m' howner]
    rfl
  have hrids : m'.customAttributeRids (RowBacked.tokenOf r.rid) = attached e.tokenIndex? := by
    rw [ModuleImage.customAttributeRids, hparents]
    exact ModuleImage.customAttributeRids_eq hm .interfaceImpl r.rid
  have hans := RowBacked.step_attributesWait (m := m') (hwait r hr) op
  rw [hrids] at hans
  refine ⟨?_, fun hfits => ⟨InterfaceImpl.tokenIndex?_eq hfits, fun e' hfits' hne => ?_⟩⟩
  · simp only [request, step, hr, howner]
    exact congrArg (fun a => Sum.inl (Answer.entity a)) hans
  · rw [InterfaceImpl.tokenIndex?_eq hfits, InterfaceImpl.tokenIndex?_eq hfits']
    exact CustomAttributeRow.attachedRids_disjoint (InterfaceImpl.attributeIndex?_ne hfits hne.symm)

/-- One row and two attributes, the first of which is attached to the row and the second to a type
definition. -/
def attachedInfo : TableInfo := .ofList [(.interfaceImpl, 1), (.customAttribute, 2)] false

def attachedBytes : List UInt8 := [0x25, 0, 0x0B, 0, 0, 0, 0x23, 0, 0x0B, 0, 0, 0]

def attachedImage : ModuleImage where
  info := attachedInfo
  interfaceImpls := ⟨attachedInfo, [0, 0, 0, 0], 1, by decide⟩
  customAttributes := ⟨attachedInfo, attachedBytes, 2, by decide⟩
  attributeParents := [(Token.ofParts .interfaceImpl 1, 1), (Token.ofParts .typeDef 1, 2)]
  heap := .ofBlobs []
  types := .ofList []
  validation := .standard

/-- The session in front of it in which the class of the row was read before the attributes. -/
def attachedSession : Session ModuleImage :=
  (run (request .release) [.image (.bind 1), .any (.entity 0 .classType)]
    (start (some (attachedImage.withValidation .fast)))).2

theorem first_attributes_sample :
    (request .release (.any (.entity 0 (.attributes .length))) attachedSession).1 =
      .inl (.entity (.attributes (.value (.ok (.count 1))))) := by
  have hm : ModuleImage.ofBytes attachedInfo [0, 0, 0, 0] attachedBytes [0] (.ofList []) =
    .ok attachedImage := rfl
  have hq : ∀ q ∈ [Request.image (.bind 1), .any (.entity 0 .classType)],
      q.asks 0 Op.asksAttributes = false := by decide
  obtain ⟨r, hr⟩ : ∃ r, attachedSession.entities[0]? = some (.rowBacked r) ∧ r.rid = 1 := ⟨_, rfl, rfl⟩
  have hfirst := (first_attributes hm hq (s := attachedSession) rfl rfl hr.1 .length).1
  have hindex : (InterfaceImpl.rowBacked r).tokenIndex? = some 0x25 := by
    rw [InterfaceImpl.tokenIndex?, InterfaceImpl.token, InterfaceImpl.rid, hr.2]
    rfl
  rw [hindex] at hfirst
  exact hfirst

/-! ### Rows beyond the range of tokens -/

/-- The row counts of a table whose last row does not fit into a token. -/
def wideInfo : TableInfo := .ofList [(.interfaceImpl, 0x1000001), (.customAttribute, 1)] false

/-- The row of an attribute that is attached to the first row of the table. -/
def wideAttributes : List UInt8 := [0x25, 0, 0, 0, 0x0B, 0, 0, 0]

theorem wide_ofBytes {impls : List UInt8} (h : impls.length = 0x4000004) :
    ∃ m, ModuleImage.ofBytes wideInfo impls wideAttributes [0] (.ofList []) = .ok m := by
  have hfits : (wideInfo.rows .interfaceImpl).toNat * Row.size InterfaceImplRow wideInfo ≤ impls.length := by
    rw [h]
    decide
  have himpls : Table.ofBytes wideInfo impls (wideInfo.rows .interfaceImpl) =
    .ok (⟨wideInfo, impls, _, hfits⟩ : Table InterfaceImplRow) := dif_pos hfits
  simp only [ModuleImage.ofBytes, himpls, bind, Except.bind]
  exact ⟨_, rfl⟩

/-- A row that does not fit into a token has no index that an attribute could be attached by, and
still its entity lists the attributes of another row. -/
theorem attributes_shared : ¬ ∀ (info : TableInfo) (impls attributes heap : List UInt8)
    (types : TypeRegistry) (m : ModuleImage),
    ModuleImage.ofBytes info impls attributes heap types = .ok m →
    ∀ (build : Build) (mode : ValidationMode) (rid : UInt32) (e : InterfaceImpl ModuleImage)
      (owner : Option ModuleImage), InterfaceImpl.ofRow build mode rid (some m) = (.ok e, owner) →
    ∀ op : LazyList.Op CustomAttribute,
    (InterfaceImpl.step (.attributes op) (e, owner)).1 = .attributes (.value (LazyList.step op
      (.ofIds (CustomAttributeRow.attachedRids info attributes e.attributeIndex?)
        RowBacked.attributeReader, owner)).1) := by
  intro hown
  have hlength : (List.replicate 0x4000004 (0 : UInt8)).length = 0x4000004 := List.length_replicate
  obtain ⟨m, hm⟩ := wide_ofBytes hlength
  have hcount : m.interfaceImpls.rowCount = 0x1000001 := (ModuleImage.tables_of_ofBytes hm).2.2
  have hrow : InterfaceImpl.ofRow .debug .strict 0x1000001 (some m) = _ :=
    InterfaceImpl.ofRow_image (by decide) (by rw [hcount]; decide) .debug .strict
  have hlisted : m.customAttributeRids (RowBacked.tokenOf 0x1000001) = [1] :=
    ModuleImage.customAttributeRids_eq hm .interfaceImpl 0x1000001
  -- the list has an element, and by the index of the row it would have none
  have hone := RowBacked.step_attributesWait (m := m) (r := RowBacked.unread 0x1000001) rfl .length
  have hnone := hown _ _ _ _ _ m hm .debug .strict 0x1000001 _ _ hrow .length
  have hindex : (.rowBacked (RowBacked.unread 0x1000001) : InterfaceImpl ModuleImage).attributeIndex? =
    none := by decide
  rw [hindex, CustomAttributeRow.attachedRids_none, hone] at hnone
  change InterfaceImpl.Answer.attributes (.value (LazyList.step .length
    (.ofIds (m.customAttributeRids (RowBacked.tokenOf 0x1000001)) RowBacked.attributeReader, some m)).1) = _
    at hnone
  rw [hlisted] at hnone
  cases hnone

end Session

end CilMetadata

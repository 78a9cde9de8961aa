import CilMetadata.Proofs.Session.Waiting

/-!
# The first read of a field

From the bytes of a table to a type: what the first read of the class or the interface of an entity
answers, whatever the session was asked before.

* `kept_waits`: a field that is neither read nor written waits to be resolved;
* `first_read`: what the read of such a field answers.
-/

namespace CilMetadata

namespace TypeField

def touchedBy : TypeField → InterfaceImpl.Op → Bool
  | .classType, .classType | .classType, .setClassType _ => true
  | .interfaceType, .interfaceType | .interfaceType, .setInterfaceType _ => true
  | _, _ => false

def Waits (f : TypeField) (r : RowBacked ModuleImage) : Prop := f.cell r = .unresolved (f.find r.rid)

theorem touchedBy_readOp (f : TypeField) : f.touchedBy f.readOp = true := by
  cases f <;> rfl

theorem touchedBy_writeOp (f : TypeField) (t : Option CilType) : f.touchedBy (f.writeOp t) = true := by
  cases f <;> rfl

theorem waits_step {f : TypeField} {r r' : RowBacked ModuleImage} {op : InterfaceImpl.Op}
    {owner : Option ModuleImage} (hop : f.touchedBy op = false)
    (h : (InterfaceImpl.step op (.rowBacked r, owner)).2.1 = .rowBacked r') (hw : f.Waits r) :
    f.Waits r' := by
  have hput : ∀ g row c, f ≠ g → f.Waits (g.put row c r) := by
    intro g row c hne
    unfold Waits
    rw [TypeField.cell_put, if_neg hne, g.rid_put]
    exact hw
  induction op using InterfaceImpl.Op.byField with
  | read g =>
    rw [g.step_readOp] at h
    cases h
    refine hput g _ _ ?_
    rintro rfl
    rw [f.touchedBy_readOp] at hop
    cases hop
  | write g t =>
    rw [g.step_writeOp] at h
    cases h
    refine hput g _ _ ?_
    rintro rfl
    rw [f.touchedBy_writeOp] at hop
    cases hop
  | attributes op =>
    cases h
    unfold Waits
    rw [f.cell_attributesCell]
    exact hw
  | other op hother =>
    rw [hother] at h
    cases h
    exact hw

end TypeField

theorem Deferred.answer_read_unresolved {σ α : Type} (compute : σ → Outcome α × σ) (s : σ) :
    ((Deferred.unresolved compute).read s).1 = (compute s).1 := by
  cases hc : compute s with
  | mk o s' => cases o <;> simp only [read, hc]

namespace RowContext

variable {m : ModuleImage} {rid : UInt32}

/-- In front of an image with the table, a context with the right row or none finds the row. -/
theorem fetch_image {cached : Option InterfaceImplRow}
    (hrow : ∀ row, cached = some row → m.interfaceImpls.row rid = .ok row) :
    (fetch rid ⟨cached, some m⟩).1 = m.interfaceImpls.row rid ∧
      (fetch rid ⟨cached, some m⟩).2.owner = some m := by
  cases cached with
  | some row => exact ⟨(hrow row rfl).symm, rfl⟩
  | none =>
    have hask : askOwner (Source.readInterfaceImpl rid) (some m) = (m.interfaceImpls.row rid, some m) :=
      rfl
    simp only [fetch, hask]
    cases m.interfaceImpls.row rid <;> exact ⟨rfl, rfl⟩

theorem resolve_image {α : Type} (ask : InterfaceImplRow → ModuleImage → Except Error α × ModuleImage)
    {cached : Option InterfaceImplRow}
    (hrow : ∀ row, cached = some row → m.interfaceImpls.row rid = .ok row) :
    (resolve rid ask ⟨cached, some m⟩).1 =
      .ofExcept (m.interfaceImpls.row rid >>= fun row => (ask row m).1) := by
  obtain ⟨hans, ho⟩ := fetch_image hrow
  unfold resolve
  cases hf : fetch rid ⟨cached, some m⟩ with
  | mk r c =>
    rw [hf] at hans ho
    rw [← hans]
    cases r with
    | error e => rfl
    | ok row =>
      show Outcome.ofExcept (askOwner (ask row) c.owner).1 = _
      rw [ho]
      rfl

end RowContext

namespace Session

def Request.touches (n : Nat) (f : TypeField) (q : Request) : Bool := q.asks n f.touchedBy

variable {build : Build} {m : ModuleImage} {s : Session ModuleImage} {n : Nat} {f : TypeField}

theorem kept_waits (f : TypeField) : Kept f.touchedBy f.Waits where
  unread := f.cell_unread
  step _ _ _ _ hop h hw := TypeField.waits_step hop h hw

/-- The read of a field that waits asks for the row of the entity, and then for what the column
leads to. -/
theorem read_waiting (h : s.Fits build m) (hw : s.Holds n f.Waits) {m' : ModuleImage}
    {r : RowBacked ModuleImage} (howner : s.owner = some m')
    (hr : s.entities[n]? = some (.rowBacked r)) :
    (request build (.any (.entity n f.readOp)) s).1 = .inl (.entity (.type
      (.ofExcept (m.interfaceImpls.row r.rid >>= fun row => (f.ask row m').1)))) := by
  have hfits : r.Fits build m.interfaceImpls := h.entities _ (List.mem_of_getElem? hr)
  have htable := h.table m' howner
  have hrow : ∀ row, r.row = some row → m'.interfaceImpls.row r.rid = .ok row := htable ▸ hfits.row
  have hres : (f.find r.rid ⟨r.row, some m'⟩).1 = _ := RowContext.resolve_image f.ask hrow
  have hread : ((f.cell r).read ⟨r.row, some m'⟩).1 =
      .ofExcept (m.interfaceImpls.row r.rid >>= fun row => (f.ask row m').1) := by
    rw [hw r hr, Deferred.answer_read_unresolved, hres, htable]
  simp only [request, step, hr, howner]
  rw [f.step_readOp]
  exact congrArg (fun o => Sum.inl (Answer.entity (InterfaceImpl.Answer.type o))) hread

/-- **First read.**  After any run that did not touch a field, and as long as the image is there, the
read of the field answers what the bytes of the row call for: the defect of the interface column if
it does not decode, for either field, and else what the column of the field leads to in front of the
types registered by now.  A type that is answered is the one that the column stores.  Only release
builds make entities of rows that are not there. -/
theorem first_read {info : TableInfo} {impls attributes heap : List UInt8} {types : TypeRegistry}
    (hm : ModuleImage.ofBytes info impls attributes heap types = .ok m) {mode : ValidationMode}
    {qs : List Request} (hq : ∀ q ∈ qs, q.touches n f = false)
    (hs : (run (request build) qs (start (some (m.withValidation mode)))).2 = s) {m' : ModuleImage}
    {r : RowBacked ModuleImage} (howner : s.owner = some m')
    (hr : s.entities[n]? = some (.rowBacked r)) (hrid : build = .release → m.HasRow r.rid) :
    let answer := (request build (.any (.entity n f.readOp)) s).1
    let c := InterfaceImplRow.classColumn info impls r.rid
    let v := UInt32.ofNat (InterfaceImplRow.interfaceColumn info impls r.rid)
    (∀ e, CodedIndex.decode .typeDefOrRef v = .error e →
      (∃ d, e = .malformed d) ∧ answer = .inl (.entity (.type (.error e)))) ∧
    ∀ i, CodedIndex.decode .typeDefOrRef v = .ok i →
      answer = .inl (.entity (.type (.ofExcept (f.lead m'.types c i)))) ∧
      ∀ t, answer = .inl (.entity (.type (.value (some t)))) →
        t.token.tableId? = some (f.stored c i).1 ∧ t.token.row.toNat = (f.stored c i).2 := by
  subst hs
  intro answer c v
  obtain ⟨hinfo, hdata, hcount⟩ := ModuleImage.tables_of_ofBytes hm
  have hfits := fits_run build (m.withValidation mode) qs
  have hentity : r.Fits build m.interfaceImpls := hfits.entities _ (List.mem_of_getElem? hr)
  have hhas : m.HasRow r.rid := by
    cases build with
    | debug => exact hentity.counted rfl
    | release => exact hrid rfl
  have hrow := InterfaceImplRow.row_eq hhas.1 hhas.2
  have hwait := holds_run (kept_waits f) (fits_start build (m.withValidation mode))
    (holds_start _ n f.Waits) hq
  have hread : answer = _ := read_waiting hfits hwait howner hr
  rw [show (m.withValidation mode).interfaceImpls = m.interfaceImpls from rfl, hrow, hinfo, hdata] at hread
  refine ⟨fun e he => ?_, fun i hi => ?_⟩
  · rw [he] at hread
    exact ⟨CodedIndex.malformed_of_decode he, hread⟩
  · rw [hi] at hread
    have hlead := f.ask_eq (m := m') (InterfaceImplRow.classColumn_lt info impls r.rid) hi r.rid
      ((r.rid.toNat - 1) * Row.size InterfaceImplRow info)
    have hans : answer = .inl (.entity (.type (.ofExcept (f.lead m'.types c i)))) := by
      rw [hread, ← hlead]
      rfl
    refine ⟨hans, fun t ht => ?_⟩
    have hval := hans.symm.trans ht
    cases hx : f.lead m'.types c i with
    | error e =>
      rw [hx] at hval
      cases hval
    | ok o =>
      rw [hx] at hval
      cases hval
      exact TypeField.stored_of_lead hi hx

def sampleInfo : TableInfo := .ofList [(.typeDef, 2), (.typeRef, 1), (.interfaceImpl, 1)] false

/-- The image of a module whose one row links the second type definition to the type reference. -/
def sampleImage : ModuleImage where
  info := sampleInfo
  interfaceImpls := ⟨sampleInfo, [2, 0, 5, 0], 1, by decide⟩
  customAttributes := ⟨sampleInfo, [], 0, by decide⟩
  attributeParents := []
  heap := ⟨[0], rfl⟩
  types := .ofList [⟨Token.ofParts .typeRef 1, "Shapes", "IShape", ⟨0xA1⟩⟩]
  validation := .standard

/-- The session in front of it in which the class of the row was read before the interface. -/
def sampleSession : Session ModuleImage :=
  (run (request .release) [.image (.bind 1), .any (.entity 0 .classType)]
    (start (some (sampleImage.withValidation .fast)))).2

theorem first_read_sample :
    (request .release (.any (.entity 0 .interfaceType)) sampleSession).1 =
      .inl (.entity (.type (.value (some ⟨Token.ofParts .typeRef 1, "Shapes", "IShape", ⟨0xA1⟩⟩)))) := by
  have hm : ModuleImage.ofBytes sampleInfo [2, 0, 5, 0] [] [0]
      (.ofList [⟨Token.ofParts .typeRef 1, "Shapes", "IShape", ⟨0xA1⟩⟩]) = .ok sampleImage := rfl
  have hq : ∀ q ∈ [Request.image (.bind 1), .any (.entity 0 .classType)],
      q.touches 0 .interfaceType = false := by decide
  obtain ⟨r, hr⟩ : ∃ r, sampleSession.entities[0]? = some (.rowBacked r) ∧ r.rid = 1 := ⟨_, rfl, rfl⟩
  have hread := (first_read hm hq (s := sampleSession) rfl rfl hr.1 fun _ => hr.2.symm ▸ by decide).2
  rw [hr.2] at hread
  exact (hread ⟨.typeRef, 1⟩ rfl).1

end Session

end CilMetadata

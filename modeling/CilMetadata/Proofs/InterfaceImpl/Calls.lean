import CilMetadata.Proofs.InterfaceImpl.CallLaw
import CilMetadata.Proofs.InterfaceImpl.Observation
import CilMetadata.Proofs.InterfaceImpl.Settled
import CilMetadata.Proofs.LazyList.Reads

/-!
# The calls of an entity

An entity that is made from a row of a source keeps to the law of its calls, whatever the source
answers: nothing is asked of the source.  What carries this is that the transcript tells the state
of the entity: the raw row is there if the transcript has it, and what is not resolved was never
asked for.

* `RowBacked.Recorded`: the invariant;
* `step_recorded`: what one request keeps, and which calls it can make.
-/

namespace CilMetadata

open Source (Call Answer Transcript Transcribed)

variable {σ α : Type}

/-! ### The raw row -/

variable {rid : UInt32}

open InterfaceImpl (entriesOf)

theorem entriesOf_askOwner (c : Call) (noted : Except Error α → Answer)
    (ask : Transcribed σ → Except Error α × Transcribed σ)
    (hask : ∀ s, (ask s).2.entries = s.entries ++ [(c, noted (ask s).1)])
    {owner : Option (Transcribed σ)} (h : owner.isSome) :
    (askOwner ask owner).2.isSome ∧
      entriesOf (askOwner ask owner).2 = entriesOf owner ++ [(c, noted (askOwner ask owner).1)] := by
  cases owner with
  | none => cases h
  | some s => exact ⟨rfl, hask s⟩

variable [Source σ]

namespace RowContext

variable {c : RowContext (Transcribed σ)}

/-- What a fetch can do: nothing if the row is there, or else one call, whose row stays. -/
theorem fetch_cases (h : c.owner.isSome) (rid : UInt32) :
    (∃ row, c.row = some row ∧ c.fetch rid = (.ok row, c)) ∨
    (c.row = none ∧ (c.fetch rid).2.owner.isSome ∧
      (∀ row, (c.fetch rid).2.row = some row ↔ (c.fetch rid).1 = .ok row) ∧
      entriesOf (c.fetch rid).2.owner =
        entriesOf c.owner ++ [(.readInterfaceImpl rid, .row (c.fetch rid).1)]) := by
  obtain ⟨row, owner⟩ := c
  cases row with
  | some row => exact .inl ⟨row, rfl, rfl⟩
  | none =>
    obtain ⟨hsome, hentries⟩ := entriesOf_askOwner (.readInterfaceImpl rid) .row
      (Source.readInterfaceImpl rid) (fun _ => rfl) h
    refine .inr ⟨rfl, ?_⟩
    cases hr : askOwner (Source.readInterfaceImpl rid) owner with
    | mk r owner' =>
      rw [hr] at hsome hentries
      have hfetch : (⟨none, owner⟩ : RowContext (Transcribed σ)).fetch rid = (r, ⟨r.toOption, owner'⟩) := by
        cases r <;> simp only [fetch, hr, Except.toOption]
      rw [hfetch]
      refine ⟨hsome, fun row => ?_, hentries⟩
      cases r <;> simp [Except.toOption]

/-- What the search for a field can do: it stops at the fetch, or goes on with the call of the column. -/
theorem find_cases (h : (c.fetch rid).2.owner.isSome) (f : TypeField) :
    (f.find rid c).2 = (c.fetch rid).2 ∨
    ∃ row a, (c.fetch rid).1 = .ok row ∧ (f.find rid c).2.owner.isSome ∧
      (f.find rid c).2.row = (c.fetch rid).2.row ∧
      entriesOf (f.find rid c).2.owner = entriesOf (c.fetch rid).2.owner ++ [(f.call row, a)] := by
  cases hfetch : c.fetch rid with
  | mk r c' =>
    rw [hfetch] at h
    cases r with
    | error e => exact .inl (by simp only [TypeField.find, resolve, hfetch])
    | ok row =>
      obtain ⟨hsome, hentries⟩ := entriesOf_askOwner (f.call row) .type (f.ask row)
        (fun _ => by cases f <;> rfl) h
      have hfind : (f.find rid c).2 = ⟨c'.row, (askOwner (f.ask row) c'.owner).2⟩ := by
        simp only [TypeField.find, resolve, hfetch]
      rw [hfind]
      exact .inr ⟨row, _, rfl, hsome, rfl, hentries⟩

/-- The transcript of a context is lawful, and has its raw row. -/
structure Recorded (rid : UInt32) (c : RowContext (Transcribed σ)) : Prop where
  owner : c.owner.isSome
  lawful : RowBacked.Lawful rid (entriesOf c.owner)
  row_iff : ∀ row, c.row = some row ↔ RowBacked.fetched rid row ∈ entriesOf c.owner

theorem fetch_recorded (h : c.Recorded rid) :
    (c.fetch rid).2.Recorded rid ∧
      (∀ row, (c.fetch rid).1 = .ok row → (c.fetch rid).2.row = some row) ∧
      Transcript.Grows Call.fetchesRow (entriesOf c.owner) (entriesOf (c.fetch rid).2.owner) := by
  rcases fetch_cases h.owner rid with ⟨row, hrow, hfetch⟩ | ⟨hnone, hsome, hrow, hentries⟩
  · rw [hfetch]
    refine ⟨h, fun row' hok => ?_, .refl _ _⟩
    cases hok
    exact hrow
  have hnot : ∀ row, RowBacked.fetched rid row ∉ entriesOf c.owner := by
    intro row hmem
    rw [← h.row_iff, hnone] at hmem
    cases hmem
  rw [hentries]
  refine ⟨⟨hsome, ?_, fun row => ?_⟩, fun row => (hrow row).mpr, .concat rfl _ _⟩
  · rw [hentries]
    exact h.lawful.concat (.fetch hnot) _
  · rw [hrow, hentries, List.mem_append, List.mem_singleton, or_iff_right (hnot row)]
    simp [RowBacked.fetched, eq_comm]

theorem find_recorded (h : c.Recorded rid) {f : TypeField}
    (havoids : (entriesOf c.owner).Avoids f.asks) :
    (f.find rid c).2.Recorded rid ∧
      Transcript.Grows f.mayCall (entriesOf c.owner) (entriesOf (f.find rid c).2.owner) := by
  obtain ⟨hrec, hrow, hgrows⟩ := fetch_recorded h
  have hgrows' : Transcript.Grows f.mayCall (entriesOf c.owner) (entriesOf (c.fetch rid).2.owner) :=
    hgrows.mono fun call hcall => by simp [TypeField.mayCall, hcall]
  rcases find_cases hrec.owner f with heq | ⟨row, a, hok, hsome, hrow', hentries⟩
  · rw [heq]
    exact ⟨hrec, hgrows'⟩
  have hfetched := (hrec.row_iff row).mp (hrow row hok)
  have havoids' := havoids.grows hgrows fun call => f.asks_of_fetchesRow
  refine ⟨⟨hsome, ?_, fun row' => ?_⟩, ?_⟩
  · rw [hentries]
    exact hrec.lawful.concat (.type f hfetched havoids') a
  · rw [hrow', hentries, hrec.row_iff, List.mem_append, List.mem_singleton]
    refine ⟨.inl, fun hmem => hmem.resolve_right fun heq => ?_⟩
    cases f <;> cases heq
  · rw [hentries]
    exact hgrows'.trans (.concat (by simp [TypeField.mayCall]) _ a)

end RowContext

/-! ### Entities -/

namespace RowBacked

/-- An id is among the rows of attributes that were told. -/
def Told (rid : UInt32) (T : Transcript) (id : UInt32) : Prop := ∃ ids, told rid ids ∈ T ∧ id ∈ ids

theorem Told.mono {T T' : Transcript} (hsub : T ⊆ T') {id : UInt32} (h : Told rid T id) :
    Told rid T' id := by
  obtain ⟨ids, hids, hid⟩ := h
  exact ⟨ids, hsub hids, hid⟩

/-- The transcript of an entity is lawful, and tells its state: it has the raw row that is there, and
no call of a cell that is not resolved; the attributes that wait were told. -/
structure Recorded (rid : UInt32) (e : RowBacked (Transcribed σ)) (owner : Option (Transcribed σ)) :
    Prop where
  rid_eq : e.rid = rid
  bound : Bound e
  context : RowContext.Recorded rid ⟨e.row, owner⟩
  field : ∀ f : TypeField, (f.cell e).state = .unresolved → (entriesOf owner).Avoids f.asks
  attributesCell : e.attributesCell.state = .unresolved →
    (entriesOf owner).Avoids Call.asksAttributeRids
  waits : e.attributesCell.Holds fun l => ∀ id, l.Waits id → Told rid (entriesOf owner) id

variable {e : RowBacked (Transcribed σ)} {owner : Option (Transcribed σ)}

theorem recorded_unread (hsome : owner.isSome) (hlawful : Lawful rid (entriesOf owner))
    (h : ∀ entry ∈ entriesOf owner, entry.1 = .rowCount .interfaceImpl) :
    Recorded rid (unread rid) owner where
  rid_eq := rfl
  bound := bound_unread rid
  context := by
    refine ⟨hsome, hlawful, fun row => ⟨nofun, fun hmem => ?_⟩⟩
    cases h _ hmem
  field f _ := by
    intro entry hentry
    rw [h entry hentry]
    cases f <;> rfl
  attributesCell _ := by
    intro entry hentry
    rw [h entry hentry]
    rfl
  waits l hl := by cases hl

/-- A field that was read or written, once the calls for it are in the transcript. -/
theorem recorded_put (h : Recorded rid e owner) (f : TypeField) {c : RowContext (Transcribed σ)}
    (hc : c.Recorded rid)
    (hgrows : Transcript.Grows f.mayCall (entriesOf owner) (entriesOf c.owner))
    {cell : Deferred (RowContext (Transcribed σ)) (Option CilType)} (hcell : cell.state ≠ .unresolved) :
    Recorded rid (f.put c.row cell e) c.owner where
  rid_eq := by rw [f.rid_put, h.rid_eq]
  bound := bound_put h.bound f fun g hg => absurd (congrArg Deferred.state hg) hcell
  context := by
    rw [f.row_put]
    exact hc
  field g hg := by
    rw [TypeField.cell_put] at hg
    split at hg
    · exact absurd hg hcell
    · rename_i hne
      exact (h.field g hg).grows hgrows fun _ => TypeField.asks_of_mayCall hne
  attributesCell hcell' := by
    rw [f.attributesCell_put] at hcell'
    refine (h.attributesCell hcell').grows hgrows fun call hcall => ?_
    exact (Bool.or_eq_false_iff.mp (TypeField.forAttributes_of_mayCall hcall)).1
  waits := by
    rw [f.attributesCell_put]
    exact fun l hl id hid => (h.waits l hl id hid).mono hgrows.subset

theorem read_recorded (h : Recorded rid e owner) (f : TypeField) :
    Recorded rid (f.put ((f.cell e).read ⟨e.row, owner⟩).2.2.row ((f.cell e).read ⟨e.row, owner⟩).2.1 e)
        ((f.cell e).read ⟨e.row, owner⟩).2.2.owner ∧
      Transcript.Grows f.mayCall (entriesOf owner)
        (entriesOf ((f.cell e).read ⟨e.row, owner⟩).2.2.owner) := by
  by_cases hcell : (f.cell e).state = .unresolved
  · have ha := h.bound.field f
    rw [h.rid_eq] at ha
    obtain ⟨hrec, hgrows⟩ := RowContext.find_recorded h.context (h.field f hcell)
    rw [← (Deferred.read_of_unresolved ha hcell ⟨e.row, owner⟩).2] at hrec hgrows
    exact ⟨recorded_put h f hrec hgrows (Deferred.state_read _ _), hgrows⟩
  · rw [Deferred.read_of_settled hcell]
    exact ⟨recorded_put h f h.context (.refl _ _) hcell, .refl _ _⟩

theorem exists_told_of_attributesOf {owner : Option σ} {l : AttributeList σ}
    (h : (attributesOf rid owner).1 = .value l) :
    ∃ ids, (askOwner (Source.customAttributeRids (tokenOf rid)) owner).1 = .ok ids ∧
      l = .ofIds ids attributeReader := by
  unfold attributesOf at h
  cases hr : (askOwner (Source.customAttributeRids (tokenOf rid)) owner).1 with
  | error e => simp only [hr] at h; cases h
  | ok ids => simp only [hr] at h; cases h; exact ⟨ids, rfl, rfl⟩

/-- What reading the list of attributes can do to the owner, and which slots of the list wait. -/
theorem readAttributes_recorded (h : Recorded rid e owner) :
    (e.attributesCell.read owner).2.2.isSome ∧
      Lawful rid (entriesOf (e.attributesCell.read owner).2.2) ∧
      Transcript.Grows Call.forAttributes (entriesOf owner) (entriesOf (e.attributesCell.read owner).2.2) ∧
      ∀ l, (e.attributesCell.read owner).1 = .value l →
        ∀ id, l.Waits id → Told rid (entriesOf (e.attributesCell.read owner).2.2) id := by
  by_cases hcell : e.attributesCell.state = .unresolved
  · have ha := h.bound.attributesCell
    rw [h.rid_eq] at ha
    obtain ⟨hvalue, howner⟩ := Deferred.read_of_unresolved ha hcell owner
    obtain ⟨hsome, hentries⟩ := entriesOf_askOwner (.customAttributeRids (tokenOf rid)) .rids
      (Source.customAttributeRids (tokenOf rid)) (fun _ => rfl) h.context.owner
    change (attributesOf rid owner).2.isSome at hsome
    change entriesOf (attributesOf rid owner).2 = _ at hentries
    rw [howner, hvalue, hentries]
    refine ⟨hsome, h.context.lawful.concat (.attributeRids (h.attributesCell hcell)) _,
      .concat rfl _ _, fun l hl id hid => ?_⟩
    obtain ⟨ids, hids, rfl⟩ := exists_told_of_attributesOf hl
    refine ⟨ids, List.mem_append_right _ ?_, LazyList.waits_ofIds.mp hid⟩
    rw [hids]
    exact List.mem_singleton_self _
  · have hread := Deferred.read_of_settled hcell owner
    rw [hread]
    refine ⟨h.context.owner, h.context.lawful, .refl _ _, fun l hl => h.waits l ?_⟩
    have hpeek := Deferred.peek_of_read_value (Prod.ext hl hread)
    exact hpeek

theorem stepAttributes_recorded {l : AttributeList (Transcribed σ)} (hreader : l.reader = some attributeReader)
    (hwaits : ∀ id, l.Waits id → Told rid (entriesOf owner) id) (hsome : owner.isSome)
    (hlawful : Lawful rid (entriesOf owner)) (op : LazyList.Op CustomAttribute) :
    (LazyList.step op (l, owner)).2.2.isSome ∧
      Lawful rid (entriesOf (LazyList.step op (l, owner)).2.2) ∧
      Transcript.Grows Call.readsAttribute (entriesOf owner)
        (entriesOf (LazyList.step op (l, owner)).2.2) := by
  refine LazyList.step_keeps (I := fun owner' => owner'.isSome ∧ Lawful rid (entriesOf owner') ∧
    Transcript.Grows Call.readsAttribute (entriesOf owner) (entriesOf owner')) ?_ op
    ⟨hsome, hlawful, .refl _ _⟩
  rintro id hid owner' ⟨hsome', hlawful', hgrows⟩
  rw [hreader]
  obtain ⟨hsome'', hentries⟩ := entriesOf_askOwner (.readCustomAttribute id) .attr
    (Source.readCustomAttribute id) (fun _ => rfl) hsome'
  change (LazyList.readId (some attributeReader) id owner').2.isSome at hsome''
  change entriesOf (LazyList.readId (some attributeReader) id owner').2 = _ at hentries
  obtain ⟨ids, hids, hmem⟩ := (hwaits id hid).mono hgrows.subset
  rw [hentries]
  exact ⟨hsome'', hlawful'.concat (.attribute hids hmem) _, hgrows.trans (.concat rfl _ _)⟩

theorem recorded_attributes (h : Recorded rid e owner) {owner' : Option (Transcribed σ)}
    (hsome : owner'.isSome) (hlawful : Lawful rid (entriesOf owner'))
    (hgrows : Transcript.Grows Call.forAttributes (entriesOf owner) (entriesOf owner'))
    {cell : Deferred (Option (Transcribed σ)) (AttributeList (Transcribed σ))}
    (hbound : Bound { e with attributesCell := cell }) (hcell : cell.state ≠ .unresolved)
    (hwaits : cell.Holds fun l => ∀ id, l.Waits id → Told rid (entriesOf owner') id) :
    Recorded rid { e with attributesCell := cell } owner' where
  rid_eq := h.rid_eq
  bound := hbound
  context := by
    refine ⟨hsome, hlawful, fun row => ?_⟩
    rw [hgrows.mem_iff rfl]
    exact h.context.row_iff row
  field f hf := by
    rw [f.cell_attributesCell] at hf
    exact (h.field f hf).grows hgrows fun _ => TypeField.asks_of_forAttributes f
  attributesCell hcell' := absurd hcell' hcell
  waits := hwaits

theorem editAttributes_recorded (h : Recorded rid e owner) (op : LazyList.Op CustomAttribute) :
    Recorded rid (e.editAttributes (fun l owner => LazyList.step op (l, owner)) owner).2.1
        (e.editAttributes (fun l owner => LazyList.step op (l, owner)) owner).2.2 ∧
      Transcript.Grows Call.forAttributes (entriesOf owner)
        (entriesOf (e.editAttributes (fun l owner => LazyList.step op (l, owner)) owner).2.2) := by
  obtain ⟨hsome, hlawful, hgrows, hwaits⟩ := readAttributes_recorded h
  have hbound := bound_editAttributes h.bound op owner
  have hsettled := Deferred.state_read e.attributesCell owner
  have hheld : (e.attributesCell.read owner).2.1.Holds fun l => ∀ id, l.Waits id →
      Told rid (entriesOf (e.attributesCell.read owner).2.2) id :=
    fun l hl => hwaits l (Deferred.read_value_of_peek hl)
  cases hr : e.attributesCell.read owner with
  | mk o p =>
    obtain ⟨cell, owner'⟩ := p
    rw [hr] at hsome hlawful hgrows hwaits hsettled hheld
    cases o with
    | value l =>
      obtain ⟨hsome', hlawful', hgrows'⟩ := stepAttributes_recorded (reader_of_read h.bound hr)
        (hwaits l rfl) hsome hlawful op
      have hall := hgrows.trans (hgrows'.mono fun call hcall => by simp [Call.forAttributes, hcall])
      simp only [editAttributes, Deferred.edit, hr] at hbound ⊢
      refine ⟨recorded_attributes h hsome' hlawful' hall hbound (Deferred.state_overridden _) ?_, hall⟩
      intro l' hl' id hid
      cases hl'
      exact (hwaits l rfl id (LazyList.waits_of_step hid)).mono hgrows'.subset
    | error err =>
      simp only [editAttributes, Deferred.edit, hr] at hbound ⊢
      exact ⟨recorded_attributes h hsome hlawful hgrows hbound hsettled hheld, hgrows⟩
    | aborted =>
      simp only [editAttributes, Deferred.edit, hr] at hbound ⊢
      exact ⟨recorded_attributes h hsome hlawful hgrows hbound hsettled hheld, hgrows⟩

end RowBacked

/-! ### Requests -/

namespace InterfaceImpl

def Op.mayCall : Op → Call → Bool
  | .classType => TypeField.classType.mayCall
  | .interfaceType => TypeField.interfaceType.mayCall
  | .attributes _ => Call.forAttributes
  | _ => fun _ => false

/-- The entity of a row, with a transcript that tells its state. -/
def Recorded (rid : UInt32) : InterfaceImpl (Transcribed σ) × Option (Transcribed σ) → Prop
  | (.authored _, _) => False
  | (.rowBacked e, owner) => e.Recorded rid owner

variable {p : InterfaceImpl (Transcribed σ) × Option (Transcribed σ)}

theorem Recorded.lawful (h : Recorded rid p) : RowBacked.Lawful rid (entriesOf p.2) := by
  obtain ⟨e, owner⟩ := p
  cases e with
  | authored a => cases h
  | rowBacked e => exact h.context.lawful

/-- **One request.**  The transcript of an entity stays lawful and goes on telling its state, and only
calls of the request are added. -/
theorem step_recorded (op : Op) (h : Recorded rid p) :
    Recorded rid (step op p).2 ∧
      Transcript.Grows op.mayCall (entriesOf p.2) (entriesOf (step op p).2.2) := by
  obtain ⟨e, owner⟩ := p
  cases e with
  | authored a => cases h
  | rowBacked r =>
    induction op using Op.byField with
    | read f =>
      rw [f.step_readOp]
      cases f <;> exact RowBacked.read_recorded h _
    | write f t =>
      rw [f.step_writeOp]
      exact ⟨RowBacked.recorded_put h f h.context (.refl _ _) (Deferred.state_overridden t), .refl _ _⟩
    | attributes op => exact RowBacked.editAttributes_recorded h op
    | other op hop =>
      rw [hop]
      exact ⟨h, .refl _ _⟩

theorem run_recorded (h : Recorded rid p) (ops : List Op) : Recorded rid (run step ops p).2 :=
  run_preserves (P := Recorded rid) (fun op _ h => (step_recorded op h).1) ops h

end InterfaceImpl

end CilMetadata

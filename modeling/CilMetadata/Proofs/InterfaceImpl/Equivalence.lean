import CilMetadata.Proofs.InterfaceImpl.Owner

/-!
# Row-backed and authored entities

A row-backed entity answers like an authored one that holds what its row leads to, whenever its
fields are read, written or edited.

The source may change with every call.  What is known of its answers is said by a condition `E` on
its states that leads back: a state of `E` is only reached through answers that were as they should.

* `step_tracks`: one request, answered by a row-backed entity and by the authored one it tracks;
* `run_eq_authored`: whole runs.
-/

namespace CilMetadata

variable {σ τ α β : Type}

/-! ### Cells of an owner -/

def Alive (E : σ → Prop) : Option σ → Prop
  | none => False
  | some s => E s

/-- An owner that is alive after a question was alive before it and has answered. -/
theorem askOwner_eq {E : σ → Prop} {ask : σ → Except Error α × σ} {a : α}
    (hask : ∀ s, E (ask s).2 → (ask s).1 = .ok a) {owner : Option σ}
    (h : Alive E (askOwner ask owner).2) : ∃ owner', askOwner ask owner = (.ok a, owner') := by
  cases owner with
  | none => cases h
  | some s => exact ⟨some (ask s).2, by rw [← hask s h]; rfl⟩

namespace Deferred

/-- What a cell is known to answer: `P` as long as nothing was computed, then a value in `V`. -/
def Shows (P : Prop) (V : α → Prop) : Deferred σ α → Prop
  | .unresolved _ => P
  | .resolved v | .overridden v => V v
  | .resolving | .failed _ => False

/-- A cell answers what it shows, in a state that keeps what the computation keeps. -/
theorem read_of_shows {E Q : σ → Prop} {P : Prop} {V : α → Prop} {compute : σ → Outcome α × σ}
    {cell : Deferred σ α} (ha : cell.Awaits compute) (h : cell.Shows P V) {s : σ} (hs : Q s)
    (hc : P → E (compute s).2 → ∃ v s', compute s = (.value v, s') ∧ V v ∧ Q s')
    (hE : E (cell.read s).2.2) :
    ∃ v cell' s', cell.read s = (.value v, cell', s') ∧ V v ∧ cell'.Shows P V ∧ Q s' := by
  cases cell with
  | unresolved f =>
    cases ha f rfl
    have hE' : E (compute s).2 := by
      cases hc : compute s with
      | mk o t => cases o <;> simp only [read, hc] at hE <;> exact hE
    obtain ⟨v, s', hv, hV, hQ⟩ := hc h hE'
    exact ⟨v, .resolved v, s', by simp only [read, hv], hV, hV, hQ⟩
  | resolving => cases h
  | resolved v => exact ⟨v, .resolved v, s, rfl, h, h, hs⟩
  | failed e => cases h
  | overridden v => exact ⟨v, .overridden v, s, rfl, h, h, hs⟩

end Deferred

/-! ### The content of a row -/

/-- What a row leads to: its columns, the types and the list of attributes that are found for them,
and the attribute of every row of the list. -/
structure RowContent where
  row : InterfaceImplRow
  classType : Option CilType
  interfaceType : Option CilType
  attributeRids : List UInt32
  attributeOf : UInt32 → CustomAttribute

def RowContent.type (x : RowContent) : TypeField → Option CilType
  | .classType => x.classType
  | .interfaceType => x.interfaceType

def RowContent.authored (x : RowContent) (rid : UInt32) : Authored τ :=
  ⟨rid, x.classType, x.interfaceType, .ofList (x.attributeRids.map x.attributeOf)⟩

/-- A row that was fetched, if any, is the row of the content. -/
def RowContent.Keeps (x : RowContent) (row : Option InterfaceImplRow) : Prop :=
  ∀ r, row = some r → r = x.row

namespace RowBacked

variable {E : σ → Prop} {rid : UInt32} {x : RowContent} {e : RowBacked σ} {a : Authored τ}

/-- A row-backed entity answers as an authored one, whatever its cells hold by now. -/
structure Tracks (E : σ → Prop) (rid : UInt32) (x : RowContent) (e : RowBacked σ) (a : Authored τ) :
    Prop where
  rid_eq : e.rid = rid
  authored_rid : a.rid = rid
  row : x.Keeps e.row
  type : ∀ f : TypeField, (f.cell e).Shows (f.get a = x.type f) (· = f.get a)
  attributes : ∃ items,
    a.attributes.Represents (fun _ => True) (fun _ => none) items ∧
    e.attributesCell.Shows (items = x.attributeRids.map x.attributeOf)
      (LazyList.Represents (Alive E) (fun id => some (x.attributeOf id)) · items)

theorem tracks_put (h : Tracks E rid x e a) (f : TypeField) {row : Option InterfaceImplRow}
    (hrow : x.Keeps row) {c : Deferred (RowContext σ) (Option CilType)}
    {t : Option CilType} (hc : c.Shows (t = x.type f) (· = t)) :
    Tracks E rid x (f.put row c e) (f.set t a) where
  rid_eq := by rw [f.rid_put, h.rid_eq]
  authored_rid := by rw [f.rid_set, h.authored_rid]
  row := by rwa [f.row_put]
  type g := by
    rw [TypeField.cell_put, TypeField.get_set]
    by_cases hg : g = f
    · rw [if_pos hg, if_pos hg, hg]
      exact hc
    · rw [if_neg hg, if_neg hg]
      exact h.type g
  attributes := by
    rw [f.attributesCell_put, f.attributes_set]
    exact h.attributes

theorem write_tracks (h : Tracks E rid x e a) (f : TypeField) (t : Option CilType) :
    Tracks E rid x (f.put e.row ((f.cell e).write t) e) (f.set t a) :=
  tracks_put h f h.row rfl

end RowBacked

/-! ### What a source is known to answer -/

variable [Source σ]

/-- A call that ends in a state of `E` started in one; if it asked for the content of the row, it
was answered. -/
structure Serves (E : σ → Prop) (rid : UInt32) (x : RowContent) : Prop where
  back : LeadsBack (Alive E)
  row : ∀ s, E (Source.readInterfaceImpl rid s).2 → (Source.readInterfaceImpl rid s).1 = .ok x.row
  type : ∀ (f : TypeField) s, E (f.ask x.row s).2 → (f.ask x.row s).1 = .ok (x.type f)
  attributeRids : ∀ s, E (Source.customAttributeRids (RowBacked.tokenOf rid) s).2 →
    (Source.customAttributeRids (RowBacked.tokenOf rid) s).1 = .ok x.attributeRids
  attributeOf : ∀ id s, E (Source.readCustomAttribute id s).2 →
    (Source.readCustomAttribute id s).1 = .ok (x.attributeOf id)

section Context

variable {E : σ → Prop} {rid : UInt32} {x : RowContent}

theorem fetch_eq (hx : Serves E rid x) {c : RowContext σ} (hrow : x.Keeps c.row)
    (h : Alive E (c.fetch rid).2.owner) :
    ∃ owner, c.fetch rid = (.ok x.row, ⟨some x.row, owner⟩) := by
  obtain ⟨row, owner⟩ := c
  cases row with
  | some row =>
    cases hrow row rfl
    exact ⟨owner, rfl⟩
  | none =>
    have hask : Alive E (askOwner (Source.readInterfaceImpl rid) owner).2 := by
      simp only [RowContext.fetch] at h
      split at h <;> rename_i hr <;> rw [hr] <;> exact h
    obtain ⟨owner', hr⟩ := askOwner_eq hx.row hask
    exact ⟨owner', by simp only [RowContext.fetch, hr]⟩

theorem resolve_eq (hx : Serves E rid x) {ask : InterfaceImplRow → σ → Except Error α × σ} {a : α}
    (hback : ∀ row s, E (ask row s).2 → E s) (hask : ∀ s, E (ask x.row s).2 → (ask x.row s).1 = .ok a)
    {c : RowContext σ} (hrow : x.Keeps c.row)
    (h : Alive E (c.resolve rid ask).2.owner) :
    ∃ owner, c.resolve rid ask = (.value a, ⟨some x.row, owner⟩) := by
  have hfetch : Alive E (c.fetch rid).2.owner := by
    unfold RowContext.resolve at h
    split at h <;> rename_i hf <;> rw [hf]
    · exact h
    · exact askOwner_back (hback _) h
  obtain ⟨owner, hf⟩ := fetch_eq hx hrow hfetch
  simp only [RowContext.resolve, hf] at h ⊢
  obtain ⟨owner', ho⟩ := askOwner_eq hask h
  exact ⟨owner', by rw [ho]; rfl⟩

end Context

/-! ### Requests -/

namespace RowBacked

variable {E : σ → Prop} {rid : UInt32} {x : RowContent}

theorem tracks_unread (E : σ → Prop) (rid : UInt32) (x : RowContent) :
    Tracks E rid x (unread rid : RowBacked σ) (x.authored rid : Authored τ) where
  rid_eq := rfl
  authored_rid := rfl
  row := fun _ h => nomatch h
  type f := by
    rw [f.cell_unread]
    cases f <;> rfl
  attributes := ⟨x.attributeRids.map x.attributeOf, LazyList.represents_ofList _ _, rfl⟩

variable {e : RowBacked σ} {a : Authored τ}

theorem read_field (hx : Serves E rid x) {ask : InterfaceImplRow → σ → Except Error (Option CilType) × σ}
    {t u : Option CilType} (hback : ∀ row s, E (ask row s).2 → E s)
    (hask : ∀ s, E (ask x.row s).2 → (ask x.row s).1 = .ok t)
    {cell : Deferred (RowContext σ) (Option CilType)} (ha : cell.Awaits (RowContext.resolve rid ask))
    (h : cell.Shows (u = t) (· = u)) {c : RowContext σ} (hrow : x.Keeps c.row)
    (hE : Alive E (cell.read c).2.2.owner) :
    ∃ cell' c', cell.read c = (.value u, cell', c') ∧ cell'.Shows (u = t) (· = u) ∧ x.Keeps c'.row := by
  have hc : u = t → Alive E (c.resolve rid ask).2.owner →
      ∃ v c', c.resolve rid ask = (.value v, c') ∧ v = u ∧ x.Keeps c'.row := by
    intro hu hE
    obtain ⟨owner, hr⟩ := resolve_eq hx hback hask hrow hE
    exact ⟨t, _, hr, hu.symm, fun row hrow => (Option.some.inj hrow).symm⟩
  obtain ⟨v, cell', c', hr, rfl, hs, hk⟩ :=
    Deferred.read_of_shows (E := fun c => Alive E c.owner) ha h hrow hc hE
  exact ⟨cell', c', hr, hs, hk⟩

theorem read_tracks (hx : Serves E rid x) (hb : Bound e) (h : Tracks E rid x e a) (f : TypeField)
    {owner : Option σ} (hE : Alive E ((f.cell e).read ⟨e.row, owner⟩).2.2.owner) :
    ((f.cell e).read ⟨e.row, owner⟩).1 = .value (f.get a) ∧
      Tracks E rid x (f.put ((f.cell e).read ⟨e.row, owner⟩).2.2.row
        ((f.cell e).read ⟨e.row, owner⟩).2.1 e) a := by
  have ha := hb.field f
  rw [h.rid_eq] at ha
  obtain ⟨cell, c, hr, hs, hk⟩ := read_field hx (ask_back hx.back f) (hx.type f) ha (h.type f) h.row
    (c := ⟨e.row, owner⟩) hE
  rw [hr]
  have hput := tracks_put h f hk hs
  rw [f.set_get] at hput
  exact ⟨rfl, hput⟩

theorem attributesOf_eq (hx : Serves E rid x) {owner : Option σ}
    (h : Alive E (attributesOf rid owner).2) :
    ∃ owner', attributesOf rid owner = (.value (.ofIds x.attributeRids attributeReader), owner') := by
  obtain ⟨owner', hr⟩ := askOwner_eq hx.attributeRids h
  exact ⟨owner', by simp only [attributesOf, hr]; rfl⟩

theorem represents_attributes (hx : Serves E rid x) :
    LazyList.Represents (Alive E) (fun id => some (x.attributeOf id))
      (.ofIds x.attributeRids attributeReader) (x.attributeRids.map x.attributeOf) := by
  refine ⟨by simp [LazyList.ofIds, LazyList.Slot.element?, Function.comp_def], ?_⟩
  intro id attr owner hattr hE
  cases hattr
  obtain ⟨owner', hr⟩ := askOwner_eq (hx.attributeOf id) hE
  exact congrArg Prod.fst hr

theorem editAttributes_tracks (hx : Serves E rid x) (hb : Bound e) (h : Tracks E rid x e a)
    {op : LazyList.Op CustomAttribute} (hop : op.plain = true) {owner : Option σ} (owner' : Option τ)
    (hE : Alive E (e.editAttributes (fun l owner => LazyList.step op (l, owner)) owner).2.2) :
    (e.editAttributes (fun l owner => LazyList.step op (l, owner)) owner).1 =
        .value (LazyList.step op (a.attributes, owner')).1 ∧
      Tracks E rid x (e.editAttributes (fun l owner => LazyList.step op (l, owner)) owner).2.1
        { a with attributes := (LazyList.step op (a.attributes, owner')).2.1 } := by
  obtain ⟨items, hitems, hshows⟩ := h.attributes
  have hEread := editAttributes_back hx.back hb op hE
  have hc : items = x.attributeRids.map x.attributeOf → Alive E (attributesOf e.rid owner).2 →
      ∃ l owner'', attributesOf e.rid owner = (.value l, owner'') ∧
        LazyList.Represents (Alive E) (fun id => some (x.attributeOf id)) l items ∧ True := by
    intro hi hE
    rw [h.rid_eq] at hE ⊢
    obtain ⟨owner'', hr⟩ := attributesOf_eq hx hE
    exact ⟨_, owner'', hr, hi ▸ represents_attributes hx, trivial⟩
  obtain ⟨l, cell, s, hr, hl, -, -⟩ :=
    Deferred.read_of_shows (Q := fun _ => True) hb.attributesCell hshows trivial hc hEread
  simp only [editAttributes, Deferred.edit, hr] at hE ⊢
  -- both lists stand for the same plain one, so they answer alike
  obtain ⟨hans, hrep⟩ := LazyList.step_represents hl
    (by rw [reader_of_read hb hr]; exact attributeReader_back hx.back) hop hE
  obtain ⟨hans', hrep'⟩ := LazyList.step_represents hitems (fun _ _ _ => trivial) hop
    (s := owner') trivial
  rw [hans, hans']
  refine ⟨rfl, { h with type := fun f => ?_, attributes := ⟨_, hrep', hrep⟩ }⟩
  rw [f.cell_attributesCell, f.get_attributes]
  exact h.type f

end RowBacked

namespace InterfaceImpl

variable {E : σ → Prop} {rid : UInt32} {x : RowContent}

/-- Whether a request is one to any entity, and looks at its content alone. -/
def Op.common : Op → Bool
  | .rid | .token | .attributeIndex | .classType | .interfaceType | .setClassType _
  | .setInterfaceType _ => true
  | .attributes op => op.plain
  | .describe | .classState | .interfaceState | .isRowLoaded | .setRid _ => false

theorem step_tracks_read (hx : Serves E rid x) {r : RowBacked σ} (hb : r.Bound) {a : Authored τ}
    (h : r.Tracks E rid x a) (f : TypeField) {owner : Option σ} (owner' : Option τ)
    (hE : Alive E (step f.readOp (.rowBacked r, owner)).2.2) :
    (step f.readOp (.rowBacked r, owner)).1 = (step f.readOp (.authored a, owner')).1 ∧
      ∃ r' a', (step f.readOp (.rowBacked r, owner)).2.1 = .rowBacked r' ∧
        (step f.readOp (.authored a, owner')).2.1 = .authored a' ∧ r'.Tracks E rid x a' := by
  rw [f.step_readOp] at hE ⊢
  rw [f.step_readOp_authored]
  obtain ⟨hans, htrack⟩ := RowBacked.read_tracks hx hb h f hE
  exact ⟨congrArg Answer.type hans, _, a, rfl, rfl, htrack⟩

/-- **One request.**  A row-backed entity answers a common request as the authored entity does that
it tracks, and goes on tracking it. -/
theorem step_tracks (hx : Serves E rid x) {r : RowBacked σ} (hb : r.Bound) {a : Authored τ}
    (h : r.Tracks E rid x a) {op : Op} (hop : op.common = true) {owner : Option σ} (owner' : Option τ)
    (hE : Alive E (step op (.rowBacked r, owner)).2.2) :
    (step op (.rowBacked r, owner)).1 = (step op (.authored a, owner')).1 ∧
      ∃ r' a', (step op (.rowBacked r, owner)).2.1 = .rowBacked r' ∧
        (step op (.authored a, owner')).2.1 = .authored a' ∧ r'.Tracks E rid x a' := by
  have hrid : r.rid = a.rid := h.rid_eq.trans h.authored_rid.symm
  cases op with
  | rid => exact ⟨congrArg Answer.rid hrid, r, a, rfl, rfl, h⟩
  | token =>
    refine ⟨?_, r, a, rfl, rfl, h⟩
    simp only [step, token, InterfaceImpl.rid, hrid]
  | attributeIndex =>
    refine ⟨?_, r, a, rfl, rfl, h⟩
    simp only [step, attributeIndex?_eq_encode?, InterfaceImpl.rid, hrid]
  | classType => exact step_tracks_read hx hb h .classType owner' hE
  | interfaceType => exact step_tracks_read hx hb h .interfaceType owner' hE
  | setClassType t => exact ⟨rfl, _, _, rfl, rfl, RowBacked.write_tracks h .classType t⟩
  | setInterfaceType t => exact ⟨rfl, _, _, rfl, rfl, RowBacked.write_tracks h .interfaceType t⟩
  | attributes op =>
    obtain ⟨hans, htrack⟩ := RowBacked.editAttributes_tracks hx hb h hop owner' hE
    exact ⟨congrArg Answer.attributes hans, _, _, rfl, rfl, htrack⟩
  | describe => cases hop
  | classState => cases hop
  | interfaceState => cases hop
  | isRowLoaded => cases hop
  | setRid rid => cases hop

/-- **Whole runs.**  If the owner is alive where a run of common requests ends, in a state that leads
back, the entity of a row has answered like the authored one with the content of the row. -/
theorem run_eq_authored (hx : Serves E rid x) {ops : List Op} (hops : ∀ op ∈ ops, op.common = true)
    {owner : Option σ} (owner' : Option τ)
    (hend : Alive E (run step ops (.rowBacked (RowBacked.unread rid), owner)).2.2) :
    (run step ops (.rowBacked (RowBacked.unread rid), owner)).1 =
      (run step ops (.authored (x.authored rid), owner')).1 := by
  refine (run_simulates_of_end (I := fun p => p.1.Bound ∧ p.1.isRowBacked) (E := fun p => Alive E p.2)
    (R := fun p q => ∃ r a, p.1 = .rowBacked r ∧ q.1 = .authored a ∧ r.Tracks E rid x a)
    step_keeps_bound (step_back_of_bound hx.back) ?_ hops ⟨RowBacked.bound_unread rid, rfl⟩ hend
    ⟨_, _, rfl, rfl, RowBacked.tracks_unread E rid x⟩).1
  rintro op ⟨e, o⟩ ⟨e', o'⟩ hop ⟨hb, -⟩ hE ⟨r, a, rfl, rfl, h⟩
  exact step_tracks hx hb h hop o' hE

end InterfaceImpl

end CilMetadata

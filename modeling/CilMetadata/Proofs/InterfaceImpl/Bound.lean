import CilMetadata.Proofs.InterfaceImpl.TypeField
import CilMetadata.Proofs.LazyList.Refinement

/-!
# The cells of a row-backed entity

Whatever is asked of a row-backed entity, the computations that it has not started yet are those it
was made with, and its attributes are read by the reader it was made with.  So every state that an
entity can be in is told by plain data: which cells are settled, and how.

* `step_bound`: every request keeps this.
-/

namespace CilMetadata

variable {σ α β : Type}

/-! ### Computations of cells -/

namespace Deferred

/-- The computation of a cell, if it was not started yet, is the given one. -/
def Awaits (compute : σ → Outcome α × σ) (cell : Deferred σ α) : Prop :=
  ∀ f, cell = .unresolved f → f = compute

theorem read_ne_unresolved (cell : Deferred σ α) (s : σ) (f : σ → Outcome α × σ) :
    (cell.read s).2.1 ≠ .unresolved f := by
  intro h
  cases cell with
  | unresolved compute =>
    cases hc : compute s with
    | mk o s' => cases o <;> simp only [read, hc] at h <;> cases h
  | _ => cases h

theorem edit_ne_unresolved (change : α → σ → β × α × σ) (cell : Deferred σ α) (s : σ)
    (f : σ → Outcome α × σ) : (cell.edit change s).2.1 ≠ .unresolved f := by
  intro h
  have hread := read_ne_unresolved cell s f
  unfold edit at h
  split at h <;> rename_i hr
  · cases h
  · rw [hr] at hread
    exact hread h
  · rw [hr] at hread
    exact hread h

theorem awaits_read (compute : σ → Outcome α × σ) (cell : Deferred σ α) (s : σ) :
    Awaits compute (cell.read s).2.1 := fun f h => absurd h (read_ne_unresolved cell s f)

theorem awaits_edit (compute : σ → Outcome α × σ) (change : α → σ → β × α × σ) (cell : Deferred σ α)
    (s : σ) : Awaits compute (cell.edit change s).2.1 :=
  fun f h => absurd h (edit_ne_unresolved change cell s f)

theorem awaits_write (compute : σ → Outcome α × σ) (v : α) (cell : Deferred σ α) :
    Awaits compute (cell.write v) := fun _ h => nomatch h

/-- What the value of a cell is known to be, if it is there already. -/
def Holds (P : α → Prop) (cell : Deferred σ α) : Prop := ∀ v, cell.peek = some v → P v

theorem peek_of_read_value {cell cell' : Deferred σ α} {s s' : σ} {v : α}
    (h : cell.read s = (.value v, cell', s')) : cell'.peek = some v := by
  cases cell with
  | unresolved compute =>
    cases hc : compute s with
    | mk o t => cases o <;> simp only [read, hc] at h <;> cases h; rfl
  | resolving => cases h
  | failed e => cases h
  | _ => cases h; rfl

theorem holds_read {P : α → Prop} {compute : σ → Outcome α × σ} {cell : Deferred σ α}
    (ha : cell.Awaits compute) (hP : cell.Holds P) (hc : ∀ s v, (compute s).1 = .value v → P v) (s : σ) :
    Holds P (cell.read s).2.1 := by
  cases cell with
  | unresolved f =>
    cases ha f rfl
    intro v hv
    have hv' := hc s v
    cases ho : compute s with
    | mk o t =>
      rw [ho] at hv'
      cases o <;> simp only [read, ho] at hv <;> cases hv
      exact hv' rfl
  | _ => exact hP

theorem holds_edit {P : α → Prop} {compute : σ → Outcome α × σ} {cell : Deferred σ α}
    (ha : cell.Awaits compute) (hP : cell.Holds P) (hc : ∀ s v, (compute s).1 = .value v → P v)
    {change : α → σ → β × α × σ} (hchange : ∀ v s, P v → P (change v s).2.1) (s : σ) :
    Holds P (cell.edit change s).2.1 := by
  have h := holds_read ha hP hc s
  unfold edit
  split <;> rename_i hr
  · rename_i v cell' s'
    rw [hr] at h
    intro w hw
    cases hw
    exact hchange v s' (h v (peek_of_read_value hr))
  · rwa [hr] at h
  · rwa [hr] at h

end Deferred

/-! ### Row-backed entities -/

namespace RowBacked

variable [Source σ]

def attributeReader : UInt32 → Option σ → Except Error CustomAttribute × Option σ :=
  fun id => askOwner (Source.readCustomAttribute id)

/-- The entity awaits the computations of its row, and reads attributes from its owner. -/
structure Bound (e : RowBacked σ) : Prop where
  field : ∀ f : TypeField, (f.cell e).Awaits (f.find e.rid)
  attributesCell : e.attributesCell.Awaits (attributesOf e.rid)
  reader : e.attributesCell.Holds fun l => l.reader = some attributeReader

theorem bound_unread (rid : UInt32) : Bound (unread rid : RowBacked σ) where
  field f := by
    intro g h
    rw [f.cell_unread] at h
    cases h
    rfl
  attributesCell f h := by cases h; rfl
  reader l h := by cases h

variable {e : RowBacked σ}

theorem bound_put (h : Bound e) (f : TypeField) {row : Option InterfaceImplRow}
    {c : Deferred (RowContext σ) (Option CilType)} (hc : c.Awaits (f.find e.rid)) :
    Bound (f.put row c e) where
  field g := by
    rw [TypeField.cell_put, TypeField.rid_put]
    split
    · rename_i hg
      rwa [hg]
    · exact h.field g
  attributesCell := by
    rw [TypeField.attributesCell_put, TypeField.rid_put]
    exact h.attributesCell
  reader := by
    rw [TypeField.attributesCell_put]
    exact h.reader

theorem reader_of_attributesOf {rid : UInt32} {owner : Option σ} {l : AttributeList σ}
    (h : (attributesOf rid owner).1 = .value l) : l.reader = some attributeReader := by
  unfold attributesOf at h
  cases hr : (askOwner (Source.customAttributeRids (tokenOf rid)) owner).1 with
  | error e => simp only [hr] at h; cases h
  | ok rids => simp only [hr] at h; cases h; rfl

theorem reader_of_read (h : Bound e) {owner owner' : Option σ} {l : AttributeList σ}
    {cell : Deferred (Option σ) (AttributeList σ)}
    (hr : e.attributesCell.read owner = (.value l, cell, owner')) : l.reader = some attributeReader := by
  have hholds := Deferred.holds_read h.attributesCell h.reader (fun s v => reader_of_attributesOf) owner
  rw [hr] at hholds
  exact hholds l (Deferred.peek_of_read_value hr)

theorem bound_editAttributes (h : Bound e) (op : LazyList.Op CustomAttribute) (owner : Option σ) :
    Bound (e.editAttributes (fun l owner => LazyList.step op (l, owner)) owner).2.1 := by
  refine ⟨fun f => ?_, Deferred.awaits_edit _ _ _ _, ?_⟩
  · simp only [RowBacked.editAttributes, f.cell_attributesCell]
    exact h.field f
  refine Deferred.holds_edit h.attributesCell h.reader (fun s v => reader_of_attributesOf) ?_ owner
  intro l s hl
  exact (LazyList.reader_step op l s).trans hl

end RowBacked

namespace InterfaceImpl

theorem isRowBacked_step (op : Op) (e : InterfaceImpl σ) (owner : Option σ) :
    (step op (e, owner)).2.1.isRowBacked = e.isRowBacked := by
  cases e <;> cases op <;> rfl

variable [Source σ]

/-- An entity that is authored, or bound to its row. -/
def Bound : InterfaceImpl σ → Prop
  | .authored _ => True
  | .rowBacked r => r.Bound

/-- The entity of a row is made with nothing read, in front of an owner. -/
theorem ofRow_eq_ok {build : Build} {mode : ValidationMode} {rid : UInt32} {owner owner' : Option σ}
    {e : InterfaceImpl σ} (h : ofRow build mode rid owner = (.ok e, owner')) :
    e = .rowBacked (RowBacked.unread rid) ∧ owner'.isSome := by
  cases owner with
  | none => cases h
  | some s =>
    unfold ofRow RowBacked.bind at h
    cases hmode : mode.checksRowIds build with
    | false =>
      simp only [hmode] at h
      cases h
      exact ⟨rfl, rfl⟩
    | true =>
      simp only [hmode] at h
      cases hv : Source.isValidRid .interfaceImpl rid s with
      | mk b s' =>
        cases b <;> simp only [hv] at h <;> cases h
        exact ⟨rfl, rfl⟩

/-- **Boundness.**  A row-backed entity stays bound to its row, whatever it is asked. -/
theorem step_bound {e : InterfaceImpl σ} (h : e.Bound) (op : Op) (owner : Option σ) :
    (step op (e, owner)).2.1.Bound ∧ (e.isRowBacked → (step op (e, owner)).2.1.rid = e.rid) := by
  cases e with
  | authored a => cases op <;> exact ⟨trivial, fun h => nomatch h⟩
  | rowBacked r =>
    induction op using Op.byField with
    | read f =>
      rw [f.step_readOp]
      exact ⟨RowBacked.bound_put h f (Deferred.awaits_read _ _ _), fun _ => f.rid_put _ _ r⟩
    | write f t =>
      rw [f.step_writeOp]
      exact ⟨RowBacked.bound_put h f (Deferred.awaits_write _ t _), fun _ => f.rid_put _ _ r⟩
    | attributes op => exact ⟨RowBacked.bound_editAttributes h op owner, fun _ => rfl⟩
    | other op hop =>
      rw [hop]
      exact ⟨h, fun _ => rfl⟩

theorem exists_bound_step {r : RowBacked σ} (h : r.Bound) (op : Op) (owner : Option σ) :
    ∃ r' : RowBacked σ, r'.Bound ∧ (step op (.rowBacked r, owner)).2.1 = .rowBacked r' := by
  have hstep := step_bound (e := .rowBacked r) h op owner
  have hrow := isRowBacked_step op (.rowBacked r) owner
  cases he : (step op (.rowBacked r, owner)).2.1 with
  | authored a =>
    rw [he] at hrow
    cases hrow
  | rowBacked r' =>
    rw [he] at hstep
    exact ⟨r', hstep.1, rfl⟩

end InterfaceImpl

end CilMetadata

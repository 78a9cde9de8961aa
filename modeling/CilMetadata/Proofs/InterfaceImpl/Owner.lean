import CilMetadata.Proofs.InterfaceImpl.Bound

/-!
# The owner of an entity

What becomes of the owner of a row-backed entity, request by request.  The only thing that happens to
it is that it is called, so a condition on owners that every call leads back is led back by every
request, and by every run.

* `step_back`: one request;
* `isSome_owner_run`: no run makes an owner go away.
-/

namespace CilMetadata

variable {σ α : Type} {F : Option σ → Prop}

/-! ### Questions -/

theorem askOwner_back {ask : σ → Except Error α × σ}
    (hback : ∀ s, F (some (ask s).2) → F (some s)) {owner : Option σ}
    (h : F (askOwner ask owner).2) : F owner := by
  cases owner with
  | none => exact h
  | some s => exact hback s h

namespace Deferred

/-- A read leaves the state it found, or the one that the computation leaves. -/
theorem read_state {compute : σ → Outcome α × σ} {cell : Deferred σ α} (ha : cell.Awaits compute)
    (s : σ) : (cell.read s).2.2 = s ∨ (cell.read s).2.2 = (compute s).2 := by
  cases cell with
  | unresolved f =>
    cases ha f rfl
    right
    cases hc : compute s with
    | mk o t => cases o <;> simp only [read, hc]
  | _ => exact .inl rfl

theorem read_back {E : σ → Prop} {compute : σ → Outcome α × σ} {cell : Deferred σ α}
    (ha : cell.Awaits compute) (hback : ∀ s, E (compute s).2 → E s) {s : σ}
    (h : E (cell.read s).2.2) : E s := by
  rcases read_state ha s with hs | hs <;> rw [hs] at h
  · exact h
  · exact hback s h

end Deferred

variable [Source σ] {rid : UInt32}

/-- What holds of an owner after a call held of it before. -/
def LeadsBack (F : Option σ → Prop) : Prop :=
  ∀ call s, F (some (Source.call call s).2) → F (some s)

theorem fetch_back (hback : LeadsBack F) {c : RowContext σ} (h : F (c.fetch rid).2.owner) :
    F c.owner := by
  have hb : ∀ s, F (some (Source.readInterfaceImpl rid s).2) → F (some s) :=
    hback (.readInterfaceImpl rid)
  unfold RowContext.fetch at h
  split at h
  · exact h
  · split at h <;> rename_i hr
    · exact askOwner_back hb (hr ▸ h)
    · exact askOwner_back hb (hr ▸ h)

theorem ask_back (hback : LeadsBack F) (f : TypeField) (row : InterfaceImplRow) (s : σ)
    (h : F (some (f.ask row s).2)) : F (some s) := by
  cases f with
  | classType => exact hback (.resolveTypeDef row.classIndex) s h
  | interfaceType => exact hback (.resolveTypeDefOrRef row.interfaceIndex) s h

theorem resolve_back (hback : LeadsBack F) {ask : InterfaceImplRow → σ → Except Error α × σ}
    (hask : ∀ row s, F (some (ask row s).2) → F (some s)) {c : RowContext σ}
    (h : F (c.resolve rid ask).2.owner) : F c.owner := by
  have hfetch : F (c.fetch rid).2.owner := by
    unfold RowContext.resolve at h
    split at h <;> rename_i hf <;> rw [hf]
    · exact h
    · exact askOwner_back (hask _) h
  exact fetch_back hback hfetch

/-! ### Requests -/

namespace RowBacked

variable {e : RowBacked σ}

theorem attributesOf_back (hback : LeadsBack F) {owner : Option σ}
    (h : F (attributesOf rid owner).2) : F owner :=
  askOwner_back (hback (.customAttributeRids (tokenOf rid))) h

theorem attributeReader_back (hback : LeadsBack F) (id : UInt32) (owner : Option σ)
    (h : F (LazyList.readId (some attributeReader) id owner).2) : F owner :=
  askOwner_back (hback (.readCustomAttribute id)) h

theorem editAttributes_back (hback : LeadsBack F) (hb : Bound e) (op : LazyList.Op CustomAttribute)
    {owner : Option σ}
    (hE : F (e.editAttributes (fun l owner => LazyList.step op (l, owner)) owner).2.2) :
    F (e.attributesCell.read owner).2.2 := by
  cases hr : e.attributesCell.read owner with
  | mk o p =>
    obtain ⟨cell, owner'⟩ := p
    cases o with
    | value l =>
      simp only [editAttributes, Deferred.edit, hr] at hE
      refine LazyList.step_back (l := l) ?_ op hE
      rw [reader_of_read hb hr]
      exact attributeReader_back hback
    | error err => simpa only [editAttributes, Deferred.edit, hr] using hE
    | aborted => simpa only [editAttributes, Deferred.edit, hr] using hE

end RowBacked

namespace InterfaceImpl

/-- The owner that a request leaves leads back to the owner it found. -/
theorem step_back (hback : LeadsBack F) {r : RowBacked σ} (hb : r.Bound) (op : Op) {owner : Option σ}
    (hE : F (step op (.rowBacked r, owner)).2.2) : F owner := by
  induction op using Op.byField with
  | read f =>
    rw [f.step_readOp] at hE
    refine Deferred.read_back (E := fun c => F c.owner) (s := ⟨r.row, owner⟩) (hb.field f) ?_ hE
    exact fun c => resolve_back hback (ask_back hback f)
  | write f t =>
    rw [f.step_writeOp] at hE
    exact hE
  | attributes op =>
    refine Deferred.read_back hb.attributesCell ?_ (RowBacked.editAttributes_back hback hb op hE)
    exact fun s => RowBacked.attributesOf_back hback
  | other op hop =>
    rw [hop] at hE
    exact hE

theorem step_back_of_bound (hback : LeadsBack F) (op : Op) (p : InterfaceImpl σ × Option σ)
    (h : p.1.Bound ∧ p.1.isRowBacked) (hF : F (step op p).2.2) : F p.2 := by
  obtain ⟨e, owner⟩ := p
  cases e with
  | authored a => cases h.2
  | rowBacked r => exact step_back hback h.1 op hF

theorem step_keeps_bound (op : Op) (p : InterfaceImpl σ × Option σ)
    (h : p.1.Bound ∧ p.1.isRowBacked) : (step op p).2.1.Bound ∧ (step op p).2.1.isRowBacked := by
  obtain ⟨e, owner⟩ := p
  exact ⟨(step_bound h.1 op owner).1, (isRowBacked_step op e owner).trans h.2⟩

theorem isSome_owner_run (ops : List Op) {owner : Option σ} (h : owner.isSome) :
    (run step ops (.rowBacked (RowBacked.unread rid), owner)).2.2.isSome := by
  rw [← Option.ne_none_iff_isSome] at h ⊢
  intro hnone
  -- being gone is led back: only an owner that is there is called, and it stays there
  have hback : LeadsBack (σ := σ) (· = none) := by
    intro call s hF
    cases hF
  exact h (run_back (I := fun p : InterfaceImpl σ × Option σ => p.1.Bound ∧ p.1.isRowBacked)
    (E := fun p : InterfaceImpl σ × Option σ => p.2 = none) step_keeps_bound
    (step_back_of_bound hback) (s := (rowBacked (RowBacked.unread rid), owner))
    ⟨RowBacked.bound_unread rid, rfl⟩ hnone)

end InterfaceImpl

end CilMetadata

import CilMetadata.Proofs.InterfaceImpl.Bound

/-!
# Settled fields

A field is settled once it was read or written.  It stays so, and is read without a call.

* `step_settled`: every request keeps a field settled;
* `step_readOp_of_settled`: what a read of a settled field leaves of the owner.
-/

namespace CilMetadata

variable {σ α : Type}

/-! ### Cells -/

namespace Deferred

theorem read_of_settled {cell : Deferred σ α} (h : cell.state ≠ .unresolved) (s : σ) :
    (cell.read s).2 = (cell, s) := by
  cases cell with
  | unresolved f => exact absurd rfl h
  | _ => rfl

theorem read_of_unresolved {compute : σ → Outcome α × σ} {cell : Deferred σ α}
    (ha : cell.Awaits compute) (h : cell.state = .unresolved) (s : σ) :
    (cell.read s).1 = (compute s).1 ∧ (cell.read s).2.2 = (compute s).2 := by
  cases cell with
  | unresolved f =>
    cases ha f rfl
    cases hc : compute s with
    | mk o t => cases o <;> simp only [read, hc, and_self]
  | _ => cases h

theorem state_read (cell : Deferred σ α) (s : σ) : (cell.read s).2.1.state ≠ .unresolved := by
  intro h
  cases hc : (cell.read s).2.1 with
  | unresolved f => exact read_ne_unresolved cell s f hc
  | _ => rw [hc] at h; cases h

theorem state_overridden (v : α) : (overridden v : Deferred σ α).state ≠ .unresolved := by
  intro h
  cases h

theorem read_value_of_peek {cell : Deferred σ α} {s : σ} {v : α}
    (h : (cell.read s).2.1.peek = some v) : (cell.read s).1 = .value v := by
  cases cell with
  | unresolved compute =>
    cases hc : compute s with
    | mk o t => cases o <;> simp only [read, hc] at h ⊢ <;> cases h; rfl
  | resolving => cases h
  | failed e => cases h
  | _ => cases h; rfl

end Deferred

/-! ### Fields -/

namespace InterfaceImpl

/-- The cell of a field is not waiting to be resolved. -/
def Settled (f : TypeField) : InterfaceImpl σ → Prop
  | .authored _ => True
  | .rowBacked e => (f.cell e).state ≠ .unresolved

theorem step_settled {f : TypeField} {e : InterfaceImpl σ} (h : Settled f e) (op : Op)
    (owner : Option σ) : Settled f (step op (e, owner)).2.1 := by
  cases e with
  | authored a => cases op <;> trivial
  | rowBacked r =>
    induction op using Op.byField with
    | read g =>
      rw [g.step_readOp]
      show (f.cell (g.put _ _ r)).state ≠ _
      rw [TypeField.cell_put]
      split
      · exact Deferred.state_read _ _
      · exact h
    | write g t =>
      rw [g.step_writeOp]
      show (f.cell (g.put _ _ r)).state ≠ _
      rw [TypeField.cell_put]
      split
      · exact Deferred.state_overridden t
      · exact h
    | attributes op =>
      show (f.cell { r with attributesCell := _ }).state ≠ _
      rw [f.cell_attributesCell]
      exact h
    | other op hop => rwa [hop]

/-- A read of a settled field makes no call. -/
theorem step_readOp_of_settled {f : TypeField} {e : InterfaceImpl σ} (h : Settled f e) (owner : Option σ) :
    (step f.readOp (e, owner)).2.2 = owner := by
  cases e with
  | authored a => rw [f.step_readOp_authored]
  | rowBacked r =>
    rw [f.step_readOp]
    exact congrArg (fun q => q.2.owner) (Deferred.read_of_settled h ⟨r.row, owner⟩)

theorem settled_writeOp (f : TypeField) (t : Option CilType) (e : InterfaceImpl σ) (owner : Option σ) :
    Settled f (step (f.writeOp t) (e, owner)).2.1 := by
  cases e with
  | authored a => cases f <;> trivial
  | rowBacked r =>
    rw [f.step_writeOp]
    show (f.cell (f.put _ _ r)).state ≠ _
    rw [TypeField.cell_put, if_pos rfl]
    exact Deferred.state_overridden t

theorem settled_readOp (f : TypeField) (e : InterfaceImpl σ) (owner : Option σ) :
    Settled f (step f.readOp (e, owner)).2.1 := by
  cases e with
  | authored a => cases f <;> trivial
  | rowBacked r =>
    rw [f.step_readOp]
    show (f.cell (f.put _ _ r)).state ≠ _
    rw [TypeField.cell_put, if_pos rfl]
    exact Deferred.state_read _ _

end InterfaceImpl

end CilMetadata

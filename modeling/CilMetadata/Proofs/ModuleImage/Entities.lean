import CilMetadata.ModuleImage
import CilMetadata.Proofs.InterfaceImpl.Owner

/-!
# Entities in front of a module image

An image never changes by the calls of its entities.  So the row that an entity has fetched is and
stays the row of its number in the table.

* `owner_step`: no request to an entity changes its owner;
* `fits_step`: every request to an entity keeps what is known of it;
* `fresh_ofRow`: an entity that is made was not asked anything, and debug builds check its row.
-/

namespace CilMetadata

theorem ModuleImage.call_state (c : Source.Call) (m : ModuleImage) : (Source.call c m).2 = m := by
  cases c <;> rfl

theorem ModuleImage.isValidRid_state (t : TableId) (rid : UInt32) (m : ModuleImage) :
    (Source.isValidRid t rid m).2 = m := by
  unfold Source.isValidRid
  split <;> rfl

theorem ModuleImage.leadsBack (F : Option ModuleImage → Prop) : LeadsBack F := by
  intro c m h
  rwa [call_state] at h

theorem ModuleImage.isValidRid_eq (m : ModuleImage) (rid : UInt32) :
    Source.isValidRid .interfaceImpl rid m =
      (decide (rid ≠ 0 ∧ rid ≤ m.interfaceImpls.rowCount), m) := by
  unfold Source.isValidRid
  by_cases h0 : rid = 0
  · simp [h0]
  · simp only [ne_eq, h0, not_false_eq_true, true_and]
    rfl

/-- The `InterfaceImpl` table of an image has a row of this number. -/
def ModuleImage.HasRow (m : ModuleImage) (rid : UInt32) : Prop :=
  rid ≠ 0 ∧ rid ≤ m.rowCount .interfaceImpl

instance (m : ModuleImage) (rid : UInt32) : Decidable (m.HasRow rid) := inferInstanceAs (Decidable (_ ∧ _))

/-- What is known of a row-backed entity in front of a table: the row that it has fetched, if any, is
the one of the table, and in a debug build the table has its row. -/
structure RowBacked.Fits (build : Build) (t : Table InterfaceImplRow) (r : RowBacked ModuleImage) :
    Prop where
  bound : r.Bound
  counted : build = .debug → r.rid ≠ 0 ∧ r.rid ≤ t.rowCount
  row : ∀ row, r.row = some row → t.row r.rid = .ok row

variable {build : Build}

theorem RowBacked.Fits.put {t : Table InterfaceImplRow} {r : RowBacked ModuleImage} (h : r.Fits build t)
    (f : TypeField) {row : Option InterfaceImplRow}
    {c : Deferred (RowContext ModuleImage) (Option CilType)} (hc : c.Awaits (f.find r.rid))
    (hrow : ∀ x, row = some x → t.row r.rid = .ok x) : (f.put row c r).Fits build t where
  bound := bound_put h.bound f hc
  counted := by
    rw [f.rid_put]
    exact h.counted
  row := by
    rw [f.rid_put, f.row_put]
    exact hrow

theorem RowContext.row_resolve {σ α : Type} [Source σ] (rid : UInt32)
    (ask : InterfaceImplRow → σ → Except Error α × σ) (c : RowContext σ) :
    (c.resolve rid ask).2.row = (c.fetch rid).2.row := by
  unfold resolve
  split <;> rename_i hf <;> rw [hf]

theorem RowContext.row_fetch {t : Table InterfaceImplRow} {rid : UInt32} {c : RowContext ModuleImage}
    (howner : ∀ m, c.owner = some m → m.interfaceImpls = t)
    (hrow : ∀ row, c.row = some row → t.row rid = .ok row) :
    ∀ row, (c.fetch rid).2.row = some row → t.row rid = .ok row := by
  intro row h
  obtain ⟨cached, owner⟩ := c
  cases cached with
  | some cached => exact hrow row h
  | none =>
    cases owner with
    | none => cases h
    | some m =>
      cases howner m rfl
      cases hr : m.interfaceImpls.row rid with
      | error e =>
        have hask : askOwner (Source.readInterfaceImpl rid) (some m) = (.error e, some m) := by
          rw [← hr]
          rfl
        simp only [fetch, hask] at h
        cases h
      | ok found =>
        have hask : askOwner (Source.readInterfaceImpl rid) (some m) = (.ok found, some m) := by
          rw [← hr]
          rfl
        simp only [fetch, hask] at h
        cases h
        rfl

namespace InterfaceImpl

def Fits (build : Build) (t : Table InterfaceImplRow) : InterfaceImpl ModuleImage → Prop
  | .authored a => a.attributes.reader = none
  | .rowBacked r => r.Fits build t

variable {t : Table InterfaceImplRow} {e : InterfaceImpl ModuleImage} {owner : Option ModuleImage}

/-- No request to an entity changes its owner. -/
theorem owner_step (h : e.Fits build t) (op : Op) (owner : Option ModuleImage) :
    (step op (e, owner)).2.2 = owner := by
  by_contra hne
  cases e with
  | authored a =>
    cases op with
    | attributes op =>
      refine LazyList.step_back (E := (· ≠ owner)) (l := a.attributes) ?_ op hne rfl
      intro id s hs
      rw [h] at hs
      exact hs
    | _ => exact hne rfl
  | rowBacked r =>
    exact step_back (F := (· ≠ owner)) (ModuleImage.leadsBack _) h.bound op hne rfl

theorem row_read {field : Deferred (RowContext ModuleImage) (Option CilType)} {rid : UInt32}
    {ask : InterfaceImplRow → ModuleImage → Except Error (Option CilType) × ModuleImage}
    (ha : field.Awaits (RowContext.resolve rid ask)) {c : RowContext ModuleImage}
    (howner : ∀ m, c.owner = some m → m.interfaceImpls = t)
    (hrow : ∀ row, c.row = some row → t.row rid = .ok row) :
    ∀ row, (field.read c).2.2.row = some row → t.row rid = .ok row := by
  rcases Deferred.read_state ha c with hs | hs <;> rw [hs]
  · exact hrow
  · rw [RowContext.row_resolve]
    exact RowContext.row_fetch howner hrow

/-- **Rows stay.**  Every request to an entity keeps what is known of it. -/
theorem fits_step (h : e.Fits build t) (howner : ∀ m, owner = some m → m.interfaceImpls = t) (op : Op) :
    (step op (e, owner)).2.1.Fits build t := by
  cases e with
  | authored a =>
    cases op with
    | attributes op => exact (LazyList.reader_step op a.attributes owner).trans h
    | _ => exact h
  | rowBacked r =>
    induction op using Op.byField with
    | read f =>
      rw [f.step_readOp]
      exact RowBacked.Fits.put h f (Deferred.awaits_read _ _ _)
        (row_read (h.bound.field f) howner h.row)
    | write f t =>
      rw [f.step_writeOp]
      exact RowBacked.Fits.put h f (Deferred.awaits_write _ t _) h.row
    | attributes op =>
      exact ⟨RowBacked.bound_editAttributes h.bound op owner, h.counted, h.row⟩
    | other op hop =>
      rw [hop]
      exact h

/-- An entity that was not asked anything yet. -/
inductive Fresh (build : Build) (t : Table InterfaceImplRow) : InterfaceImpl ModuleImage → Prop
  | authored (c i : Option CilType) : Fresh build t (.authored ⟨0, c, i, .empty⟩)
  | rowBacked {rid : UInt32} (h : build = .debug → rid ≠ 0 ∧ rid ≤ t.rowCount) :
    Fresh build t (.rowBacked (RowBacked.unread rid))

theorem Fresh.fits (h : e.Fresh build t) : e.Fits build t := by
  cases h with
  | authored c i => rfl
  | rowBacked h => exact ⟨RowBacked.bound_unread _, h, fun _ hrow => nomatch hrow⟩

/-- The entity of a row has not been asked anything.  Debug builds make it only if the table has the
row. -/
theorem fresh_ofRow (build : Build) (mode : ValidationMode) (rid : UInt32)
    (howner : ∀ m, owner = some m → m.interfaceImpls = t) :
    (ofRow build mode rid owner).2 = owner ∧
      ∀ e, (ofRow build mode rid owner).1 = .ok e → e.Fresh build t := by
  cases owner with
  | none => exact ⟨rfl, fun e h => nomatch h⟩
  | some m =>
    unfold ofRow RowBacked.bind
    cases hchecks : mode.checksRowIds build with
    | false =>
      refine ⟨rfl, fun e h => ?_⟩
      cases h
      refine .rowBacked fun hdebug => ?_
      rw [hdebug, ValidationMode.checksRowIds_debug] at hchecks
      cases hchecks
    | true =>
      simp only [if_true, ModuleImage.isValidRid_eq]
      by_cases hrid : rid ≠ 0 ∧ rid ≤ m.interfaceImpls.rowCount
      · rw [decide_eq_true hrid]
        refine ⟨rfl, fun e h => ?_⟩
        cases h
        rw [howner m rfl] at hrid
        exact .rowBacked fun _ => hrid
      · rw [decide_eq_false hrid]
        exact ⟨rfl, fun e h => nomatch h⟩

/-- Every row of the table can be made an entity of, in every build. -/
theorem ofRow_image {m : ModuleImage} {rid : UInt32} (h0 : rid ≠ 0)
    (h : rid ≤ m.interfaceImpls.rowCount) (build : Build) (mode : ValidationMode) :
    ofRow build mode rid (some m) = (.ok (.rowBacked (RowBacked.unread rid)), some m) := by
  unfold ofRow RowBacked.bind
  cases mode.checksRowIds build with
  | false => rfl
  | true =>
    simp only [if_true, ModuleImage.isValidRid_eq, decide_eq_true (And.intro h0 h)]
    rfl

end InterfaceImpl

end CilMetadata

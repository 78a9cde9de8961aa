import CilMetadata.Proofs.InterfaceImpl.TypeField
import CilMetadata.Proofs.Source.Alike

/-!
# Entities in front of alike sources

An entity sees nothing of its source but the answers.  So entities that are made in front of alike
sources answer alike, whatever they are asked.

* `step_alike`: one request;
* `run_alike`: whole runs.
-/

namespace CilMetadata

variable {σ τ α : Type} {S : σ → τ → Prop}

theorem askOwner_alike {ask : σ → Except Error α × σ} {ask' : τ → Except Error α × τ}
    (h : AnswerAlike S (· = ·) ask ask') :
    AnswerAlike (Option.Rel S) (· = ·) (askOwner ask) (askOwner ask') := by
  intro owner owner' ho
  cases ho with
  | none => exact ⟨rfl, .none⟩
  | some hs =>
    obtain ⟨ha, hs'⟩ := h _ _ hs
    exact ⟨ha, .some hs'⟩

theorem isValidRid_alike [Source σ] [Source τ] (hS : Source.Alike S) (t : TableId) (rid : UInt32) :
    AnswerAlike S (· = ·) (Source.isValidRid (σ := σ) t rid) (Source.isValidRid (σ := τ) t rid) := by
  intro s s' hs
  unfold Source.isValidRid
  split
  · exact ⟨rfl, hs⟩
  · obtain ⟨ha, hs'⟩ := hS.rowCount t s s' hs
    exact ⟨congrArg (fun count => decide (rid ≤ count)) ha, hs'⟩

namespace RowContext

/-- Contexts with the same row and alike owners. -/
structure Alike (S : σ → τ → Prop) (c : RowContext σ) (c' : RowContext τ) : Prop where
  row : c.row = c'.row
  owner : Option.Rel S c.owner c'.owner

variable [Source σ] [Source τ]

theorem fetch_alike (hS : Source.Alike S) (rid : UInt32) :
    AnswerAlike (Alike S) (· = ·) (fetch (σ := σ) rid) (fetch (σ := τ) rid) := by
  rintro ⟨row, owner⟩ ⟨row', owner'⟩ ⟨hrow, ho⟩
  cases hrow
  cases row with
  | some row => exact ⟨rfl, rfl, ho⟩
  | none =>
    simp only [fetch]
    refine (askOwner_alike (hS.readInterfaceImpl rid)).elim ho fun r r' o o' hr ho' => ?_
    cases hr
    cases r with
    | ok row => exact ⟨rfl, rfl, ho'⟩
    | error e => exact ⟨rfl, rfl, ho'⟩

theorem resolve_alike (hS : Source.Alike S) (rid : UInt32)
    {ask : InterfaceImplRow → σ → Except Error α × σ} {ask' : InterfaceImplRow → τ → Except Error α × τ}
    (hask : ∀ row, AnswerAlike S (· = ·) (ask row) (ask' row)) :
    AnswerAlike (Alike S) (Outcome.Alike (· = ·)) (resolve rid ask) (resolve rid ask') := by
  intro c c' hc
  unfold resolve
  refine (fetch_alike hS rid).elim hc fun r r' d d' hr hd => ?_
  cases hr
  cases r with
  | error e => exact ⟨.error e, hd⟩
  | ok row =>
    obtain ⟨ha, ho⟩ := askOwner_alike (hask row) d.owner d'.owner hd.owner
    refine ⟨?_, hd.row, ho⟩
    show Outcome.Alike (· = ·) (.ofExcept (askOwner (ask row) d.owner).1)
      (.ofExcept (askOwner (ask' row) d'.owner).1)
    rw [ha]
    exact Outcome.alike_refl _

end RowContext

theorem TypeField.ask_alike [Source σ] [Source τ] (hS : Source.Alike S) (f : TypeField)
    (row : InterfaceImplRow) :
    AnswerAlike S (· = ·) (f.ask (σ := σ) row) (f.ask (σ := τ) row) := by
  cases f with
  | classType => exact hS.resolveTypeDef row.classIndex
  | interfaceType => exact hS.resolveTypeDefOrRef row.interfaceIndex

namespace RowBacked

/-- Entities of the same row, with alike cells. -/
structure Alike (S : σ → τ → Prop) (e : RowBacked σ) (e' : RowBacked τ) : Prop where
  rid : e.rid = e'.rid
  row : e.row = e'.row
  field : ∀ f : TypeField, (f.cell e).Alike (RowContext.Alike S) (· = ·) (f.cell e')
  attributesCell :
    e.attributesCell.Alike (Option.Rel S) (LazyList.Alike (Option.Rel S)) e'.attributesCell

theorem attributesOf_alike [Source σ] [Source τ] (hS : Source.Alike S) (rid : UInt32) :
    AnswerAlike (Option.Rel S) (Outcome.Alike (LazyList.Alike (Option.Rel S)))
      (attributesOf (σ := σ) rid) (attributesOf (σ := τ) rid) := by
  intro owner owner' ho
  unfold attributesOf
  refine (askOwner_alike (hS.customAttributeRids (tokenOf rid))).elim ho fun r r' o o' hr ho' => ?_
  cases hr
  cases r with
  | error e => exact ⟨.error e, ho'⟩
  | ok rids => exact ⟨.value ⟨rfl, fun id => askOwner_alike (hS.readCustomAttribute id)⟩, ho'⟩

theorem unread_alike [Source σ] [Source τ] (hS : Source.Alike S) (rid : UInt32) :
    Alike S (unread rid : RowBacked σ) (unread rid : RowBacked τ) where
  rid := rfl
  row := rfl
  field f := by
    rw [f.cell_unread, f.cell_unread]
    exact .unresolved (RowContext.resolve_alike hS rid (f.ask_alike hS))
  attributesCell := .unresolved (attributesOf_alike hS rid)

theorem Alike.put {r : RowBacked σ} {r' : RowBacked τ} (h : r.Alike S r') (f : TypeField)
    {c : Deferred (RowContext σ) (Option CilType)} {c' : Deferred (RowContext τ) (Option CilType)}
    (hc : c.Alike (RowContext.Alike S) (· = ·) c') (row : Option InterfaceImplRow) :
    (f.put row c r).Alike S (f.put row c' r') where
  rid := by rw [f.rid_put, f.rid_put, h.rid]
  row := by rw [f.row_put, f.row_put]
  field g := by
    rw [TypeField.cell_put, TypeField.cell_put]
    split
    · exact hc
    · exact h.field g
  attributesCell := by
    rw [f.attributesCell_put, f.attributesCell_put]
    exact h.attributesCell

theorem Alike.attributes {r : RowBacked σ} {r' : RowBacked τ} (h : r.Alike S r')
    {c : Deferred (Option σ) (AttributeList σ)} {c' : Deferred (Option τ) (AttributeList τ)}
    (hc : c.Alike (Option.Rel S) (LazyList.Alike (Option.Rel S)) c') :
    Alike S { r with attributesCell := c } { r' with attributesCell := c' } where
  rid := h.rid
  row := h.row
  field f := by
    rw [f.cell_attributesCell r, f.cell_attributesCell r']
    exact h.field f
  attributesCell := hc

end RowBacked

/-! ### Requests -/

namespace Deferred

variable {V : α → α → Prop} {cell : Deferred σ α} {cell' : Deferred τ α}

theorem Alike.state_eq {β : Type} {V : α → β → Prop} {cell' : Deferred τ β}
    (h : cell.Alike S V cell') : cell.state = cell'.state := by
  cases h <;> rfl

theorem Alike.describe_eq (h : cell.Alike S (· = ·) cell') (text : α → String) :
    cell.describe text = cell'.describe text := by
  cases h with
  | resolved h => rw [h]; rfl
  | overridden h => rw [h]; rfl
  | _ => rfl

end Deferred

structure Authored.Alike (S : σ → τ → Prop) (a : Authored σ) (a' : Authored τ) : Prop where
  rid : a.rid = a'.rid
  classType : a.classType = a'.classType
  interfaceType : a.interfaceType = a'.interfaceType
  attributes : a.attributes.Alike (Option.Rel S) a'.attributes

theorem Authored.Alike.describe_eq {a : Authored σ} {a' : Authored τ} (h : a.Alike S a') :
    a.describe = a'.describe := by
  unfold Authored.describe LazyList.describe
  rw [h.rid, h.classType, h.interfaceType, h.attributes.slots]

theorem RowBacked.Alike.describe_eq {r : RowBacked σ} {r' : RowBacked τ} (h : r.Alike S r') :
    r.describe = r'.describe := by
  have hclass : r.classCell.Alike _ _ r'.classCell := h.field .classType
  have hinterface : r.interfaceCell.Alike _ _ r'.interfaceCell := h.field .interfaceType
  unfold RowBacked.describe
  rw [h.rid, hclass.describe_eq, hinterface.describe_eq, h.attributesCell.state_eq]

namespace InterfaceImpl

/-- Entities of the same kind and alike. -/
inductive Alike (S : σ → τ → Prop) : InterfaceImpl σ → InterfaceImpl τ → Prop
  | authored {a : Authored σ} {a' : Authored τ} (h : a.Alike S a') : Alike S (.authored a) (.authored a')
  | rowBacked {r : RowBacked σ} {r' : RowBacked τ} (h : r.Alike S r') :
    Alike S (.rowBacked r) (.rowBacked r')

variable {owner : Option σ} {owner' : Option τ}

theorem step_alike_authored {a : Authored σ} {a' : Authored τ} (h : a.Alike S a') (op : Op)
    (ho : Option.Rel S owner owner') :
    LeaveAlike (Option.Rel S) (Alike S) (step op (.authored a, owner))
      (step op (.authored a', owner')) := by
  cases op with
  | describe =>
    exact ⟨congrArg (fun t => Answer.text ("User(" ++ t ++ ")")) h.describe_eq, .authored h, ho⟩
  | attributes op =>
    obtain ⟨ha, hl, ho'⟩ := LazyList.step_alike h.attributes op ho
    exact ⟨congrArg (fun r => Answer.attributes (.value r)) ha, .authored { h with attributes := hl },
      ho'⟩
  | _ =>
    obtain ⟨rid, c, i, l⟩ := a
    obtain ⟨rid', c', i', l'⟩ := a'
    obtain ⟨rfl, rfl, rfl, hl⟩ := h
    exact ⟨rfl, .authored ⟨rfl, rfl, rfl, hl⟩, ho⟩

theorem step_alike_read {r : RowBacked σ} {r' : RowBacked τ} (h : r.Alike S r') (f : TypeField)
    (ho : Option.Rel S owner owner') :
    LeaveAlike (Option.Rel S) (Alike S) (step f.readOp (.rowBacked r, owner))
      (step f.readOp (.rowBacked r', owner')) := by
  obtain ⟨ha, hcell, hc⟩ := Deferred.read_alike (h.field f) (s := ⟨r.row, owner⟩)
    (t := ⟨r'.row, owner'⟩) ⟨h.row, ho⟩
  rw [f.step_readOp, f.step_readOp, hc.row]
  exact ⟨congrArg Answer.type ha.eq, .rowBacked (h.put f hcell _), hc.owner⟩

theorem step_alike_write {r : RowBacked σ} {r' : RowBacked τ} (h : r.Alike S r') (f : TypeField)
    (t : Option CilType) (ho : Option.Rel S owner owner') :
    LeaveAlike (Option.Rel S) (Alike S) (step (f.writeOp t) (.rowBacked r, owner))
      (step (f.writeOp t) (.rowBacked r', owner')) := by
  rw [f.step_writeOp, f.step_writeOp, h.row]
  exact ⟨rfl, .rowBacked (h.put f (.overridden rfl) _), ho⟩

theorem step_alike_rowBacked {r : RowBacked σ} {r' : RowBacked τ} (h : r.Alike S r') (op : Op)
    (ho : Option.Rel S owner owner') :
    LeaveAlike (Option.Rel S) (Alike S) (step op (.rowBacked r, owner))
      (step op (.rowBacked r', owner')) := by
  have hrid := h.rid
  cases op with
  | rid => exact ⟨congrArg Answer.rid hrid, .rowBacked h, ho⟩
  | token => exact ⟨by simp only [step, token, InterfaceImpl.rid, hrid], .rowBacked h, ho⟩
  | attributeIndex =>
    exact ⟨by simp only [step, attributeIndex?_eq_encode?, InterfaceImpl.rid, hrid], .rowBacked h, ho⟩
  | describe =>
    exact ⟨congrArg (fun t => Answer.text ("RowBacked(" ++ t ++ ")")) h.describe_eq, .rowBacked h, ho⟩
  | classState =>
    have hstate : r.classCell.state = r'.classCell.state := (h.field .classType).state_eq
    exact ⟨by simp only [step, classState?, hstate], .rowBacked h, ho⟩
  | interfaceState =>
    have hstate : r.interfaceCell.state = r'.interfaceCell.state := (h.field .interfaceType).state_eq
    exact ⟨by simp only [step, interfaceState?, hstate], .rowBacked h, ho⟩
  | isRowLoaded =>
    exact ⟨by simp only [step, isRowLoaded?, RowBacked.isRowLoaded, h.row], .rowBacked h, ho⟩
  | setRid rid => exact ⟨rfl, .rowBacked h, ho⟩
  | classType => exact step_alike_read h .classType ho
  | interfaceType => exact step_alike_read h .interfaceType ho
  | setClassType t => exact step_alike_write h .classType t ho
  | setInterfaceType t => exact step_alike_write h .interfaceType t ho
  | attributes op =>
    have hchange : ∀ (l : AttributeList σ) (l' : AttributeList τ) o o',
        l.Alike (Option.Rel S) l' → Option.Rel S o o' →
        LeaveAlike (Option.Rel S) (LazyList.Alike (Option.Rel S)) (LazyList.step op (l, o))
          (LazyList.step op (l', o')) := fun l l' o o' hl ho => LazyList.step_alike hl op ho
    obtain ⟨ha, hcell, ho'⟩ := Deferred.edit_alike hchange h.attributesCell ho
    exact ⟨congrArg Answer.attributes ha, .rowBacked (h.attributes hcell), ho'⟩

/-- **One request.**  Alike entities answer it alike and stay alike. -/
theorem step_alike {e : InterfaceImpl σ} {e' : InterfaceImpl τ} (h : e.Alike S e') (op : Op)
    (ho : Option.Rel S owner owner') :
    LeaveAlike (Option.Rel S) (Alike S) (step op (e, owner)) (step op (e', owner')) := by
  cases h with
  | authored h => exact step_alike_authored h op ho
  | rowBacked h => exact step_alike_rowBacked h op ho

/-- **Whole runs.**  Alike entities answer alike in every run. -/
theorem run_alike {e : InterfaceImpl σ} {e' : InterfaceImpl τ} (h : e.Alike S e')
    (ho : Option.Rel S owner owner') (ops : List Op) :
    (run step ops (e, owner)).1 = (run step ops (e', owner')).1 := by
  have hstep : ∀ op (p : InterfaceImpl σ × Option σ) (q : InterfaceImpl τ × Option τ), True →
      p.1.Alike S q.1 ∧ Option.Rel S p.2 q.2 →
      LeaveAlike (Option.Rel S) (Alike S) (step op p) (step op q) :=
    fun op p q _ hR => step_alike hR.1 op hR.2
  exact (run_simulates hstep (fun _ _ => trivial) ⟨h, ho⟩).1

theorem ofRow_alike [Source σ] [Source τ] (hS : Source.Alike S) {build : Build}
    {mode : ValidationMode} {rid : UInt32} (ho : Option.Rel S owner owner') {e : InterfaceImpl σ} {o : Option σ}
    (h : ofRow build mode rid owner = (.ok e, o)) :
    ∃ e' o', ofRow build mode rid owner' = (.ok e', o') ∧ e.Alike S e' ∧ Option.Rel S o o' := by
  cases ho with
  | none => cases h
  | @some s t hs =>
    have hunread := Alike.rowBacked (RowBacked.unread_alike hS rid)
    unfold ofRow RowBacked.bind at h ⊢
    cases hmode : mode.checksRowIds build with
    | false =>
      simp only [hmode] at h ⊢
      cases h
      exact ⟨_, _, rfl, hunread, .some hs⟩
    | true =>
      simp only [hmode] at h ⊢
      obtain ⟨ha, hs'⟩ := isValidRid_alike hS .interfaceImpl rid s t hs
      cases hv : Source.isValidRid .interfaceImpl rid s with
      | mk b s' =>
        cases hv' : Source.isValidRid .interfaceImpl rid t with
        | mk b' t' =>
          rw [hv, hv'] at ha hs'
          cases ha
          cases b <;> simp only [hv] at h <;> cases h
          exact ⟨_, _, rfl, hunread, .some hs'⟩

end InterfaceImpl

end CilMetadata

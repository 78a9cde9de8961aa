import CilMetadata.Proofs.InterfaceImpl.Interference
import CilMetadata.Proofs.InterfaceImpl.Owner
import CilMetadata.Proofs.LazyList.Orphan

/-!
# Entities whose owner is gone

When its owner goes away, an entity keeps what it has.  What was not asked for by then is answered
with the same error from then on, unless it is written; the list of attributes, if it was found, goes
on as a list whose reader fails.

* `resolve_orphan`: an unresolved field fails, whether or not the raw row is here;
* `lost_step`: a field that was unresolved when the owner went away;
* `orphaned_of_ofRow`: all requests to the entity of a row after its owner went away.
-/

namespace CilMetadata

variable {σ α : Type}

def TypeField.state? : TypeField → InterfaceImpl σ → Option Deferred.State
  | .classType, e => e.classState?
  | .interfaceType, e => e.interfaceState?

theorem TypeField.state?_rowBacked (f : TypeField) (r : RowBacked σ) :
    f.state? (.rowBacked r) = some (f.cell r).state := by
  cases f <;> rfl

theorem Deferred.gives_of_settled {cell : Deferred σ α} (h : cell.state ≠ .unresolved) (s : σ) :
    Gives (cell.read s).1 cell := by
  cases cell with
  | unresolved f => exact absurd rfl h
  | _ => exact fun _ => rfl

namespace InterfaceImpl

/-! ### Runs without an owner -/

/-- What happens if the owner goes away and the entity is asked further. -/
def afterDrop (past : List (Event σ)) (later : List Op) : List (Event σ) :=
  past ++ .owner (fun _ => none) :: later.map .ask

theorem run_map_ask (later : List Op) (p : InterfaceImpl σ × Option σ) :
    (run happen (later.map .ask) p).2 = (run step later p).2 := by
  induction later generalizing p with
  | nil => rfl
  | cons op later ih => exact ih (step op p).2

theorem ask_notMem {op : Op} {later : List Op} (h : op ∉ later) :
    (.ask op : Event σ) ∉ later.map .ask := by
  intro hmem
  obtain ⟨op', hop', heq⟩ := List.mem_map.mp hmem
  cases heq
  exact h hop'

theorem run_afterDrop (past : List (Event σ)) (later : List Op) (start : InterfaceImpl σ × Option σ) :
    (run happen (afterDrop past later) start).2 =
      (run step later ((run happen past start).2.1, none)).2 := by
  rw [afterDrop, run_append, run_cons, ← run_map_ask]
  rfl

theorem exists_gives_of_state? {f : TypeField} {r : RowBacked σ}
    (h : f.state? (.rowBacked r) ≠ some .unresolved) : ∃ o, Gives f o (.rowBacked r) := by
  rw [f.state?_rowBacked] at h
  exact ⟨_, Deferred.gives_of_settled (fun heq => h (congrArg some heq)) ⟨r.row, none⟩⟩

/-! ### Attributes that were not accessed -/

/-- The attributes of an entity that nobody has accessed. -/
def Unaccessed : InterfaceImpl σ → Prop
  | .authored _ => False
  | .rowBacked r => r.attributesCell.state = .unresolved

theorem unaccessed_step {p : InterfaceImpl σ × Option σ} (h : Unaccessed p.1) {op : Op}
    (hop : ∀ op', op ≠ .attributes op') : Unaccessed (step op p).2.1 := by
  obtain ⟨e, owner⟩ := p
  cases e with
  | authored a => cases h
  | rowBacked r =>
    obtain ⟨r', hr', hcell⟩ := attributesCell_step r hop owner
    rw [hr']
    rw [Unaccessed, ← hcell] at h
    exact h

theorem unaccessed_run {evs : List (Event σ)} (hevs : ∀ op, .ask (.attributes op) ∉ evs)
    {p : InterfaceImpl σ × Option σ} (h : Unaccessed p.1) : Unaccessed (run happen evs p).2.1 := by
  have hallowed : ∀ ev ∈ evs, ∀ op, ev ≠ .ask (.attributes op) :=
    fun ev hmem op heq => hevs op (heq ▸ hmem)
  refine run_preserves_of_mem (P := fun q : InterfaceImpl σ × Option σ => Unaccessed q.1) ?_ hallowed h
  intro ev q hev hq
  cases ev with
  | ask op => exact unaccessed_step hq fun op' heq => hev op' (congrArg Event.ask heq)
  | owner change => exact hq

end InterfaceImpl

/-! ### Fields -/

variable [Source σ]

/-- An unresolved field fails without an owner, whether or not the raw row is here. -/
theorem resolve_orphan (rid : UInt32) (ask : InterfaceImplRow → σ → Except Error α × σ)
    (row : Option InterfaceImplRow) :
    RowContext.resolve rid ask ⟨row, none⟩ = (.error .nullOwner, ⟨row, none⟩) := by
  cases row <;> rfl

namespace InterfaceImpl

def Alone (p : InterfaceImpl σ × Option σ) : Prop :=
  ∃ r : RowBacked σ, r.Bound ∧ p = (.rowBacked r, none)

theorem alone_step (op : Op) {p : InterfaceImpl σ × Option σ} (h : Alone p) : Alone (step op p).2 := by
  obtain ⟨r, hb, rfl⟩ := h
  have hnone : (step op (.rowBacked r, none)).2.2 = none := by
    have hback : LeadsBack (σ := σ) (·.isSome) := fun _ _ _ => rfl
    rw [← Option.not_isSome_iff_eq_none]
    exact fun hsome => Bool.false_ne_true (step_back hback hb op hsome)
  obtain ⟨r', hb', hr'⟩ := exists_bound_step hb op none
  exact ⟨r', hb', Prod.ext hr' hnone⟩

/-- A field that was not asked for before the owner went away. -/
def Lost (f : TypeField) : InterfaceImpl σ → Prop
  | .authored _ => False
  | .rowBacked r => (f.cell r).state = .unresolved ∨ f.cell r = .failed .nullOwner

/-- A read of such a field fails, and the error stays in the cell. -/
theorem step_readOp_of_lost {f : TypeField} {p : InterfaceImpl σ × Option σ} (halone : Alone p)
    (h : Lost f p.1) :
    (step f.readOp p).1 = .type (.error .nullOwner) ∧
      ∃ r, (step f.readOp p).2.1 = .rowBacked r ∧ f.cell r = .failed .nullOwner := by
  obtain ⟨r, hb, rfl⟩ := halone
  have hread : (f.cell r).read ⟨r.row, none⟩ =
      (.error .nullOwner, .failed .nullOwner, ⟨r.row, none⟩) := by
    rcases h with hstate | hcell
    · cases hc : f.cell r with
      | unresolved compute =>
        cases hb.field f compute hc
        simp only [Deferred.read, TypeField.find, resolve_orphan]
      | _ => rw [hc] at hstate; cases hstate
    · rw [hcell]
      rfl
  rw [f.step_readOp, hread]
  exact ⟨rfl, _, rfl, (TypeField.cell_put f f _ _ r).trans (if_pos rfl)⟩

theorem lost_step {f : TypeField} {p : InterfaceImpl σ × Option σ} (halone : Alone p) (h : Lost f p.1)
    {op : Op} (hop : ∀ t, op ≠ f.writeOp t) : Lost f (step op p).2.1 := by
  by_cases hread : op = f.readOp
  · obtain ⟨-, r', hr', hcell⟩ := step_readOp_of_lost halone h
    rw [hread, hr']
    exact .inr hcell
  · obtain ⟨r, -, rfl⟩ := halone
    obtain ⟨r', hr', hcell⟩ := cell_step r hread hop none
    rw [hr']
    rw [Lost, ← hcell] at h
    exact h

theorem lost_run {f : TypeField} {later : List Op} (hlater : ∀ t, f.writeOp t ∉ later)
    {p : InterfaceImpl σ × Option σ} (halone : Alone p) (h : Lost f p.1) :
    Alone (run step later p).2 ∧ Lost f (run step later p).2.1 := by
  have hallowed : ∀ op ∈ later, ∀ t, op ≠ f.writeOp t := fun op hmem t heq => hlater t (heq ▸ hmem)
  exact run_preserves_of_mem (P := fun q : InterfaceImpl σ × Option σ => Alone q ∧ Lost f q.1)
    (fun op q hop hq => ⟨alone_step op hq.1, lost_step hq.1 hq.2 hop⟩) hallowed ⟨halone, h⟩

/-- Once such a field was read, the error is its outcome, whatever becomes of the owner. -/
theorem failed_run {f : TypeField} {later : List Op} (hlater : ∀ t, f.writeOp t ∉ later)
    (hread : f.readOp ∈ later) {p : InterfaceImpl σ × Option σ} (halone : Alone p) (h : Lost f p.1) :
    ∃ r, (run step later p).2.1 = .rowBacked r ∧ f.cell r = .failed .nullOwner := by
  obtain ⟨r, hr⟩ : ∃ r, (run step later p).2.1 = .rowBacked r := by
    obtain ⟨r, -, hp⟩ := (lost_run hlater halone h).1
    exact ⟨r, congrArg Prod.fst hp⟩
  have hsettled : Settled f (run step later p).2.1 := by
    obtain ⟨before, after, rfl⟩ := List.append_of_mem hread
    rw [run_append, run_cons]
    exact run_preserves (P := fun q : InterfaceImpl σ × Option σ => Settled f q.1)
      (fun op q hq => step_settled hq op q.2) after (settled_readOp f _ _)
  have hlost := (lost_run hlater halone h).2
  rw [hr] at hlost hsettled
  exact ⟨r, hr, hlost.resolve_left hsettled⟩

/-! ### Attributes -/

theorem step_attributes_of_unaccessed {p : InterfaceImpl σ × Option σ} (halone : Alone p)
    (h : Unaccessed p.1) (op : LazyList.Op CustomAttribute) :
    (step (.attributes op) p).1 = .attributes (.error .nullOwner) ∧
      Fails .nullOwner (step (.attributes op) p).2.1 := by
  obtain ⟨r, hb, rfl⟩ := halone
  have hread : r.attributesCell.read none = (.error .nullOwner, .failed .nullOwner, none) := by
    cases hc : r.attributesCell with
    | unresolved compute =>
      cases hb.attributesCell compute hc
      rfl
    | _ => rw [Unaccessed, hc] at h; cases h
  simp only [step, editAttributes, RowBacked.editAttributes, Deferred.edit, hread]
  exact ⟨trivial, fun _ => rfl⟩

theorem unaccessed_or_fails_run (later : List Op) {p : InterfaceImpl σ × Option σ} (halone : Alone p)
    (h : Unaccessed p.1) :
    Alone (run step later p).2 ∧
      (Unaccessed (run step later p).2.1 ∨ Fails .nullOwner (run step later p).2.1) := by
  refine run_preserves (P := fun q : InterfaceImpl σ × Option σ =>
    Alone q ∧ (Unaccessed q.1 ∨ Fails .nullOwner q.1)) ?_ later ⟨halone, .inl h⟩
  rintro op q ⟨halone, h | h⟩
  · refine ⟨alone_step op halone, ?_⟩
    by_cases hop : ∃ op', op = .attributes op'
    · obtain ⟨op', rfl⟩ := hop
      exact .inr (step_attributes_of_unaccessed halone h op').2
    · exact .inl (unaccessed_step h fun op' heq => hop ⟨op', heq⟩)
  · exact ⟨alone_step op halone, .inr (fails_step h op q.2)⟩

def Op.attributes? : Op → Option (LazyList.Op CustomAttribute)
  | .attributes op => some op
  | _ => none

/-- The slots of the attributes after requests that are made without an owner. -/
def orphanSlots (later : List Op) (l : AttributeList σ) : List (LazyList.Slot CustomAttribute) :=
  (run (LazyList.orphanStep .nullOwner) (later.filterMap Op.attributes?) l.slots).2

theorem step_attributes_orphan {p : InterfaceImpl σ × Option σ} (halone : Alone p) {l : AttributeList σ}
    (hl : p.1.attributes? = some l) (op : LazyList.Op CustomAttribute) :
    (step (.attributes op) p).1 = .attributes (.value (LazyList.orphanStep .nullOwner op l.slots).1) ∧
      (step (.attributes op) p).2.1.attributes? =
        some { l with slots := (LazyList.orphanStep .nullOwner op l.slots).2 } := by
  obtain ⟨r, hb, rfl⟩ := halone
  have hread : ∀ id, LazyList.readId l.reader id none = (.error .nullOwner, none) := by
    intro id
    rw [hb.reader l hl]
    rfl
  obtain ⟨hans, hlist, -⟩ := step_attributes_of_attributes? hl op none
  rw [LazyList.step_orphan hread] at hans hlist
  exact ⟨hans, hlist⟩

theorem attributes?_orphan (later : List Op) {p : InterfaceImpl σ × Option σ} (halone : Alone p)
    {l : AttributeList σ} (hl : p.1.attributes? = some l) :
    Alone (run step later p).2 ∧
      (run step later p).2.1.attributes? = some { l with slots := orphanSlots later l } := by
  induction later generalizing p l with
  | nil => exact ⟨halone, hl⟩
  | cons op later ih =>
    cases hop : op.attributes? with
    | none =>
      have hstep : (step op p).2.1.attributes? = some l := by
        have hhappen := attributes?_happen (.ask op) hl
        cases op with
        | attributes aop => cases hop
        | _ => exact hhappen
      have hrun := ih (alone_step op halone) hstep
      rwa [orphanSlots, List.filterMap_cons_none hop]
    | some aop =>
      have hstep : (step op p).2.1.attributes? =
          some { l with slots := (LazyList.orphanStep .nullOwner aop l.slots).2 } := by
        cases op <;> cases hop
        exact (step_attributes_orphan halone hl aop).2
      have hrun := ih (alone_step op halone) hstep
      rwa [orphanSlots, List.filterMap_cons_some hop]

/-! ### Runs -/

/-- What an entity answers once its owner is gone, after any past. -/
structure Orphaned (start : InterfaceImpl σ × Option σ) (past : List (Event σ)) : Prop where
  /-- A field that was resolved, failed or written answers as before. -/
  settled : ∀ (f : TypeField) later, f.state? (run happen past start).2.1 ≠ some .unresolved →
    (∀ t, f.writeOp t ∉ later) →
    answerAfter (afterDrop past later) f.readOp start = answerAfter past f.readOp start
  /-- A field that was not resolved fails, ... -/
  unresolved : ∀ (f : TypeField) later, f.state? (run happen past start).2.1 = some .unresolved →
    (∀ t, f.writeOp t ∉ later) →
    answerAfter (afterDrop past later) f.readOp start = .type (.error .nullOwner)
  /-- ... the error of the first read stays in it, ... -/
  cached : ∀ (f : TypeField) later, f.state? (run happen past start).2.1 = some .unresolved →
    (∀ t, f.writeOp t ∉ later) → f.readOp ∈ later →
    f.state? (run happen (afterDrop past later) start).2.1 = some .failed ∧ ∀ owner,
      (step f.readOp ((run happen (afterDrop past later) start).2.1, owner)).1 = .type (.error .nullOwner)
  /-- ... and a written value takes its place, as in every field. -/
  written : ∀ (f : TypeField) before t after, (∀ t', f.writeOp t' ∉ after) →
    answerAfter (afterDrop past (before ++ f.writeOp t :: after)) f.readOp start = .type (.value t)
  /-- Attributes that were never accessed fail. -/
  unaccessed : ∀ later op, (∀ op', .ask (.attributes op') ∉ past) →
    answerAfter (afterDrop past later) (.attributes op) start = .attributes (.error .nullOwner)
  /-- Attributes that have failed fail as before. -/
  failed : ∀ later op before op' after err, past = before ++ .ask (.attributes op') :: after →
    answerAfter before (.attributes op') start = .attributes (.error err) →
    answerAfter (afterDrop past later) (.attributes op) start = .attributes (.error err)
  /-- Attributes that were found are a list from then on whose slots alone answer. -/
  found : ∀ before op' after a, past = before ++ .ask (.attributes op') :: after →
    answerAfter before (.attributes op') start = .attributes (.value a) →
    ∃ l, (run happen past start).2.1.attributes? = some l ∧ ∀ later,
      (run happen (afterDrop past later) start).2.1.attributes? =
        some { l with slots := orphanSlots later l } ∧
      ∀ op, answerAfter (afterDrop past later) (.attributes op) start =
        .attributes (.value (LazyList.orphanStep .nullOwner op (orphanSlots later l)).1)
  /-- Those that waited go on waiting, in their order, until the list is cleared. -/
  waiting : ∀ (l : AttributeList σ) later, .attributes .clear ∉ later →
    LazyList.waitingSlots (orphanSlots later l) = LazyList.waitingSlots l.slots
  /-- No entity is made without an owner. -/
  refused : ∀ build mode rid, ofRow build mode rid (none : Option σ) = (.error .nullOwner, none)

theorem exists_attributes?_run (rid : UInt32) (owner : Option σ) {before : List (Event σ)}
    {op : LazyList.Op CustomAttribute} {a : Except Error (LazyList.Answer CustomAttribute)}
    (ha : answerAfter before (.attributes op) (.rowBacked (.unread rid), owner) = .attributes (.value a))
    (after : List (Event σ)) :
    ∃ l, (run happen (before ++ .ask (.attributes op) :: after)
      (.rowBacked (.unread rid), owner)).2.1.attributes? = some l := by
  obtain ⟨r, o, hb, hp⟩ := bound_run rid owner before
  rw [answerAfter, hp] at ha
  obtain ⟨-, l, -, hl, -⟩ := found_of_step_attributes hb ha
  rw [run_happen_append_ask, hp]
  exact ⟨_, attributes?_run after hl⟩

/-- **Owners that go away.**  Whatever was asked of the entity of a row before its owner went away, and
whatever is asked of it then. -/
theorem orphaned_of_ofRow {build : Build} {mode : ValidationMode} {rid : UInt32} {owner owner' : Option σ}
    {e : InterfaceImpl σ} (h : ofRow build mode rid owner = (.ok e, owner')) (past : List (Event σ)) :
    Orphaned (e, owner') past := by
  obtain ⟨rfl, -⟩ := ofRow_eq_ok h
  obtain ⟨r, o, hb, hp⟩ := bound_run rid owner' past
  have halone : Alone (.rowBacked r, none) := ⟨r, hb, rfl⟩
  have hlost : ∀ {f : TypeField}, f.state? (.rowBacked r) = some .unresolved → Lost f (.rowBacked r) :=
    fun {f} hf => .inl (Option.some.inj ((f.state?_rowBacked r).symm.trans hf))
  constructor
  case settled =>
    intro f later hf hlater
    rw [hp] at hf
    obtain ⟨out, hgives⟩ := exists_gives_of_state? hf
    have hlast := gives_run (p := (.rowBacked r, none)) (fun t => ask_notMem (hlater t)) hgives
    rw [run_map_ask] at hlast
    rw [answerAfter, answerAfter, run_afterDrop, hp]
    exact (step_readOp_of_gives hlast _).trans (step_readOp_of_gives hgives o).symm
  case unresolved =>
    intro f later hf hlater
    rw [hp] at hf
    obtain ⟨halone', hlost'⟩ := lost_run hlater halone (hlost hf)
    rw [answerAfter, run_afterDrop, hp]
    exact (step_readOp_of_lost halone' hlost').1
  case cached =>
    intro f later hf hlater hread
    rw [hp] at hf
    obtain ⟨r', hr', hcell⟩ := failed_run hlater hread halone (hlost hf)
    rw [run_afterDrop, hp, hr']
    refine ⟨by rw [f.state?_rowBacked, hcell]; rfl, fun owner => ?_⟩
    rw [f.step_readOp, hcell]
    rfl
  case written =>
    intro f before t after hafter
    have hsplit : afterDrop past (before ++ f.writeOp t :: after) =
        (afterDrop past before ++ .ask (f.writeOp t) :: after.map .ask : List (Event σ)) := by
      simp [afterDrop]
    obtain ⟨r', o', -, hp'⟩ := bound_run rid owner' (afterDrop past before)
    rw [answerAfter, hsplit, run_happen_append_ask, hp']
    exact step_readOp_of_gives (gives_run (fun t' => ask_notMem (hafter t')) (gives_writeOp t r' o')) _
  case unaccessed =>
    intro later op hpast
    have hun := unaccessed_run (p := (.rowBacked (.unread rid), owner')) hpast rfl
    rw [hp] at hun
    obtain ⟨halone', hun' | hfails⟩ := unaccessed_or_fails_run later halone hun
    · rw [answerAfter, run_afterDrop, hp]
      exact (step_attributes_of_unaccessed halone' hun' op).1
    · rw [answerAfter, run_afterDrop, hp]
      exact congrArg Prod.fst (step_attributes_of_fails hfails op _)
  case failed =>
    rintro later op before op' after err rfl herr
    obtain ⟨r', o', hb', hp'⟩ := bound_run rid owner' before
    rw [answerAfter, hp'] at herr
    rw [answerAfter, afterDrop, List.append_assoc, List.cons_append, run_happen_append_ask, hp']
    have hfails := fails_run (after ++ .owner (fun _ => none) :: later.map .ask)
      (fails_of_step_attributes hb' herr)
    exact congrArg Prod.fst (step_attributes_of_fails hfails op _)
  case found =>
    rintro before op' after a rfl ha
    obtain ⟨l, hl⟩ := exists_attributes?_run rid owner' ha after
    refine ⟨l, hl, fun later => ?_⟩
    rw [hp] at hl
    obtain ⟨halone', hl'⟩ := attributes?_orphan later halone hl
    simp only [answerAfter, run_afterDrop, hp]
    exact ⟨hl', fun op => (step_attributes_orphan halone' hl' op).1⟩
  case waiting =>
    intro l later hclear
    refine LazyList.waitingSlots_run _ (fun hmem => hclear ?_) l.slots
    obtain ⟨op, hop, heq⟩ := List.mem_filterMap.mp hmem
    cases op <;> cases heq
    exact hop
  case refused =>
    intro build mode rid'
    rfl

/-- The class and the first attribute were asked for before the owner went away, the interface and the
second attribute were not. -/
theorem orphaned_of_ofRow_oneRow :
    let start : InterfaceImpl Source.Scripted × Option Source.Scripted :=
      (.rowBacked (.unread 1), some oneRow)
    let past : List (Event Source.Scripted) := [.ask .classType, .ask (.attributes (.get 0))]
    let later : List Op := [.interfaceType, .attributes (.push (marker 9))]
    ofRow .debug .strict 1 (some oneRow) = (.ok start.1, start.2) ∧ Orphaned start past ∧
      answerAfter (afterDrop past later) .classType start = .type (.value (some circle)) ∧
      answerAfter (afterDrop past later) .interfaceType start = .type (.error .nullOwner) ∧
      answerAfter (afterDrop past later) (.attributes (.get 0)) start =
        .attributes (.value (.ok (.item? (some (marker 8))))) ∧
      answerAfter (afterDrop past later) (.attributes (.get 1)) start =
        .attributes (.value (.error .nullOwner)) ∧
      answerAfter (afterDrop past later) (.attributes (.get 2)) start =
        .attributes (.value (.ok (.item? (some (marker 9))))) := by
  intro start past later
  have hrow : ofRow .debug .strict 1 (some oneRow) = (.ok start.1, start.2) := rfl
  have horphaned := orphaned_of_ofRow hrow past
  have hclass := horphaned.settled .classType later nofun (by simp [later, TypeField.writeOp])
  have hinterface := horphaned.unresolved .interfaceType later rfl (by simp [later, TypeField.writeOp])
  obtain ⟨l, hl, hslots⟩ := horphaned.found [.ask .classType] (.get 0) [] _ rfl rfl
  cases hl
  have hlist := (hslots later).2
  exact ⟨hrow, horphaned, hclass, hinterface, hlist (.get 0), hlist (.get 1), hlist (.get 2)⟩

end InterfaceImpl

end CilMetadata

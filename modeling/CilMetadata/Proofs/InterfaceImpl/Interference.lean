import CilMetadata.Proofs.InterfaceImpl.Settled
import CilMetadata.Source.Scripted

/-!
# Entities and sources that change

Between the requests to an entity its source may change in any way, or go away.  A field that has
answered once, or was written, does not take notice: it goes on answering the same until it is
written again, whatever happens to the source, the other field and the attributes.

* `gives_happen`: a field that gives an answer goes on giving it;
* `step_attributes_cases`: what an access to the attributes comes to;
* `stays_of_ofRow`: what a field of the entity of a row has answered stays.
-/

namespace CilMetadata

variable {σ α β : Type}

/-! ### Cells that give an answer -/

namespace Deferred

/-- Every read of the cell gives the same answer, and no read changes anything. -/
def Gives (o : Outcome α) (cell : Deferred σ α) : Prop := ∀ s, cell.read s = (o, cell, s)

theorem gives_read {cell : Deferred σ α} {s : σ} (h : (cell.read s).1 ≠ .aborted) :
    Gives (cell.read s).1 (cell.read s).2.1 := fun t => read_again (s := s) rfl h t

theorem gives_write (v : α) (cell : Deferred σ α) : Gives (.value v) (cell.write v) :=
  fun s => read_write v cell s

/-- A computation that always comes to an end makes a cell that always answers. -/
theorem read_eq_ofExcept {compute : σ → Outcome α × σ} (hc : ∀ s, ∃ r, (compute s).1 = .ofExcept r)
    {cell : Deferred σ α} (ha : cell.Awaits compute) (s : σ) : ∃ r, (cell.read s).1 = .ofExcept r := by
  cases cell with
  | unresolved f =>
    cases ha f rfl
    obtain ⟨r, hr⟩ := hc s
    rw [(read_of_unresolved ha rfl s).1]
    exact ⟨r, hr⟩
  | resolving => exact ⟨.error incomplete, rfl⟩
  | resolved v => exact ⟨.ok v, rfl⟩
  | failed e => exact ⟨.error e, rfl⟩
  | overridden v => exact ⟨.ok v, rfl⟩

theorem ofExcept_ne_aborted (r : Except Error α) : Outcome.ofExcept r ≠ .aborted := by
  cases r <;> exact nofun

end Deferred

/-! ### What can happen -/

namespace InterfaceImpl

/-- What can happen to an entity and its owner. -/
inductive Event (σ : Type) where
  /-- the entity is asked -/
  | ask (op : Op)
  /-- someone else changes the owner, or drops it -/
  | owner (change : Option σ → Option σ)

/-- Lets something happen; answers what was asked. -/
def happen : Event σ → InterfaceImpl σ × Option σ → Option Answer × InterfaceImpl σ × Option σ
  | .ask op, p => (some (step op p).1, (step op p).2)
  | .owner change, (e, owner) => (none, e, change owner)

/-- A field of a row-backed entity gives the same answer to every read. -/
def Gives (f : TypeField) (o : Outcome (Option CilType)) : InterfaceImpl σ → Prop
  | .authored _ => False
  | .rowBacked r => (f.cell r).Gives o

variable {f : TypeField} {o : Outcome (Option CilType)} {e : InterfaceImpl σ}

theorem step_readOp_of_gives (h : Gives f o e) (owner : Option σ) :
    (step f.readOp (e, owner)).1 = .type o := by
  cases e with
  | authored a => cases h
  | rowBacked r =>
    rw [f.step_readOp, h]

/-- **Frame.**  The cell of a field is changed by requests to the field only. -/
theorem cell_step (r : RowBacked σ) {op : Op} (hread : op ≠ f.readOp) (hwrite : ∀ t, op ≠ f.writeOp t)
    (owner : Option σ) :
    ∃ r', (step op (.rowBacked r, owner)).2.1 = .rowBacked r' ∧ f.cell r' = f.cell r := by
  induction op using Op.byField with
  | read g =>
    have hg : f ≠ g := fun hg => hread (hg ▸ rfl)
    rw [g.step_readOp]
    exact ⟨_, rfl, (TypeField.cell_put g f _ _ r).trans (if_neg hg)⟩
  | write g t =>
    have hg : f ≠ g := fun hg => hwrite t (hg ▸ rfl)
    rw [g.step_writeOp]
    exact ⟨_, rfl, (TypeField.cell_put g f _ _ r).trans (if_neg hg)⟩
  | attributes op => exact ⟨_, rfl, f.cell_attributesCell r _⟩
  | other op hother =>
    rw [hother]
    exact ⟨r, rfl, rfl⟩

theorem attributesCell_step (r : RowBacked σ) {op : Op} (hop : ∀ op', op ≠ .attributes op')
    (owner : Option σ) :
    ∃ r', (step op (.rowBacked r, owner)).2.1 = .rowBacked r' ∧ r'.attributesCell = r.attributesCell := by
  induction op using Op.byField with
  | read g =>
    rw [g.step_readOp]
    exact ⟨_, rfl, g.attributesCell_put _ _ r⟩
  | write g t =>
    rw [g.step_writeOp]
    exact ⟨_, rfl, g.attributesCell_put _ _ r⟩
  | attributes op => exact absurd rfl (hop op)
  | other op hother =>
    rw [hother]
    exact ⟨r, rfl, rfl⟩

theorem gives_step (h : Gives f o e) {op : Op} (hop : ∀ t, op ≠ f.writeOp t) (owner : Option σ) :
    Gives f o (step op (e, owner)).2.1 := by
  cases e with
  | authored a => cases h
  | rowBacked r =>
    by_cases hread : op = f.readOp
    · rw [hread, f.step_readOp, h]
      show (f.cell (f.put _ _ r)).Gives o
      rwa [TypeField.cell_put, if_pos rfl]
    · obtain ⟨r', hr', hcell⟩ := cell_step r hread hop owner
      rw [hr']
      exact (hcell ▸ h : (f.cell r').Gives o)

theorem gives_happen {ev : Event σ} (hev : ∀ t, ev ≠ .ask (f.writeOp t)) {p : InterfaceImpl σ × Option σ}
    (h : Gives f o p.1) : Gives f o (happen ev p).2.1 := by
  cases ev with
  | ask op => exact gives_step h (fun t hop => hev t (congrArg Event.ask hop)) p.2
  | owner change => exact h

theorem gives_run {evs : List (Event σ)} (hevs : ∀ t, .ask (f.writeOp t) ∉ evs)
    {p : InterfaceImpl σ × Option σ} (h : Gives f o p.1) : Gives f o (run happen evs p).2.1 := by
  have hallowed : ∀ ev ∈ evs, ∀ t, ev ≠ .ask (f.writeOp t) := fun ev hmem t heq => hevs t (heq ▸ hmem)
  exact run_preserves_of_mem (P := fun q : InterfaceImpl σ × Option σ => Gives f o q.1)
    (fun ev q hev hq => gives_happen hev hq) hallowed h

/-- The attributes of a row-backed entity are not to be had. -/
def Fails (err : Error) : InterfaceImpl σ → Prop
  | .authored _ => False
  | .rowBacked r => r.attributesCell.Gives (.error err)

theorem step_attributes_of_fails {err : Error} (h : Fails err e) (op : LazyList.Op CustomAttribute)
    (owner : Option σ) : step (.attributes op) (e, owner) = (.attributes (.error err), e, owner) := by
  cases e with
  | authored a => cases h
  | rowBacked r =>
    have hr := h owner
    simp only [step, editAttributes, RowBacked.editAttributes, Deferred.edit, hr]

theorem fails_step {err : Error} (h : Fails err e) (op : Op) (owner : Option σ) :
    Fails err (step op (e, owner)).2.1 := by
  cases e with
  | authored a => cases h
  | rowBacked r =>
    by_cases hop : ∃ op', op = .attributes op'
    · obtain ⟨op', rfl⟩ := hop
      rwa [step_attributes_of_fails h]
    · obtain ⟨r', hr', hcell⟩ := attributesCell_step r (fun op' heq => hop ⟨op', heq⟩) owner
      rw [hr']
      exact (hcell ▸ h : r'.attributesCell.Gives (.error err))

theorem fails_happen {err : Error} (ev : Event σ) {p : InterfaceImpl σ × Option σ} (h : Fails err p.1) :
    Fails err (happen ev p).2.1 := by
  cases ev with
  | ask op => exact fails_step h op p.2
  | owner change => exact h

theorem fails_run {err : Error} (evs : List (Event σ)) {p : InterfaceImpl σ × Option σ}
    (h : Fails err p.1) : Fails err (run happen evs p).2.1 :=
  run_preserves (P := fun q : InterfaceImpl σ × Option σ => Fails err q.1)
    (fun ev _ hq => fails_happen ev hq) evs h

/-- The list of attributes after something that happens, if it was there before. -/
def edited (ev : Event σ) (p : InterfaceImpl σ × Option σ) (l : AttributeList σ) : AttributeList σ :=
  match ev with
  | .ask (.attributes op) => (LazyList.step op (l, p.2)).2.1
  | _ => l

/-- The list of attributes after all that happens, with the edits made to it and nothing else. -/
def editedAll : List (Event σ) → InterfaceImpl σ × Option σ → AttributeList σ → AttributeList σ
  | [], _, l => l
  | ev :: evs, p, l => editedAll evs (happen ev p).2 (edited ev p l)

theorem step_attributes_of_attributes? {l : AttributeList σ} (h : e.attributes? = some l)
    (op : LazyList.Op CustomAttribute) (owner : Option σ) :
    (step (.attributes op) (e, owner)).1 = .attributes (.value (LazyList.step op (l, owner)).1) ∧
      (step (.attributes op) (e, owner)).2.1.attributes? = some (LazyList.step op (l, owner)).2.1 ∧
      (step (.attributes op) (e, owner)).2.2 = (LazyList.step op (l, owner)).2.2 := by
  cases e with
  | authored a =>
    cases h
    exact ⟨rfl, rfl, rfl⟩
  | rowBacked r =>
    have hedit := Deferred.edit_of_peek (h : r.attributesCell.peek = some l)
      (fun l owner => LazyList.step op (l, owner)) owner
    simp [step, editAttributes, RowBacked.editAttributes, hedit, attributes?, Deferred.peek]

theorem attributes?_happen {l : AttributeList σ} (ev : Event σ) {p : InterfaceImpl σ × Option σ}
    (h : p.1.attributes? = some l) : (happen ev p).2.1.attributes? = some (edited ev p l) := by
  obtain ⟨e, owner⟩ := p
  cases ev with
  | owner change => exact h
  | ask op =>
    cases op with
    | attributes op => exact (step_attributes_of_attributes? h op owner).2.1
    | classType => cases e <;> exact h
    | interfaceType => cases e <;> exact h
    | setRid rid => cases e <;> exact h
    | setClassType t => cases e <;> exact h
    | setInterfaceType t => cases e <;> exact h
    | _ => exact h

theorem attributes?_run {l : AttributeList σ} (evs : List (Event σ)) {p : InterfaceImpl σ × Option σ}
    (h : p.1.attributes? = some l) : (run happen evs p).2.1.attributes? = some (editedAll evs p l) := by
  induction evs generalizing p l with
  | nil => exact h
  | cons ev evs ih => exact ih (attributes?_happen ev h)

theorem gives_writeOp (t : Option CilType) (r : RowBacked σ) (owner : Option σ) :
    Gives f (.value t) (step (f.writeOp t) (.rowBacked r, owner)).2.1 := by
  rw [f.step_writeOp]
  show (f.cell (f.put _ _ r)).Gives _
  rw [TypeField.cell_put, if_pos rfl]
  exact Deferred.gives_write t _

/-- What an entity answers to a request after all that happened. -/
def answerAfter (evs : List (Event σ)) (op : Op) (start : InterfaceImpl σ × Option σ) : Answer :=
  (step op (run happen evs start).2).1

theorem run_happen_append_ask (past mid : List (Event σ)) (op : Op) (start : InterfaceImpl σ × Option σ) :
    (run happen (past ++ .ask op :: mid) start).2 =
      (run happen mid (step op (run happen past start).2).2).2 := by
  rw [run_append]
  rfl

end InterfaceImpl

variable [Source σ]

/-! ### Answers that come -/

theorem RowContext.resolve_eq_ofExcept {rid : UInt32} {ask : InterfaceImplRow → σ → Except Error α × σ}
    (c : RowContext σ) : ∃ r, (c.resolve rid ask).1 = .ofExcept r := by
  unfold RowContext.resolve
  split
  · exact ⟨.error _, rfl⟩
  · exact ⟨_, rfl⟩

namespace RowBacked

theorem attributesOf_eq_ofExcept (rid : UInt32) (owner : Option σ) :
    ∃ r, (attributesOf rid owner).1 = .ofExcept r :=
  ⟨_, rfl⟩

theorem Bound.read_eq_ofExcept {r : RowBacked σ} (h : r.Bound) (f : TypeField) (c : RowContext σ) :
    ∃ a, ((f.cell r).read c).1 = .ofExcept a :=
  Deferred.read_eq_ofExcept RowContext.resolve_eq_ofExcept (h.field f) c

/-- **Attributes.**  An access to the attributes of an entity finds a list, which stays as the access
leaves it, or an error, which stays. -/
theorem Bound.editAttributes_cases {r : RowBacked σ} (h : r.Bound) (op : LazyList.Op CustomAttribute)
    (owner : Option σ) :
    (∃ l o, r.editAttributes (fun l owner => LazyList.step op (l, owner)) owner =
        (.value (LazyList.step op (l, o)).1,
          { r with attributesCell := .overridden (LazyList.step op (l, o)).2.1 },
          (LazyList.step op (l, o)).2.2)) ∨
      ∃ err cell o, r.editAttributes (fun l owner => LazyList.step op (l, owner)) owner =
        (.error err, { r with attributesCell := cell }, o) ∧ cell.Gives (.error err) := by
  have hgives : ∀ o, (r.attributesCell.read owner).1 = o → o ≠ .aborted →
      (r.attributesCell.read owner).2.1.Gives o := fun o ho hne => ho ▸ Deferred.gives_read (ho ▸ hne)
  obtain ⟨a, ha⟩ :=
    Deferred.read_eq_ofExcept (attributesOf_eq_ofExcept r.rid) h.attributesCell owner
  cases hr : r.attributesCell.read owner with
  | mk o p =>
    rw [hr] at ha hgives
    cases a with
    | ok l =>
      cases ha
      exact .inl ⟨l, p.2, by simp only [editAttributes, Deferred.edit, hr]⟩
    | error err =>
      cases ha
      exact .inr ⟨err, p.1, p.2, by simp only [editAttributes, Deferred.edit, hr],
        hgives _ rfl (Deferred.ofExcept_ne_aborted (.error err))⟩

end RowBacked

/-! ### Runs -/

namespace InterfaceImpl

theorem bound_run (rid : UInt32) (owner : Option σ) (evs : List (Event σ)) :
    ∃ (r : RowBacked σ) (o : Option σ), r.Bound ∧
      (run happen evs (.rowBacked (.unread rid), owner)).2 = (.rowBacked r, o) := by
  refine run_preserves (P := fun p : InterfaceImpl σ × Option σ =>
    ∃ (r : RowBacked σ) (o : Option σ), r.Bound ∧ p = (.rowBacked r, o)) ?_ evs
    ⟨.unread rid, owner, RowBacked.bound_unread rid, rfl⟩
  rintro ev p ⟨r, o, hb, rfl⟩
  cases ev with
  | owner change => exact ⟨r, change o, hb, rfl⟩
  | ask op =>
    obtain ⟨r', hb', hr'⟩ := exists_bound_step hb op o
    exact ⟨r', _, hb', Prod.ext hr' rfl⟩

/-- A field that is read comes to an answer, and gives it from then on. -/
theorem step_readOp_gives {r : RowBacked σ} (hb : r.Bound) (f : TypeField) (owner : Option σ) :
    ∃ a, (step f.readOp (.rowBacked r, owner)).1 = .type (.ofExcept a) ∧
      Gives f (.ofExcept a) (step f.readOp (.rowBacked r, owner)).2.1 := by
  obtain ⟨a, ha⟩ := hb.read_eq_ofExcept f ⟨r.row, owner⟩
  refine ⟨a, ?_, ?_⟩
  · rw [f.step_readOp, ha]
  · rw [f.step_readOp]
    show (f.cell (f.put _ _ r)).Gives _
    rw [TypeField.cell_put, if_pos rfl, ← ha]
    exact Deferred.gives_read (ha ▸ Deferred.ofExcept_ne_aborted a)

theorem step_attributes_cases {r : RowBacked σ} (hb : r.Bound) (op : LazyList.Op CustomAttribute)
    (owner : Option σ) :
    (∃ l o,
      (step (.attributes op) (.rowBacked r, owner)).1 =
        .attributes (.value (LazyList.step op (l, o)).1) ∧
      (step (.attributes op) (.rowBacked r, owner)).2.1.attributes? =
        some (LazyList.step op (l, o)).2.1 ∧
      (step (.attributes op) (.rowBacked r, owner)).2.2 = (LazyList.step op (l, o)).2.2) ∨
    ∃ err, (step (.attributes op) (.rowBacked r, owner)).1 = .attributes (.error err) ∧
      Fails err (step (.attributes op) (.rowBacked r, owner)).2.1 := by
  rcases hb.editAttributes_cases op owner with ⟨l, o, heq⟩ | ⟨err, cell, o, heq, hgives⟩ <;>
    simp only [step, editAttributes, heq]
  · exact .inl ⟨l, o, rfl, rfl, rfl⟩
  · exact .inr ⟨err, rfl, hgives⟩

theorem fails_of_step_attributes {r : RowBacked σ} (hb : r.Bound) {op : LazyList.Op CustomAttribute}
    {owner : Option σ} {err : Error}
    (h : (step (.attributes op) (.rowBacked r, owner)).1 = .attributes (.error err)) :
    Fails err (step (.attributes op) (.rowBacked r, owner)).2.1 := by
  rcases step_attributes_cases hb op owner with ⟨l, o, ha, -⟩ | ⟨err', ha, hfails⟩ <;> rw [ha] at h
  · cases h
  · cases h
    exact hfails

theorem found_of_step_attributes {r : RowBacked σ} (hb : r.Bound) {op : LazyList.Op CustomAttribute}
    {owner : Option σ} {a : Except Error (LazyList.Answer CustomAttribute)}
    (h : (step (.attributes op) (.rowBacked r, owner)).1 = .attributes (.value a)) :
    ∃ l l' o, (step (.attributes op) (.rowBacked r, owner)).2.1.attributes? = some l' ∧
      LazyList.step op (l, o) = (a, l', (step (.attributes op) (.rowBacked r, owner)).2.2) := by
  rcases step_attributes_cases hb op owner with ⟨l, o, ha, hl, ho⟩ | ⟨err, ha, -⟩ <;> rw [ha] at h
  · cases h
    exact ⟨l, _, o, hl, Prod.ext rfl (Prod.ext rfl ho.symm)⟩
  · cases h

/-- What an entity has answered about a field or its attributes stays, whatever happens to its owner
and the rest of the entity. -/
structure Stays (start : InterfaceImpl σ × Option σ) : Prop where
  /-- A read of a field has an answer, and later reads have the same until the field is written. -/
  read : ∀ (f : TypeField) past mid, (∀ t, .ask (f.writeOp t) ∉ mid) →
    ∃ r : Except Error (Option CilType), answerAfter past f.readOp start = .type (.ofExcept r) ∧
      answerAfter (past ++ .ask f.readOp :: mid) f.readOp start = .type (.ofExcept r)
  /-- What is written is read until the field is written again. -/
  write : ∀ (f : TypeField) t past mid, (∀ t', .ask (f.writeOp t') ∉ mid) →
    answerAfter (past ++ .ask (f.writeOp t) :: mid) f.readOp start = .type (.value t)
  /-- An access to the attributes finds them or fails. -/
  attributes : ∀ past op, ∃ r : Except Error (Except Error (LazyList.Answer CustomAttribute)),
    answerAfter past (.attributes op) start = .attributes (.ofExcept r)
  /-- Once it has failed, it fails. -/
  failed : ∀ past op err, answerAfter past (.attributes op) start = .attributes (.error err) → ∀ mid op',
    answerAfter (past ++ .ask (.attributes op) :: mid) (.attributes op') start = .attributes (.error err)
  /-- Once it has found them, there is one list, changed by the requests to it and by nothing else. -/
  found : ∀ past op a, answerAfter past (.attributes op) start = .attributes (.value a) →
    ∃ (l l' : AttributeList σ) (o : Option σ) (next : InterfaceImpl σ × Option σ),
      (step (.attributes op) (run happen past start).2).2 = next ∧ next.1.attributes? = some l' ∧
      LazyList.step op (l, o) = (a, l', next.2) ∧ ∀ mid op',
        answerAfter (past ++ .ask (.attributes op) :: mid) (.attributes op') start =
          .attributes (.value (LazyList.step op' (editedAll mid next l', (run happen mid next).2.2)).1)

/-- **Settled fields.**  What the entity of a row has answered stays answered, in every interleaving of
requests with changes of the source. -/
theorem stays_of_ofRow {build : Build} {mode : ValidationMode} {rid : UInt32} {owner owner' : Option σ}
    {e : InterfaceImpl σ} (h : ofRow build mode rid owner = (.ok e, owner')) : Stays (e, owner') := by
  obtain ⟨rfl, -⟩ := ofRow_eq_ok h
  constructor
  case read =>
    intro f past mid hmid
    obtain ⟨r, o, hb, hp⟩ := bound_run rid owner' past
    obtain ⟨a, ha, hgives⟩ := step_readOp_gives hb f o
    simp only [answerAfter, run_happen_append_ask, hp]
    exact ⟨a, ha, step_readOp_of_gives (gives_run hmid hgives) _⟩
  case write =>
    intro f t past mid hmid
    obtain ⟨r, o, -, hp⟩ := bound_run rid owner' past
    simp only [answerAfter, run_happen_append_ask, hp]
    exact step_readOp_of_gives (gives_run hmid (gives_writeOp t r o)) _
  case attributes =>
    intro past op
    obtain ⟨r, o, hb, hp⟩ := bound_run rid owner' past
    simp only [answerAfter, hp]
    rcases step_attributes_cases hb op o with ⟨l, o', ha, -⟩ | ⟨err, herr, -⟩
    · exact ⟨.ok _, ha⟩
    · exact ⟨.error err, herr⟩
  case failed =>
    intro past op err herr mid op'
    obtain ⟨r, o, hb, hp⟩ := bound_run rid owner' past
    simp only [answerAfter, run_happen_append_ask, hp] at herr ⊢
    rw [step_attributes_of_fails (fails_run mid (fails_of_step_attributes hb herr))]
  case found =>
    intro past op a ha
    obtain ⟨r, o, hb, hp⟩ := bound_run rid owner' past
    simp only [answerAfter, run_happen_append_ask, hp] at ha ⊢
    obtain ⟨l, l', o', hl', hstep⟩ := found_of_step_attributes hb ha
    refine ⟨l, l', o', _, rfl, hl', hstep, fun mid op' => ?_⟩
    exact (step_attributes_of_attributes? (attributes?_run mid hl') op' _).1

def circle : CilType := ⟨Token.ofParts .typeDef 2, "Shapes", "Circle", ⟨0x101⟩⟩

def marker (id : UInt32) : CustomAttribute :=
  ⟨id, Token.ofParts .customAttribute id, 0, RowBacked.tokenOf 1, Token.ofParts .methodDef 1, [1]⟩

/-- A source of one row with a class and two attributes. -/
def oneRow : Source.Scripted where
  rowCounts := [(.interfaceImpl, 1)]
  rows := [(1, .ok ⟨2, ⟨.typeRef, 3⟩⟩)]
  typeDefs := [(2, .ok (some circle))]
  types := []
  rids := [(RowBacked.tokenOf 1, .ok [8, 3])]
  attributes := [(8, .ok (marker 8)), (3, .ok (marker 3))]
  numbered := false
  handedOut := 0

/-- The source without the class and without the attributes. -/
def bareRow : Source.Scripted :=
  { oneRow with typeDefs := [(2, .ok none)], rids := [], attributes := [] }

/-- The class and the list are those of the first source, and so is the attribute that was loaded. -/
theorem stays_of_ofRow_oneRow :
    let start : InterfaceImpl Source.Scripted × Option Source.Scripted :=
      (.rowBacked (.unread 1), some oneRow)
    let changed : Event Source.Scripted := .owner fun _ => some bareRow
    ofRow .debug .strict 1 (some oneRow) = (.ok start.1, start.2) ∧ Stays start ∧
      answerAfter [.ask .classType, changed] .classType start = .type (.value (some circle)) ∧
      answerAfter [.ask (.attributes (.get 0)), changed] (.attributes .length) start =
        .attributes (.value (.ok (.count 2))) ∧
      answerAfter [.ask (.attributes (.get 0)), changed] (.attributes (.get 0)) start =
        .attributes (.value (.ok (.item? (some (marker 8))))) := by
  intro start changed
  have hrow : ofRow .debug .strict 1 (some oneRow) = (.ok start.1, start.2) := rfl
  have hstays := stays_of_ofRow hrow
  obtain ⟨r, hfirst, hclass⟩ := hstays.read .classType [] [changed] (by simp [changed])
  have hcircle : answerAfter [] (TypeField.readOp .classType) start = .type (.value (some circle)) := rfl
  rw [← hfirst, hcircle] at hclass
  obtain ⟨l, l', o, next, rfl, hl', -, hlist⟩ := hstays.found [] (.get 0) _ rfl
  cases hl'
  exact ⟨hrow, hstays, hclass, hlist [changed] .length, hlist [changed] (.get 0)⟩

end InterfaceImpl

end CilMetadata

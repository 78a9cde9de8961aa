import CilMetadata.Deferred
import CilMetadata.LazyList
import CilMetadata.Source

/-!
# Sources that answer alike

Two sources are alike if related states answer every call alike and stay related.  Cells and lists
that were made in front of them are then alike too, and answer alike: of a source they see nothing
but its answers.

* `Deferred.read_alike`, `Deferred.edit_alike`: requests to alike cells;
* `LazyList.step_alike`: requests to alike lists.
-/

namespace CilMetadata

variable {σ τ α β γ : Type} {S : σ → τ → Prop}

/-- Functions that answer alike in related states, and leave related states. -/
def AnswerAlike (S : σ → τ → Prop) (A : α → β → Prop) (f : σ → α × σ) (g : τ → β × τ) : Prop :=
  ∀ s t, S s t → A (f s).1 (g t).1 ∧ S (f s).2 (g t).2

/-- Answers that are equal, with related things they leave and related states. -/
def LeaveAlike (S : σ → τ → Prop) (V : α → β → Prop) (p : γ × α × σ) (q : γ × β × τ) : Prop :=
  p.1 = q.1 ∧ V p.2.1 q.2.1 ∧ S p.2.2 q.2.2

/-- What holds of the results of alike functions is shown for one answer. -/
@[elab_as_elim] theorem AnswerAlike.elim {A : α → β → Prop} {f : σ → α × σ} {g : τ → β × τ}
    (h : AnswerAlike S A f g) {s : σ} {t : τ} (hs : S s t) {motive : α × σ → β × τ → Prop}
    (hmotive : ∀ a b s' t', A a b → S s' t' → motive (a, s') (b, t')) : motive (f s) (g t) :=
  hmotive _ _ _ _ (h s t hs).1 (h s t hs).2

@[elab_as_elim] theorem LeaveAlike.elim {V : α → β → Prop} {p : γ × α × σ} {q : γ × β × τ}
    (h : LeaveAlike S V p q) {motive : γ × α × σ → γ × β × τ → Prop}
    (hmotive : ∀ c v w s t, V v w → S s t → motive (c, v, s) (c, w, t)) : motive p q := by
  obtain ⟨c, v, s⟩ := p
  obtain ⟨c', w, t⟩ := q
  obtain ⟨rfl, hv, hs⟩ := h
  exact hmotive c v w s t hv hs

theorem LeaveAlike.map {V : α → β → Prop} {p : γ × α × σ} {q : γ × β × τ} (h : LeaveAlike S V p q)
    {δ : Type} (f : γ → δ) : LeaveAlike S V (f p.1, p.2) (f q.1, q.2) :=
  ⟨congrArg f h.1, h.2⟩

/-- Sources that answer every call alike in related states. -/
structure Source.Alike [Source σ] [Source τ] (S : σ → τ → Prop) : Prop where
  rowCount : ∀ t, AnswerAlike S (· = ·) (rowCount t) (rowCount t)
  readInterfaceImpl : ∀ rid, AnswerAlike S (· = ·) (readInterfaceImpl rid) (readInterfaceImpl rid)
  resolveTypeDef : ∀ i, AnswerAlike S (· = ·) (resolveTypeDef i) (resolveTypeDef i)
  resolveTypeDefOrRef : ∀ i, AnswerAlike S (· = ·) (resolveTypeDefOrRef i) (resolveTypeDefOrRef i)
  customAttributeRids : ∀ k, AnswerAlike S (· = ·) (customAttributeRids k) (customAttributeRids k)
  readCustomAttribute :
    ∀ rid, AnswerAlike S (· = ·) (readCustomAttribute rid) (readCustomAttribute rid)

/-! ### Cells -/

/-- Outcomes of the same kind, with related values. -/
inductive Outcome.Alike (V : α → β → Prop) : Outcome α → Outcome β → Prop
  | value {v : α} {w : β} (h : V v w) : Alike V (.value v) (.value w)
  | error (e : Error) : Alike V (.error e) (.error e)
  | aborted : Alike V .aborted .aborted

theorem Outcome.Alike.eq {o o' : Outcome α} (h : Outcome.Alike (· = ·) o o') : o = o' := by
  cases h with
  | value h => rw [h]
  | error e => rfl
  | aborted => rfl

theorem Outcome.alike_refl (o : Outcome α) : Outcome.Alike (· = ·) o o := by
  cases o with
  | value v => exact .value rfl
  | error e => exact .error e
  | aborted => exact .aborted

namespace Deferred

variable {V : α → β → Prop}

/-- Cells in the same state, whose values or computations are related. -/
inductive Alike (S : σ → τ → Prop) (V : α → β → Prop) : Deferred σ α → Deferred τ β → Prop
  | unresolved {f : σ → Outcome α × σ} {g : τ → Outcome β × τ}
    (h : AnswerAlike S (Outcome.Alike V) f g) : Alike S V (.unresolved f) (.unresolved g)
  | resolving : Alike S V .resolving .resolving
  | resolved {v : α} {w : β} (h : V v w) : Alike S V (.resolved v) (.resolved w)
  | failed (e : Error) : Alike S V (.failed e) (.failed e)
  | overridden {v : α} {w : β} (h : V v w) : Alike S V (.overridden v) (.overridden w)

theorem read_alike {cell : Deferred σ α} {cell' : Deferred τ β} (h : cell.Alike S V cell') {s : σ}
    {t : τ} (hs : S s t) :
    (cell.read s).1.Alike V (cell'.read t).1 ∧ (cell.read s).2.1.Alike S V (cell'.read t).2.1 ∧
      S (cell.read s).2.2 (cell'.read t).2.2 := by
  cases h with
  | @unresolved f g h =>
    simp only [read]
    refine h.elim hs fun o o' s' t' ho hs' => ?_
    cases ho with
    | value hV => exact ⟨.value hV, .resolved hV, hs'⟩
    | error e => exact ⟨.error e, .failed e, hs'⟩
    | aborted => exact ⟨.aborted, .resolving, hs'⟩
  | resolving => exact ⟨.error _, .resolving, hs⟩
  | resolved h => exact ⟨.value h, .resolved h, hs⟩
  | failed e => exact ⟨.error e, .failed e, hs⟩
  | overridden h => exact ⟨.value h, .overridden h, hs⟩

theorem edit_alike {change : α → σ → γ × α × σ} {change' : β → τ → γ × β × τ}
    (hchange : ∀ v w s t, V v w → S s t → LeaveAlike S V (change v s) (change' w t))
    {cell : Deferred σ α} {cell' : Deferred τ β} (h : cell.Alike S V cell') {s : σ} {t : τ}
    (hs : S s t) : LeaveAlike S (Alike S V) (cell.edit change s) (cell'.edit change' t) := by
  obtain ⟨ho, hcell, hs'⟩ := read_alike h hs
  unfold edit
  generalize cell.read s = p at ho hcell hs' ⊢
  generalize cell'.read t = q at ho hcell hs' ⊢
  obtain ⟨o, c, s'⟩ := p
  obtain ⟨o', c', t'⟩ := q
  cases ho with
  | value hV =>
    obtain ⟨ha, hv, hs''⟩ := hchange _ _ _ _ hV hs'
    exact ⟨congrArg Outcome.value ha, .overridden hv, hs''⟩
  | error e => exact ⟨rfl, hcell, hs'⟩
  | aborted => exact ⟨rfl, hcell, hs'⟩

end Deferred

/-! ### Lists -/

namespace LazyList

/-- Lists with the same slots, whose readers answer alike. -/
structure Alike (S : σ → τ → Prop) (l : LazyList σ α) (l' : LazyList τ α) : Prop where
  slots : l.slots = l'.slots
  reader : ∀ id, AnswerAlike S (· = ·) (readId l.reader id) (readId l'.reader id)

variable {l : LazyList σ α} {l' : LazyList τ α} {s : σ} {t : τ}

theorem Alike.withSlots (h : l.Alike S l') (slots : List (Slot α)) :
    Alike S { l with slots } { l' with slots } := ⟨rfl, h.reader⟩

theorem load_alike (h : l.Alike S l') (i : Nat) (hs : S s t) :
    LeaveAlike S (Alike S) (l.load i s) (l'.load i t) := by
  unfold load
  rw [h.slots]
  cases l'.slots[i]? with
  | none => exact ⟨rfl, h, hs⟩
  | some slot =>
    cases slot with
    | loaded v => exact ⟨rfl, h, hs⟩
    | pending id =>
      dsimp only
      refine (h.reader id).elim hs fun r r' s' t' hr hs' => ?_
      cases hr
      cases r with
      | ok v => exact ⟨rfl, h.withSlots _, hs'⟩
      | error e => exact ⟨rfl, h, hs'⟩

theorem get_alike (h : l.Alike S l') (i : Nat) (hs : S s t) :
    LeaveAlike S (Alike S) (l.get i s) (l'.get i t) := by
  unfold get
  refine (load_alike h i hs).elim fun r l₁ l₂ s₁ s₂ hl hs₁ => ?_
  cases r with
  | error e => exact ⟨rfl, hl, hs₁⟩
  | ok b =>
    cases b with
    | false => exact ⟨rfl, hl, hs₁⟩
    | true => exact ⟨by simp only [hl.slots], hl, hs₁⟩

theorem set_alike (h : l.Alike S l') (i : Nat) (v : α) (hs : S s t) :
    LeaveAlike S (Alike S) (l.set i v s) (l'.set i v t) := by
  unfold set
  refine (get_alike h i hs).elim fun r l₁ l₂ s₁ s₂ hl hs₁ => ?_
  cases r with
  | error e => exact ⟨rfl, hl, hs₁⟩
  | ok old =>
    cases old with
    | none => exact ⟨rfl, hl, hs₁⟩
    | some old => exact ⟨rfl, ⟨by simp only [hl.slots], hl.reader⟩, hs₁⟩

theorem remove_alike (h : l.Alike S l') (i : Nat) (hs : S s t) :
    LeaveAlike S (Alike S) (l.remove i s) (l'.remove i t) := by
  unfold remove
  refine (load_alike h i hs).elim fun r l₁ l₂ s₁ s₂ hl hs₁ => ?_
  cases r with
  | error e => exact ⟨rfl, hl, hs₁⟩
  | ok b =>
    cases b with
    | false => exact ⟨rfl, hl, hs₁⟩
    | true =>
      simp only [hl.slots]
      cases (l₂.slots[i]?).bind Slot.value? with
      | some v => exact ⟨rfl, ⟨rfl, hl.reader⟩, hs₁⟩
      | none => exact ⟨rfl, ⟨rfl, hl.reader⟩, hs₁⟩

theorem loadSlots_alike {reader : Option (UInt32 → σ → Except Error α × σ)}
    {reader' : Option (UInt32 → τ → Except Error α × τ)}
    (h : ∀ id, AnswerAlike S (· = ·) (readId reader id) (readId reader' id)) (slots : List (Slot α))
    (hs : S s t) :
    LeaveAlike S Eq (loadSlots reader slots s) (loadSlots reader' slots t) := by
  induction slots generalizing s t with
  | nil => exact ⟨rfl, rfl, hs⟩
  | cons slot rest ih =>
    cases slot with
    | loaded v =>
      obtain ⟨ha, hrest, hs'⟩ := ih hs
      exact ⟨ha, congrArg (Slot.loaded v :: ·) hrest, hs'⟩
    | pending id =>
      unfold loadSlots
      refine (h id).elim hs fun r r' s' t' hr hs' => ?_
      cases hr
      cases r with
      | error e => exact ⟨rfl, rfl, hs'⟩
      | ok v =>
        obtain ⟨ha, hrest, hs''⟩ := ih hs'
        exact ⟨ha, congrArg (Slot.loaded v :: ·) hrest, hs''⟩

theorem loadAll_alike (h : l.Alike S l') (hs : S s t) :
    LeaveAlike S (Alike S) (l.loadAll s) (l'.loadAll t) := by
  obtain ⟨ha, hslots, hs'⟩ := loadSlots_alike h.reader l.slots hs
  unfold loadAll
  rw [← h.slots]
  exact ⟨ha, ⟨hslots, h.reader⟩, hs'⟩

theorem toList_alike (h : l.Alike S l') (hs : S s t) :
    LeaveAlike S (Alike S) (l.toList s) (l'.toList t) := by
  unfold toList
  refine (loadAll_alike h hs).elim fun r l₁ l₂ s₁ s₂ hl hs₁ => ?_
  cases r with
  | error e => exact ⟨rfl, hl, hs₁⟩
  | ok u => exact ⟨by simp only [loadedItems, hl.slots], hl, hs₁⟩

theorem insert_alike (h : l.Alike S l') (i : Nat) (v : α) :
    (l.insert i v).1 = (l'.insert i v).1 ∧ Alike S (l.insert i v).2 (l'.insert i v).2 := by
  unfold insert
  rw [h.slots]
  split
  · exact ⟨rfl, h⟩
  · exact ⟨rfl, rfl, h.reader⟩

/-- **One request to a list.**  Alike lists answer it alike and stay alike. -/
theorem step_alike (h : l.Alike S l') (op : Op α) (hs : S s t) :
    LeaveAlike S (Alike S) (step op (l, s)) (step op (l', t)) := by
  have hslots := h.slots
  cases op with
  | length => exact ⟨by simp only [step, length, hslots], h, hs⟩
  | isEmpty => exact ⟨by simp only [step, isEmpty, hslots], h, hs⟩
  | isLoaded i => exact ⟨by simp only [step, isLoaded, hslots], h, hs⟩
  | loadedItems => exact ⟨by simp only [step, loadedItems, hslots], h, hs⟩
  | get i => exact (get_alike h i hs).map (Except.map Answer.item?)
  | set i v => exact (set_alike h i v hs).map (Except.map Answer.item?)
  | push v => exact ⟨rfl, ⟨congrArg (fun slots => slots ++ [Slot.loaded v]) hslots, h.reader⟩, hs⟩
  | insert i v =>
    obtain ⟨ha, hl⟩ := insert_alike h i v
    exact ⟨congrArg (Except.map fun _ => Answer.done) ha, hl, hs⟩
  | remove i => exact (remove_alike h i hs).map (Except.map Answer.item)
  | clear => exact ⟨rfl, h.withSlots [], hs⟩
  | loadAll => exact (loadAll_alike h hs).map (Except.map fun _ => Answer.done)
  | toList => exact (toList_alike h hs).map (Except.map Answer.items)

end LazyList

end CilMetadata

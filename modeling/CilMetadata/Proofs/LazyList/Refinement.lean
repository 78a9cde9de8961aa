import CilMetadata.LazyList
import Mathlib.Data.List.InsertIdx

/-!
# Lazy lists as plain lists

A lazy list answers like the plain list of its elements, whichever of them are loaded.  A waiting
slot stands for the element that the reader has for its id, as long as the reader answers one.

Readers need not be well behaved in every state: `E` is a condition on the outer state that speaks
for the reads before it.  The trivial condition gives the laws of readers that always succeed.

* `step_represents`: one request, answered by a lazy list and by the plain list it stands for;
* `answers_eq_plain`: whole runs.
-/

namespace CilMetadata.LazyList

variable {σ α : Type}

/-! ### Plain lists -/

/-- Answers a request on a plain list. -/
def plainStep : Op α → List α → Except Error (Answer α) × List α
  | .length, xs => (.ok (.count xs.length), xs)
  | .isEmpty, xs => (.ok (.flag xs.isEmpty), xs)
  | .isLoaded i, xs => (.ok (.flag (i < xs.length)), xs)
  | .get i, xs => (.ok (.item? xs[i]?), xs)
  | .set i v, xs => (.ok (.item? xs[i]?), xs.set i v)
  | .push v, xs => (.ok .done, xs ++ [v])
  | .insert i v, xs =>
    if xs.length < i then (.error .outOfBounds, xs) else (.ok .done, xs.insertIdx i v)
  | .remove i, xs =>
    match xs[i]? with
    | some v => (.ok (.item v), xs.eraseIdx i)
    | none => (.error .outOfBounds, xs)
  | .clear, _ => (.ok .done, [])
  | .loadAll, xs => (.ok .done, xs)
  | .loadedItems, xs => (.ok (.items xs), xs)
  | .toList, xs => (.ok (.items xs), xs)

/-- Whether a request looks at the elements alone, and not at which of them are loaded. -/
def Op.plain : Op α → Bool
  | .isLoaded _ | .loadedItems => false
  | .length | .isEmpty | .get _ | .set _ _ | .push _ | .insert _ _ | .remove _ | .clear | .loadAll
  | .toList => true

/-- The element that a slot stands for, given the elements of the ids. -/
def Slot.element? (f : UInt32 → Option α) : Slot α → Option α
  | .loaded v => some v
  | .pending id => f id

/-- A lazy list stands for a plain one: slot by slot they have the same elements, and a read that
ends in a state of `E` has answered the element of its id. -/
structure Represents (E : σ → Prop) (f : UInt32 → Option α) (l : LazyList σ α) (xs : List α) :
    Prop where
  slots : l.slots.map (Slot.element? f) = xs.map some
  reads : ∀ id x s, f id = some x → E (readId l.reader id s).2 → (readId l.reader id s).1 = .ok x

/-! ### Outer states and readers -/

theorem state_get (l : LazyList σ α) (i : Nat) (s : σ) : (l.get i s).2.2 = (l.load i s).2.2 := by
  unfold get
  split <;> simp only [*]

theorem state_set (l : LazyList σ α) (i : Nat) (v : α) (s : σ) :
    (l.set i v s).2.2 = (l.load i s).2.2 := by
  rw [← state_get]
  unfold set
  split <;> simp only [*]

theorem state_remove (l : LazyList σ α) (i : Nat) (s : σ) :
    (l.remove i s).2.2 = (l.load i s).2.2 := by
  unfold remove
  split
  · simp only [*]
  · simp only [*]
  · split <;> simp only [*]

theorem state_toList (l : LazyList σ α) (s : σ) : (l.toList s).2.2 = (l.loadAll s).2.2 := by
  unfold toList
  split <;> simp only [*]

theorem reader_load (l : LazyList σ α) (i : Nat) (s : σ) : (l.load i s).2.1.reader = l.reader := by
  unfold load
  split
  · rfl
  · rfl
  · split <;> rfl

theorem reader_get (l : LazyList σ α) (i : Nat) (s : σ) : (l.get i s).2.1.reader = l.reader := by
  rw [← reader_load l i s]
  unfold get
  split <;> simp only [*]

theorem reader_step (op : Op α) (l : LazyList σ α) (s : σ) :
    (step op (l, s)).2.1.reader = l.reader := by
  cases op with
  | get i => exact reader_get l i s
  | set i v =>
    rw [← reader_get l i s]
    show (l.set i v s).2.1.reader = _
    unfold set
    split <;> simp only [*]
  | insert i v =>
    show (l.insert i v).2.reader = _
    unfold insert
    split <;> rfl
  | remove i =>
    rw [← reader_load l i s]
    show (l.remove i s).2.1.reader = _
    unfold remove
    split
    · simp only [*]
    · simp only [*]
    · split <;> simp only [*]
  | toList =>
    show (l.toList s).2.1.reader = _
    unfold toList
    split <;> rename_i h <;> exact (congrArg (fun p => p.2.1.reader) h).symm
  | _ => rfl

section Back

variable {E : σ → Prop} {reader : Option (UInt32 → σ → Except Error α × σ)}

theorem load_back {l : LazyList σ α} (hback : ∀ id s, E (readId l.reader id s).2 → E s) {i : Nat} {s : σ}
    (hE : E (l.load i s).2.2) : E s := by
  unfold load at hE
  split at hE
  · exact hE
  · exact hE
  · rename_i id _
    have hb := hback id s
    split at hE <;> rename_i hr <;> rw [hr] at hb <;> exact hb hE

theorem loadSlots_back (hback : ∀ id s, E (readId reader id s).2 → E s) {slots : List (Slot α)} {s : σ}
    (hE : E (loadSlots reader slots s).2.2) : E s := by
  induction slots generalizing s with
  | nil => exact hE
  | cons slot slots ih =>
    cases slot with
    | loaded v => exact ih hE
    | pending id =>
      have hb := hback id s
      cases hr : readId reader id s with
      | mk r t =>
        rw [hr] at hb
        cases r with
        | error e =>
          simp only [loadSlots, hr] at hE
          exact hb hE
        | ok v =>
          simp only [loadSlots, hr] at hE
          exact hb (ih hE)

/-- What holds after a request held before it, if every read leads back. -/
theorem step_back {l : LazyList σ α} (hback : ∀ id s, E (readId l.reader id s).2 → E s) (op : Op α) {s : σ}
    (hE : E (step op (l, s)).2.2) : E s := by
  cases op with
  | get i =>
    rw [show (step (.get i) (l, s)).2.2 = (l.get i s).2.2 from rfl, state_get] at hE
    exact load_back hback hE
  | set i v =>
    rw [show (step (.set i v) (l, s)).2.2 = (l.set i v s).2.2 from rfl, state_set] at hE
    exact load_back hback hE
  | remove i =>
    rw [show (step (.remove i) (l, s)).2.2 = (l.remove i s).2.2 from rfl, state_remove] at hE
    exact load_back hback hE
  | loadAll => exact loadSlots_back hback hE
  | toList =>
    rw [show (step .toList (l, s)).2.2 = (l.toList s).2.2 from rfl, state_toList] at hE
    exact loadSlots_back hback hE
  | _ => exact hE

end Back

/-! ### Loading -/

section Loading

variable {E : σ → Prop} {f : UInt32 → Option α} {l : LazyList σ α} {xs : List α}

theorem Represents.length_eq (h : Represents E f l xs) : l.slots.length = xs.length := by
  have := congrArg List.length h.slots
  simpa using this

theorem Represents.slot_eq_none (h : Represents E f l xs) {i : Nat} (hi : xs[i]? = none) :
    l.slots[i]? = none := by
  rw [List.getElem?_eq_none_iff] at hi ⊢
  rw [h.length_eq]
  exact hi

theorem Represents.exists_slot (h : Represents E f l xs) {i : Nat} {x : α} (hi : xs[i]? = some x) :
    ∃ slot, l.slots[i]? = some slot ∧ slot.element? f = some x := by
  have := congrArg (fun ys => ys[i]?) h.slots
  simp only [List.getElem?_map, hi, Option.map_some] at this
  exact Option.map_eq_some_iff.mp this

theorem Represents.withSlots (h : Represents E f l xs) {slots : List (Slot α)} {ys : List α}
    (hs : slots.map (Slot.element? f) = ys.map some) : Represents E f { l with slots } ys :=
  ⟨hs, h.reads⟩

theorem represents_ofList (E : σ → Prop) (items : List α) :
    Represents E (fun _ => none) (ofList items : LazyList σ α) items :=
  ⟨by simp [ofList, Slot.element?, Function.comp_def], fun _ _ _ hx => nomatch hx⟩

theorem load_eq_false (h : Represents E f l xs) {i : Nat} (hi : xs[i]? = none) (s : σ) :
    l.load i s = (.ok false, l, s) := by
  unfold load
  rw [h.slot_eq_none hi]

/-- Loading an element that is there puts it into its slot and changes nothing else. -/
theorem load_eq_true (h : Represents E f l xs) {i : Nat} {x : α} (hi : xs[i]? = some x) {s : σ}
    (hE : E (l.load i s).2.2) :
    ∃ l' s', l.load i s = (.ok true, l', s') ∧ l'.slots[i]? = some (.loaded x) ∧
      Represents E f l' xs := by
  obtain ⟨slot, hslot, hx⟩ := h.exists_slot hi
  cases slot with
  | loaded v =>
    cases hx
    exact ⟨l, s, by simp only [load, hslot], hslot, h⟩
  | pending id =>
    have hread := h.reads id x s hx
    cases hr : readId l.reader id s with
    | mk r s' =>
      cases r with
      | error e =>
        simp only [load, hslot, hr] at hE hread
        cases hread hE
      | ok v =>
        simp only [load, hslot, hr] at hE hread ⊢
        cases hread hE
        obtain ⟨hlt, hget⟩ := List.getElem?_eq_some_iff.mp hi
        refine ⟨_, s', rfl, List.getElem?_set_self (h.length_eq ▸ hlt), h.withSlots ?_⟩
        rw [List.map_set, h.slots, ← hget]
        show (xs.map some).set i (some xs[i]) = xs.map some
        rw [← List.map_set, List.set_getElem_self]

/-- The slots that loading everything leaves, if it ends in a state of `E`. -/
theorem loadSlots_eq {reader : Option (UInt32 → σ → Except Error α × σ)}
    (hreads : ∀ id x s, f id = some x → E (readId reader id s).2 → (readId reader id s).1 = .ok x)
    (hback : ∀ id s, E (readId reader id s).2 → E s) {slots : List (Slot α)} {xs : List α}
    (h : slots.map (Slot.element? f) = xs.map some) {s : σ} (hE : E (loadSlots reader slots s).2.2) :
    ∃ s', loadSlots reader slots s = (.ok (), xs.map .loaded, s') := by
  induction slots generalizing xs s with
  | nil =>
    cases xs with
    | nil => exact ⟨s, rfl⟩
    | cons x xs => cases h
  | cons slot slots ih =>
    cases xs with
    | nil => cases h
    | cons x xs =>
      obtain ⟨hx, hxs⟩ := List.cons.inj h
      cases slot with
      | loaded v =>
        cases hx
        obtain ⟨s', hs'⟩ := ih hxs hE
        exact ⟨s', by simp only [loadSlots, hs', List.map_cons]⟩
      | pending id =>
        have hread := hreads id x s hx
        cases hr : readId reader id s with
        | mk r t =>
          rw [hr] at hread
          cases r with
          | error e =>
            simp only [loadSlots, hr] at hE
            cases hread hE
          | ok v =>
            simp only [loadSlots, hr] at hE ⊢
            -- the states after this read speak for it
            cases hread (loadSlots_back hback hE)
            obtain ⟨s', hs'⟩ := ih hxs hE
            exact ⟨s', by rw [hs']; rfl⟩

theorem loadAll_eq (h : Represents E f l xs) (hback : ∀ id s, E (readId l.reader id s).2 → E s) {s : σ}
    (hE : E (l.loadAll s).2.2) :
    ∃ s', l.loadAll s = (.ok (), ⟨xs.map .loaded, l.reader⟩, s') := by
  obtain ⟨s', hs'⟩ := loadSlots_eq h.reads hback h.slots hE
  exact ⟨s', by simp only [loadAll, hs']⟩

theorem represents_loaded (h : Represents E f l xs) : Represents E f ⟨xs.map .loaded, l.reader⟩ xs :=
  h.withSlots (by simp [Slot.element?])

theorem get_eq (h : Represents E f l xs) {i : Nat} {s : σ} (hE : E (l.get i s).2.2) :
    ∃ l' s', l.get i s = (.ok xs[i]?, l', s') ∧ Represents E f l' xs := by
  cases hi : xs[i]? with
  | none => exact ⟨l, s, by simp only [get, load_eq_false h hi], h⟩
  | some x =>
    rw [state_get] at hE
    obtain ⟨l', s', hl', hslot, h'⟩ := load_eq_true h hi hE
    exact ⟨l', s', by simp only [get, hl', hslot]; rfl, h'⟩

theorem set_eq (h : Represents E f l xs) {i : Nat} (v : α) {s : σ} (hE : E (l.set i v s).2.2) :
    ∃ l' s', l.set i v s = (.ok xs[i]?, l', s') ∧ Represents E f l' (xs.set i v) := by
  rw [state_set, ← state_get] at hE
  obtain ⟨l', s', hl', h'⟩ := get_eq h hE
  cases hi : xs[i]? with
  | none =>
    rw [hi] at hl'
    rw [List.set_eq_of_length_le (List.getElem?_eq_none_iff.mp hi)]
    exact ⟨l', s', by simp only [set, hl'], h'⟩
  | some x =>
    rw [hi] at hl'
    refine ⟨{ l' with slots := l'.slots.set i (.loaded v) }, s', by simp only [set, hl'], ?_⟩
    apply h'.withSlots
    rw [List.map_set, List.map_set, h'.slots]
    rfl

theorem remove_eq (h : Represents E f l xs) {i : Nat} {s : σ} (hE : E (l.remove i s).2.2) :
    ∃ l' s', l.remove i s = (xs[i]?.elim (.error .outOfBounds) .ok, l', s') ∧
      Represents E f l' (xs.eraseIdx i) := by
  cases hi : xs[i]? with
  | none =>
    rw [List.eraseIdx_of_length_le (List.getElem?_eq_none_iff.mp hi)]
    exact ⟨l, s, by simp only [remove, load_eq_false h hi]; rfl, h⟩
  | some x =>
    rw [state_remove] at hE
    obtain ⟨l', s', hl', hslot, h'⟩ := load_eq_true h hi hE
    refine ⟨{ l' with slots := l'.slots.eraseIdx i }, s', by simp only [remove, hl', hslot]; rfl, ?_⟩
    apply h'.withSlots
    rw [← List.eraseIdx_map, ← List.eraseIdx_map, h'.slots]

theorem insert_represents (h : Represents E f l xs) (i : Nat) (v : α) :
    Represents E f { l with slots := l.slots.insertIdx i (.loaded v) } (xs.insertIdx i v) := by
  apply h.withSlots
  rw [List.map_insertIdx, List.map_insertIdx, h.slots]
  rfl

theorem loadedItems_map_loaded (xs : List α) (reader : Option (UInt32 → σ → Except Error α × σ)) :
    loadedItems (⟨xs.map Slot.loaded, reader⟩ : LazyList σ α) = xs := by
  simp [loadedItems, List.filterMap_map, Function.comp_def, Slot.value?]

end Loading

/-! ### Requests -/

/-- **One request.**  A lazy list answers a request as the plain list does that it stands for, and
goes on standing for it. -/
theorem step_represents {E : σ → Prop} {f : UInt32 → Option α} {l : LazyList σ α} {xs : List α}
    (h : Represents E f l xs) (hback : ∀ id s, E (readId l.reader id s).2 → E s) {op : Op α}
    (hop : op.plain = true) {s : σ} (hE : E (step op (l, s)).2.2) :
    (step op (l, s)).1 = (plainStep op xs).1 ∧
      Represents E f (step op (l, s)).2.1 (plainStep op xs).2 := by
  cases op with
  | length => exact ⟨by simp only [step, plainStep, length, h.length_eq], h⟩
  | isEmpty =>
    refine ⟨?_, h⟩
    have he : l.slots.isEmpty = xs.isEmpty := by
      rw [Bool.eq_iff_iff, List.isEmpty_iff_length_eq_zero, List.isEmpty_iff_length_eq_zero, h.length_eq]
    simp only [step, plainStep, isEmpty, he]
  | isLoaded i => cases hop
  | get i =>
    obtain ⟨l', s', hl', h'⟩ := get_eq h hE
    simp only [step, plainStep, hl']
    exact ⟨rfl, h'⟩
  | set i v =>
    obtain ⟨l', s', hl', h'⟩ := set_eq h v hE
    simp only [step, plainStep, hl']
    exact ⟨rfl, h'⟩
  | push v =>
    refine ⟨rfl, h.withSlots ?_⟩
    show (l.slots ++ [Slot.loaded v]).map (Slot.element? f) = (xs ++ [v]).map some
    rw [List.map_append, List.map_append, h.slots]
    rfl
  | insert i v =>
    by_cases hi : xs.length < i
    · simp only [step, plainStep, insert, h.length_eq, if_pos hi]
      exact ⟨rfl, h⟩
    · simp only [step, plainStep, insert, h.length_eq, if_neg hi]
      exact ⟨rfl, insert_represents h i v⟩
  | remove i =>
    obtain ⟨l', s', hl', h'⟩ := remove_eq h hE
    simp only [step, plainStep, hl']
    cases hi : xs[i]? with
    | none =>
      rw [List.eraseIdx_of_length_le (List.getElem?_eq_none_iff.mp hi)] at h'
      exact ⟨rfl, h'⟩
    | some x => exact ⟨rfl, h'⟩
  | clear => exact ⟨rfl, h.withSlots rfl⟩
  | loadAll =>
    obtain ⟨s', hs'⟩ := loadAll_eq h hback hE
    simp only [step, plainStep, hs']
    exact ⟨rfl, represents_loaded h⟩
  | loadedItems => cases hop
  | toList =>
    have hE' : E (l.loadAll s).2.2 := by rwa [← state_toList]
    obtain ⟨s', hs'⟩ := loadAll_eq h hback hE'
    simp only [step, plainStep, toList, hs', loadedItems_map_loaded]
    exact ⟨rfl, represents_loaded h⟩

/-! ### Runs -/

/-- Where the answers of a plain list depend on its length, and what it answers as a whole. -/
theorem plainStep_bounds (xs : List α) (i : Nat) (v : α) :
    ((plainStep (.get i) xs).1 = .ok (.item? none) ↔ xs.length ≤ i) ∧
      ((plainStep (.set i v) xs).1 = .ok (.item? none) ↔ xs.length ≤ i) ∧
      ((plainStep (.insert i v) xs).1 = .error .outOfBounds ↔ xs.length < i) ∧
      ((plainStep (.remove i) xs).1 = .error .outOfBounds ↔ xs.length ≤ i) ∧
      (plainStep .toList xs).1 = .ok (.items xs) := by
  refine ⟨?_, ?_, ?_, ?_, rfl⟩
  · simp [plainStep]
  · simp [plainStep]
  · by_cases hi : xs.length < i <;> simp [plainStep, hi]
  · rw [← List.getElem?_eq_none_iff]
    cases hi : xs[i]? <;> simp [plainStep, hi]

theorem run_represents {f : UInt32 → Option α} {l : LazyList σ α} {xs : List α}
    (h : Represents (fun _ => True) f l xs) {ops : List (Op α)} (hops : ∀ op ∈ ops, op.plain = true)
    (s : σ) :
    (run step ops (l, s)).1 = (run plainStep ops xs).1 ∧
      Represents (fun _ => True) f (run step ops (l, s)).2.1 (run plainStep ops xs).2 :=
  run_simulates (R := fun (p : LazyList σ α × σ) ys => Represents (fun _ => True) f p.1 ys)
    (fun _ _ _ hop hR => step_represents hR (fun _ _ _ => trivial) hop trivial) hops h

/-- **Plain lists.**  If the reader has an element for every id, a lazy list answers every run of
requests as the list of these elements does; so do lists of given elements, and the empty list.  In
the end it holds, loaded or not, the elements of the plain list in their order. -/
theorem answers_eq_plain (ops : List (Op α)) (hops : ∀ op ∈ ops, op.plain = true) (s : σ) :
    (∀ ids reader (f : UInt32 → α), (∀ id t, (reader id t).1 = .ok (f id)) →
      (run step ops (ofIds ids reader, s)).1 = (run plainStep ops (ids.map f)).1 ∧
        (run step ops (ofIds ids reader, s)).2.1.slots.map (Slot.element? fun id => some (f id)) =
          (run plainStep ops (ids.map f)).2.map some) ∧
    (∀ items, (run step ops (ofList items, s)).1 = (run plainStep ops items).1) ∧
    (run step ops (empty, s)).1 = (run plainStep ops []).1 ∧
    ∀ (xs : List α) i v,
      ((plainStep (.get i) xs).1 = .ok (.item? none) ↔ xs.length ≤ i) ∧
      ((plainStep (.set i v) xs).1 = .ok (.item? none) ↔ xs.length ≤ i) ∧
      ((plainStep (.insert i v) xs).1 = .error .outOfBounds ↔ xs.length < i) ∧
      ((plainStep (.remove i) xs).1 = .error .outOfBounds ↔ xs.length ≤ i) ∧
      (plainStep .toList xs).1 = .ok (.items xs) := by
  refine ⟨?_, ?_, ?_, plainStep_bounds⟩
  · intro ids reader f hf
    have h : Represents (fun _ : σ => True) (fun id => some (f id)) (ofIds ids reader) (ids.map f) := by
      refine ⟨by simp [ofIds, Slot.element?, Function.comp_def], fun id x t hx _ => ?_⟩
      cases hx
      exact hf id t
    obtain ⟨hans, hend⟩ := run_represents h hops s
    exact ⟨hans, hend.slots⟩
  · intro items
    exact (run_represents (represents_ofList _ items) hops s).1
  · have h : Represents (fun _ : σ => True) (fun _ => none) (empty : LazyList σ α) [] :=
      ⟨rfl, fun _ _ _ hx => nomatch hx⟩
    exact (run_represents h hops s).1

/-- A reader that counts its reads and answers ten times the id. -/
def tenfold (id : UInt32) (reads : Nat) : Except Error Nat × Nat := (.ok (id.toNat * 10), reads + 1)

theorem answers_eq_plain_tenfold :
    (run step [.get 1, .insert 0 7, .remove 1, .insert 4 1, .remove 3, .set 2 5, .toList]
        (ofIds [4, 8, 6] tenfold, 0)).1 =
      [.ok (.item? (some 80)), .ok .done, .ok (.item 40), .error .outOfBounds, .error .outOfBounds,
        .ok (.item? (some 60)), .ok (.items [7, 80, 5])] :=
  ((answers_eq_plain _ (by decide) 0).1 [4, 8, 6] tenfold (fun id => id.toNat * 10)
    fun _ _ => rfl).1.trans rfl

end CilMetadata.LazyList

import CilMetadata.Proofs.LazyList.Events
import CilMetadata.Proofs.LazyList.Refinement
import Mathlib.Data.List.Nodup

/-!
# What the reader of a lazy list is called for

A list is run together with an account of it.  The account numbers the elements, so that it can
follow each of them while others are put in and taken out before it, and writes down what happens to
them: the calls of the reader, each for the element that it is made for, and the changes that the
caller makes.

* `Shows`: the slots of a list by the numbers of its elements, and what changes of one element do;
* `loadSlots_tells`: the calls that loading everything makes, and the slots that it leaves;
* `tells_keep`: the account goes on telling the slots of the list, and its history stays lawful.
-/

namespace CilMetadata.LazyList

variable {σ α : Type}

/-! ### Accounts -/

/-- The elements of a list by their numbers, and what happened to elements so far. -/
structure Account (α : Type) where
  /-- the numbers of the elements in the list, in order -/
  order : List Nat
  /-- the number of the element that is put in next -/
  next : Nat
  events : List (Event α)

namespace Account

/-- The account of a list that waits under some ids: every element has its place for its number. -/
def new (ids : List UInt32) : Account α := ⟨List.range ids.length, ids.length, []⟩

def log (acc : Account α) (events : List (Event α)) : Account α :=
  { acc with events := acc.events ++ events }

/-- Puts in an element with a number of its own. -/
def add (acc : Account α) (i : Nat) (v : α) : Account α :=
  { acc.log [.put acc.next v] with order := acc.order.insertIdx i acc.next, next := acc.next + 1 }

/-- What the caller changes by a request, as its answer tells. -/
def edit (acc : Account α) : Op α → Except Error (Answer α) → Account α
  | .set i v, .ok (.item? (some _)) => acc.log (acc.order[i]?.toList.map (.put · v))
  | .push v, _ => acc.add acc.order.length v
  | .insert i v, .ok _ => acc.add i v
  | .remove i, .ok _ =>
    { acc.log (acc.order[i]?.toList.map .removed) with order := acc.order.eraseIdx i }
  | .clear, _ => { acc.log (acc.order.map .removed) with order := [] }
  | _, _ => acc

@[simp] theorem log_nil (acc : Account α) : acc.log [] = acc := by simp [log]

end Account

/-- The call that loading the element at a place makes, if it waits. -/
def readAt (reader : UInt32 → σ → Except Error α × σ) (order : List Nat) (slots : List (Slot α)) (i : Nat)
    (s : σ) : List (Event α) :=
  match order[i]?, slots[i]? with
  | some n, some (.pending id) => [.read n id (reader id s).1]
  | _, _ => []

/-- The calls that loading elements in order makes, up to the first that fails. -/
def readAll (reader : UInt32 → σ → Except Error α × σ) :
    List Nat → List (Slot α) → σ → List (Event α)
  | _ :: order, .loaded _ :: slots, s => readAll reader order slots s
  | n :: order, .pending id :: slots, s =>
    match reader id s with
    | (.error e, _) => [.read n id (.error e)]
    | (.ok v, s') => .read n id (.ok v) :: readAll reader order slots s'
  | _, _, _ => []

def reads (reader : UInt32 → σ → Except Error α × σ) (op : Op α) (order : List Nat) (slots : List (Slot α))
    (s : σ) : List (Event α) :=
  match op with
  | .get i | .set i _ | .remove i => readAt reader order slots i s
  | .loadAll | .toList => readAll reader order slots s
  | .length | .isEmpty | .isLoaded _ | .push _ | .insert _ _ | .clear | .loadedItems => []

/-- Answers a request and keeps the account. -/
def keep (reader : UInt32 → σ → Except Error α × σ) (op : Op α) :
    (LazyList σ α × σ) × Account α → Except Error (Answer α) × (LazyList σ α × σ) × Account α
  | ((l, s), acc) =>
    ((step op (l, s)).1, (step op (l, s)).2,
      (acc.log (reads reader op acc.order l.slots s)).edit op (step op (l, s)).1)

/-! ### Loading and what follows -/

/-- What loading an element comes to. -/
theorem load_cases (l : LazyList σ α) (i : Nat) (s : σ) :
    ∃ l' s', (∃ e, l.load i s = (.error e, l', s')) ∨ l.load i s = (.ok false, l', s') ∨
      ∃ v, l.load i s = (.ok true, l', s') ∧ l'.slots[i]? = some (.loaded v) := by
  unfold load
  split
  · exact ⟨l, s, .inr (.inl rfl)⟩
  · rename_i v hi
    exact ⟨l, s, .inr (.inr ⟨v, rfl, hi⟩)⟩
  · rename_i id hi
    split
    · rename_i v s' _
      refine ⟨{ l with slots := l.slots.set i (.loaded v) }, s', .inr (.inr ⟨v, rfl, ?_⟩)⟩
      exact List.getElem?_set_self (List.getElem?_eq_some_iff.mp hi).1
    · exact ⟨l, _, .inl ⟨_, rfl⟩⟩

section Loaded

variable {l : LazyList σ α} {i : Nat} {v : α}

theorem eq_take_append_drop {slots : List (Slot α)} {slot : Slot α} (h : slots[i]? = some slot) :
    slots = slots.take i ++ slot :: slots.drop (i + 1) := by
  obtain ⟨hlt, hi⟩ := List.getElem?_eq_some_iff.mp h
  rw [← hi, ← List.drop_eq_getElem_cons hlt, List.take_append_drop]

theorem get_loaded (h : l.slots[i]? = some (.loaded v)) (s : σ) : l.get i s = (.ok (some v), l, s) := by
  simp only [get, load, h, Option.bind_some, Slot.value?]

theorem set_loaded (h : l.slots[i]? = some (.loaded v)) (w : α) (s : σ) :
    l.set i w s = (.ok (some v), { l with slots := l.slots.set i (.loaded w) }, s) := by
  simp only [set, get_loaded h]

theorem remove_loaded (h : l.slots[i]? = some (.loaded v)) (s : σ) :
    l.remove i s = (.ok v, { l with slots := l.slots.eraseIdx i }, s) := by
  simp only [remove, load, h, Option.bind_some, Slot.value?]

end Loaded

/-! ### Slots of numbered elements -/

/-- The elements of a list have the slots of the list, and no others have any. -/
structure Shows (m : Nat → Option (Slot α)) (order : List Nat) (slots : List (Slot α)) : Prop where
  slots : slots.map some = order.map m
  absent : ∀ n ∉ order, m n = none
  nodup : order.Nodup

namespace Shows

variable {m : Nat → Option (Slot α)} {order : List Nat} {slots : List (Slot α)} {i n : Nat}

theorem length_eq (h : Shows m order slots) : order.length = slots.length := by
  simpa using (congrArg List.length h.slots).symm

theorem slot_eq (h : Shows m order slots) (hi : order[i]? = some n) : slots[i]? = m n := by
  have := congrArg (fun xs : List (Option (Slot α)) => xs[i]?) h.slots
  simp only [List.getElem?_map, hi, Option.map_some] at this
  obtain ⟨slot, hslot, hm⟩ := Option.map_eq_some_iff.mp this
  rw [hslot, hm]

theorem exists_place (h : Shows m order slots) {slot : Slot α} (hm : m n = some slot) :
    ∃ i : Nat, order[i]? = some n ∧ slots[i]? = some slot := by
  have hn : n ∈ order := by
    by_contra hn
    rw [h.absent n hn] at hm
    cases hm
  obtain ⟨i, hi⟩ := List.mem_iff_getElem?.mp hn
  exact ⟨i, hi, (h.slot_eq hi).trans hm⟩

theorem map_update_of_notMem {x : Option (Slot α)} (hn : n ∉ order) :
    order.map (Function.update m n x) = order.map m :=
  List.map_congr_left fun _ hk => Function.update_of_ne (ne_of_mem_of_not_mem hk hn) _ _

theorem set (h : Shows m order slots) (hi : order[i]? = some n) (slot : Slot α) :
    Shows (Function.update m n (some slot)) order (slots.set i slot) where
  slots := by
    obtain ⟨hlt, rfl⟩ := List.getElem?_eq_some_iff.mp hi
    rw [List.map_set, h.slots, h.nodup.map_update, if_pos (List.getElem_mem hlt),
      h.nodup.idxOf_getElem i hlt]
  absent k hk := by
    have hkn : k ≠ n := fun hkn => hk (hkn ▸ List.mem_of_getElem? hi)
    rw [Function.update_of_ne hkn, h.absent k hk]
  nodup := h.nodup

theorem eraseIdx (h : Shows m order slots) (hi : order[i]? = some n) :
    Shows (Function.update m n none) (order.eraseIdx i) (slots.eraseIdx i) := by
  obtain ⟨hlt, rfl⟩ := List.getElem?_eq_some_iff.mp hi
  have hmem : ∀ k, k ∈ order.eraseIdx i ↔ k ≠ order[i] ∧ k ∈ order := by
    rw [← h.nodup.erase_getElem i hlt]
    exact fun k => h.nodup.mem_erase_iff
  refine ⟨?_, fun k hk => ?_, h.nodup.eraseIdx i⟩
  · rw [map_update_of_notMem fun hn => ((hmem _).mp hn).1 rfl, ← List.eraseIdx_map, h.slots,
      List.eraseIdx_map]
  · by_cases hkn : k = order[i]
    · rw [hkn, Function.update_self]
    · rw [Function.update_of_ne hkn]
      exact h.absent k fun hmem' => hk ((hmem k).mpr ⟨hkn, hmem'⟩)

theorem insertIdx (h : Shows m order slots) (hn : n ∉ order) (hi : i ≤ order.length) (slot : Slot α) :
    Shows (Function.update m n (some slot)) (order.insertIdx i n) (slots.insertIdx i slot) where
  slots := by
    rw [List.map_insertIdx, List.map_insertIdx, map_update_of_notMem hn, Function.update_self, h.slots]
  absent k hk := by
    rw [List.mem_insertIdx hi, not_or] at hk
    rw [Function.update_of_ne hk.1, h.absent k hk.2]
  nodup := by
    rw [(List.perm_insertIdx n order hi).nodup_iff]
    exact List.nodup_cons.mpr ⟨hn, h.nodup⟩

end Shows

theorem slotsAfter_removed (m : Nat → Option (Slot α)) (order : List Nat) (n : Nat) :
    slotsAfter m (order.map .removed) n = if n ∈ order then none else m n := by
  induction order generalizing m with
  | nil => simp
  | cons k order ih =>
    rw [List.map_cons, slotsAfter_cons, ih]
    by_cases hn : n ∈ order
    · simp [hn]
    · by_cases hk : n = k <;> simp [hn, hk, Event.apply]

/-! ### Calls -/

section Calls

variable {reader : UInt32 → σ → Except Error α × σ} {m : Nat → Option (Slot α)} {order : List Nat}

theorem readAt_of_pending {slots : List (Slot α)} {i n : Nat} {id : UInt32} (hn : order[i]? = some n)
    (hid : slots[i]? = some (.pending id)) (s : σ) :
    readAt reader order slots i s = [.read n id (reader id s).1] := by
  simp only [readAt, hn, hid]

theorem readAt_of_forall_ne {slots : List (Slot α)} {i : Nat} (h : ∀ id, slots[i]? ≠ some (.pending id))
    (s : σ) : readAt reader order slots i s = [] := by
  unfold readAt
  split
  · rename_i hid
    exact absurd hid (h _)
  · rfl

theorem element_mem_of_mem_readAll {slots : List (Slot α)} {s : σ} {e : Event α}
    (he : e ∈ readAll reader order slots s) : e.element ∈ order := by
  induction slots generalizing order s with
  | nil => cases order <;> cases he
  | cons slot slots ih =>
    cases order with
    | nil => cases slot <;> cases he
    | cons n order =>
      cases slot with
      | loaded v => exact List.mem_cons_of_mem _ (ih he)
      | pending id =>
        unfold readAll at he
        split at he
        · cases List.mem_singleton.mp he
          exact List.mem_cons_self
        · rcases List.mem_cons.mp he with rfl | he
          · exact List.mem_cons_self
          · exact List.mem_cons_of_mem _ (ih he)

/-- Loading all slots changes them as the calls tell, which are made for elements that wait. -/
theorem loadSlots_tells (reader : UInt32 → σ → Except Error α × σ) {slots : List (Slot α)}
    (h : slots.map some = order.map m) (hnd : order.Nodup) (s : σ) :
    (loadSlots (some reader) slots s).2.1.map some =
        order.map (slotsAfter m (readAll reader order slots s)) ∧
      Lawful m (readAll reader order slots s) := by
  induction slots generalizing m order s with
  | nil =>
    cases order with
    | nil => exact ⟨rfl, trivial⟩
    | cons n order => cases h
  | cons slot slots ih =>
    cases order with
    | nil => cases h
    | cons n order =>
      obtain ⟨hn, hnd⟩ := List.nodup_cons.mp hnd
      obtain ⟨hm, hslots⟩ := List.cons.inj h
      -- calls for later elements leave the first one as it is
      have hfirst : ∀ (m' : Nat → Option (Slot α)) t,
          slotsAfter m' (readAll reader order slots t) n = m' n :=
        fun m' t => slotsAfter_of_forall_ne fun e he =>
          ne_of_mem_of_not_mem (element_mem_of_mem_readAll he) hn
      cases slot with
      | loaded v =>
        obtain ⟨hrest, hlaw⟩ := ih hslots hnd s
        refine ⟨?_, hlaw⟩
        simp only [loadSlots, readAll, List.map_cons, hrest, hfirst m s, hm]
      | pending id =>
        cases hr : reader id s with
        | mk r t =>
          cases r with
          | error e =>
            simp only [loadSlots, readAll, readId, hr]
            exact ⟨h, hm.symm, trivial⟩
          | ok v =>
            obtain ⟨hrest, hlaw⟩ := ih (m := Function.update m n (some (.loaded v)))
              (hslots.trans (Shows.map_update_of_notMem hn).symm) hnd t
            simp only [loadSlots, readAll, readId, hr, List.map_cons, hrest, slotsAfter_cons, Event.apply,
              hfirst, Function.update_self]
            exact ⟨trivial, hm.symm, hlaw⟩

end Calls

/-! ### One request -/

def waiting (ids : List UInt32) (n : Nat) : Option (Slot α) := ids[n]?.map .pending

/-- The slots that the elements have by an account. -/
def Account.slots (acc : Account α) (ids : List UInt32) : Nat → Option (Slot α) :=
  slotsAfter (waiting ids) acc.events

/-- An account tells the slots of a list, and all its calls were made for elements that waited. -/
structure Account.Tells (acc : Account α) (ids : List UInt32) (slots : List (Slot α)) : Prop where
  shows : Shows (acc.slots ids) acc.order slots
  fresh : ∀ n ∈ acc.order, n < acc.next
  lawful : Lawful (waiting ids) acc.events

namespace Account.Tells

variable {ids : List UInt32} {reader : UInt32 → σ → Except Error α × σ} {acc : Account α}
  {slots : List (Slot α)}

theorem new (ids : List UInt32) : (Account.new ids : Account α).Tells ids (ids.map .pending) where
  shows := by
    refine ⟨List.ext_getElem? fun i => ?_, fun n hn => ?_, List.nodup_range⟩
    · simp only [Account.new, Account.slots, slotsAfter_nil, List.map_map, List.getElem?_map]
      by_cases hi : i < ids.length <;> simp [hi, waiting]
    · have hlen : ids.length ≤ n := by simpa [Account.new] using hn
      simp [Account.new, Account.slots, waiting, hlen]
  fresh n hn := List.mem_range.mp hn
  lawful := trivial

/-- Calls that are lawful and tell the new slots of the same elements. -/
theorem log {events : List (Event α)} {slots' : List (Slot α)} (h : acc.Tells ids slots)
    (hshows : Shows (slotsAfter (acc.slots ids) events) acc.order slots')
    (hlaw : Lawful (acc.slots ids) events) : (acc.log events).Tells ids slots' where
  shows := by
    rwa [Account.slots, Account.log, slotsAfter_append]
  fresh := h.fresh
  lawful := lawful_append.mpr ⟨h.lawful, hlaw⟩

theorem put {i n : Nat} (h : acc.Tells ids slots) (hi : acc.order[i]? = some n) (v : α) :
    (acc.log [.put n v]).Tells ids (slots.set i (.loaded v)) :=
  h.log (h.shows.set hi _) ⟨trivial, trivial⟩

theorem add {i : Nat} (h : acc.Tells ids slots) (hi : i ≤ slots.length) (v : α) :
    (acc.add i v).Tells ids (slots.insertIdx i (.loaded v)) := by
  have hlen : i ≤ acc.order.length := h.shows.length_eq ▸ hi
  have hnext : acc.next ∉ acc.order := fun hmem => absurd (h.fresh _ hmem) (Nat.lt_irrefl _)
  refine ⟨?_, fun n hn => ?_, lawful_append.mpr ⟨h.lawful, trivial, trivial⟩⟩
  · rw [Account.slots, Account.add, Account.log, slotsAfter_append]
    exact h.shows.insertIdx hnext hlen _
  · rcases (List.mem_insertIdx hlen).mp hn with rfl | hn
    · exact Nat.lt_succ_self _
    · exact Nat.lt_succ_of_lt (h.fresh n hn)

theorem remove {i n : Nat} (h : acc.Tells ids slots) (hi : acc.order[i]? = some n) :
    Account.Tells { acc.log [.removed n] with order := acc.order.eraseIdx i } ids (slots.eraseIdx i) := by
  refine ⟨?_, fun k hk => h.fresh k (List.mem_of_mem_eraseIdx hk),
    lawful_append.mpr ⟨h.lawful, trivial, trivial⟩⟩
  rw [Account.slots, Account.log, slotsAfter_append]
  exact h.shows.eraseIdx hi

theorem clear (h : acc.Tells ids slots) :
    Account.Tells { acc.log (acc.order.map .removed) with order := [] } ids [] := by
  refine ⟨⟨rfl, fun n _ => ?_, List.nodup_nil⟩, nofun, lawful_append.mpr ⟨h.lawful, ?_⟩⟩
  · rw [Account.slots, Account.log, slotsAfter_append, slotsAfter_removed]
    split
    · rfl
    · exact h.shows.absent n ‹_›
  · apply lawful_of_forall_call?_eq_none
    simp [Event.call?]

theorem exists_number {i : Nat} {slot : Slot α} (h : acc.Tells ids slots) (hi : slots[i]? = some slot) :
    ∃ n, acc.order[i]? = some n := by
  have hlt : i < acc.order.length := h.shows.length_eq ▸ (List.getElem?_eq_some_iff.mp hi).1
  exact ⟨acc.order[i], List.getElem?_eq_getElem hlt⟩

variable {l : LazyList σ α}

theorem load (h : acc.Tells ids l.slots) (hl : l.reader = some reader) (i : Nat) (s : σ) :
    (acc.log (readAt reader acc.order l.slots i s)).Tells ids (l.load i s).2.1.slots := by
  cases hslot : l.slots[i]? with
  | none =>
    rw [readAt_of_forall_ne (by simp [hslot]), Account.log_nil]
    simpa only [LazyList.load, hslot] using h
  | some slot =>
    cases slot with
    | loaded v =>
      rw [readAt_of_forall_ne (by simp [hslot]), Account.log_nil]
      simpa only [LazyList.load, hslot] using h
    | pending id =>
      obtain ⟨n, hn⟩ := h.exists_number hslot
      have hm : acc.slots ids n = some (.pending id) := (h.shows.slot_eq hn).symm.trans hslot
      rw [readAt_of_pending hn hslot]
      cases hr : reader id s with
      | mk r t =>
        cases r with
        | error e =>
          simp only [LazyList.load, hslot, hl, readId, hr]
          exact h.log h.shows ⟨hm, trivial⟩
        | ok v =>
          simp only [LazyList.load, hslot, hl, readId, hr]
          exact h.log (h.shows.set hn _) ⟨hm, trivial⟩

theorem loadAll (h : acc.Tells ids l.slots) (hl : l.reader = some reader) (s : σ) :
    (acc.log (readAll reader acc.order l.slots s)).Tells ids (l.loadAll s).2.1.slots := by
  obtain ⟨hslots, hlaw⟩ := loadSlots_tells reader h.shows.slots h.shows.nodup s
  refine h.log ⟨?_, fun n hn => ?_, h.shows.nodup⟩ hlaw
  · rw [← hslots, ← hl]
    rfl
  · rw [slotsAfter_of_forall_ne fun e he => ne_of_mem_of_not_mem (element_mem_of_mem_readAll he) hn,
      h.shows.absent n hn]

end Account.Tells

theorem slots_toList (l : LazyList σ α) (s : σ) : (l.toList s).2.1.slots = (l.loadAll s).2.1.slots := by
  unfold toList
  split <;> simp only [*]

section Keep

variable {ids : List UInt32} {reader : UInt32 → σ → Except Error α × σ} {acc : Account α}
  {l : LazyList σ α}

theorem tells_get (h : acc.Tells ids l.slots) (hl : l.reader = some reader) (i : Nat) (s : σ) :
    (keep reader (.get i) ((l, s), acc)).2.2.Tells ids (l.get i s).2.1.slots := by
  have hload := h.load hl i s
  obtain ⟨l', s', ⟨e, heq⟩ | heq | ⟨v, heq, hv⟩⟩ := load_cases l i s
  all_goals
    rw [heq] at hload
    simp only [keep, step, get, reads, heq]
    exact hload

theorem tells_set (h : acc.Tells ids l.slots) (hl : l.reader = some reader) (i : Nat) (w : α) (s : σ) :
    (keep reader (.set i w) ((l, s), acc)).2.2.Tells ids (l.set i w s).2.1.slots := by
  have hload := h.load hl i s
  obtain ⟨l', s', ⟨e, heq⟩ | heq | ⟨v, heq, hv⟩⟩ := load_cases l i s <;> rw [heq] at hload
  · simp only [keep, step, set, get, reads, heq]
    exact hload
  · simp only [keep, step, set, get, reads, heq]
    exact hload
  · obtain ⟨n, hn⟩ := hload.exists_number hv
    have hput := hload.put hn w
    simp only [keep, step, set, get, reads, heq, hv, Option.bind_some, Slot.value?]
    simpa only [Except.map, Account.edit, hn, Option.toList_some, List.map_cons, List.map_nil] using hput

theorem tells_insert (h : acc.Tells ids l.slots) (i : Nat) (w : α) (s : σ) :
    (keep reader (.insert i w) ((l, s), acc)).2.2.Tells ids (l.insert i w).2.slots := by
  simp only [keep, step, insert, reads, Account.log_nil]
  split
  · exact h
  · exact h.add (Nat.le_of_not_lt ‹_›) w

theorem tells_remove (h : acc.Tells ids l.slots) (hl : l.reader = some reader) (i : Nat) (s : σ) :
    (keep reader (.remove i) ((l, s), acc)).2.2.Tells ids (l.remove i s).2.1.slots := by
  have hload := h.load hl i s
  obtain ⟨l', s', ⟨e, heq⟩ | heq | ⟨v, heq, hv⟩⟩ := load_cases l i s <;> rw [heq] at hload
  · simp only [keep, step, remove, reads, heq]
    exact hload
  · simp only [keep, step, remove, reads, heq]
    exact hload
  · obtain ⟨n, hn⟩ := hload.exists_number hv
    have hremove := hload.remove hn
    simp only [keep, step, remove, reads, heq, hv, Option.bind_some, Slot.value?]
    simpa only [Except.map, Account.edit, hn, Option.toList_some, List.map_cons, List.map_nil]
      using hremove

/-- **Accounts.**  An account that tells the slots of a list goes on telling them. -/
theorem tells_keep (h : acc.Tells ids l.slots) (hl : l.reader = some reader) (op : Op α) (s : σ) :
    (keep reader op ((l, s), acc)).2.2.Tells ids (step op (l, s)).2.1.slots := by
  cases op with
  | get i => exact tells_get h hl i s
  | set i w => exact tells_set h hl i w s
  | push w =>
    have hadd := h.add (Nat.le_refl _) w
    rw [List.insertIdx_length_self, ← h.shows.length_eq] at hadd
    simp only [keep, reads, Account.log_nil]
    exact hadd
  | insert i w => exact tells_insert h i w s
  | remove i => exact tells_remove h hl i s
  | clear =>
    simp only [keep, reads, Account.log_nil]
    exact h.clear
  | loadAll => exact h.loadAll hl s
  | toList =>
    show Account.Tells _ ids (l.toList s).2.1.slots
    rw [slots_toList]
    exact h.loadAll hl s
  | _ =>
    simp only [keep, reads, Account.log_nil]
    exact h

end Keep

end CilMetadata.LazyList

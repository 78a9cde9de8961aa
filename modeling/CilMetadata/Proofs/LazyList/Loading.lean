import CilMetadata.Proofs.LazyList.ReaderCalls
import CilMetadata.Proofs.LazyList.Reads

/-!
# Loading slots in order

What loading a whole list comes to, told by the calls of its reader: the slots are visited from the
first to the last, a slot that waits takes one call, and the first call that fails ends the visit.

* `Loads`: slots, the calls for them, and the slots that are left;
* `Loads.idsRead_append`: the ids read, and those that still wait, are the ids that waited before;
* `Loads.exists_failed`: where a visit ends that fails;
* `loadAll_noted_of_reachable`: loading a list that requests can lead to.
-/

namespace CilMetadata.LazyList

variable {σ α : Type}

/-! ### Ids that wait -/

def Slot.id? : Slot α → Option UInt32
  | .pending id => some id
  | .loaded _ => none

/-- The ids of the slots that wait, in the order of the slots. -/
def waitingIds (slots : List (Slot α)) : List UInt32 := slots.filterMap Slot.id?

@[simp] theorem waitingIds_nil : waitingIds ([] : List (Slot α)) = [] := rfl

@[simp] theorem waitingIds_loaded (v : α) (slots : List (Slot α)) :
    waitingIds (.loaded v :: slots) = waitingIds slots := rfl

@[simp] theorem waitingIds_pending (id : UInt32) (slots : List (Slot α)) :
    waitingIds (.pending id :: slots) = id :: waitingIds slots := rfl

theorem waitingIds_append (front back : List (Slot α)) :
    waitingIds (front ++ back) = waitingIds front ++ waitingIds back :=
  List.filterMap_append

theorem waitingIds_of_loaded {slots : List (Slot α)} (h : ∀ slot ∈ slots, slot.isLoaded) :
    waitingIds slots = [] := by
  rw [waitingIds, List.filterMap_eq_nil_iff]
  intro slot hslot
  cases slot with
  | pending id => cases h _ hslot
  | loaded v => rfl

theorem waitingIds_drop {slots : List (Slot α)} {k : Nat} {id : UInt32}
    (h : slots[k]? = some (.pending id)) :
    waitingIds (slots.drop k) = id :: waitingIds (slots.drop (k + 1)) := by
  obtain ⟨hlt, hk⟩ := List.getElem?_eq_some_iff.mp h
  rw [List.drop_eq_getElem_cons hlt, hk, waitingIds_pending]

/-! ### Visits -/

def idsRead (trace : List (UInt32 × Except Error α)) : List UInt32 :=
  trace.filterMap fun call => call.2.toOption.map fun _ => call.1

/-- Slots that are visited in order, with the calls made for them and the slots that are left.  A slot
that waits takes one call, under its id, and keeps the value that the call answers; a loaded slot
takes none; the first call that fails ends the visit. -/
inductive Loads :
    List (Slot α) → List (UInt32 × Except Error α) → Except Error Unit → List (Slot α) → Prop where
  | nil : Loads [] [] (.ok ()) []
  | loaded {slots trace r slots'} (v : α) :
    Loads slots trace r slots' → Loads (.loaded v :: slots) trace r (.loaded v :: slots')
  | read {slots trace r slots'} (id : UInt32) (v : α) :
    Loads slots trace r slots' →
      Loads (.pending id :: slots) ((id, .ok v) :: trace) r (.loaded v :: slots')
  | failed (id : UInt32) (e : Error) (slots : List (Slot α)) :
    Loads (.pending id :: slots) [(id, .error e)] (.error e) (.pending id :: slots)

namespace Loads

variable {slots slots' : List (Slot α)} {trace : List (UInt32 × Except Error α)}
  {r : Except Error Unit}

/-- The calls are made for slots that wait, in their order. -/
theorem ids_prefix (h : Loads slots trace r slots') : trace.map Prod.fst <+: waitingIds slots := by
  induction h with
  | nil => exact List.prefix_rfl
  | loaded v _ ih => exact ih
  | read id v _ ih =>
    rw [List.map_cons, waitingIds_pending]
    exact (List.prefix_cons_inj id).mpr ih
  | failed id e slots => exact ⟨waitingIds slots, rfl⟩

theorem exists_first {id : UInt32} {ids : List UInt32} (h : Loads slots trace r slots')
    (hids : waitingIds slots = id :: ids) :
    ∃ answer later, trace = (id, answer) :: later ∧ later.map Prod.fst <+: ids := by
  induction h with
  | nil => cases hids
  | loaded v _ ih => exact ih hids
  | @read slots trace r slots' id' v hrest _ =>
    cases hids
    exact ⟨.ok v, trace, rfl, hrest.ids_prefix⟩
  | failed id' e slots =>
    cases hids
    exact ⟨.error e, [], rfl, List.nil_prefix⟩

/-- **What was read and what is left.**  An id that waited was read, or still waits. -/
theorem idsRead_append (h : Loads slots trace r slots') :
    idsRead trace ++ waitingIds slots' = waitingIds slots := by
  induction h with
  | nil => rfl
  | loaded v _ ih => exact ih
  | read id v _ ih => exact congrArg (id :: ·) ih
  | failed id e slots => rfl

/-- A call that fails is the last one, and its error is that of the visit. -/
theorem of_error_mem (h : Loads slots trace r slots') {past later : List (UInt32 × Except Error α)}
    {id : UInt32} {e : Error} (heq : trace = past ++ (id, .error e) :: later) :
    later = [] ∧ r = .error e := by
  induction h generalizing past with
  | nil => cases past <;> cases heq
  | loaded v _ ih => exact ih heq
  | read id' v _ ih =>
    cases past with
    | nil => cases heq
    | cons call past => exact ih (List.cons.inj heq).2
  | failed id' e' slots =>
    cases past with
    | nil =>
      cases heq
      exact ⟨rfl, rfl⟩
    | cons call past => cases past <;> cases heq

theorem ids_of_ok (h : Loads slots trace (.ok ()) slots') : trace.map Prod.fst = waitingIds slots := by
  generalize hr : (.ok () : Except Error Unit) = r at h
  induction h with
  | nil => rfl
  | loaded v _ ih => exact ih hr
  | read id v _ ih => exact congrArg (id :: ·) (ih hr)
  | failed id e slots => cases hr

theorem isLoaded_of_ok (h : Loads slots trace (.ok ()) slots') : ∀ slot ∈ slots', slot.isLoaded := by
  generalize hr : (.ok () : Except Error Unit) = r at h
  induction h with
  | nil => exact List.forall_mem_nil _
  | loaded v _ ih => exact List.forall_mem_cons.mpr ⟨rfl, ih hr⟩
  | read id v _ ih => exact List.forall_mem_cons.mpr ⟨rfl, ih hr⟩
  | failed id e slots => cases hr

/-- **Where a visit fails.**  The slots before the failing one were visited with success; the failing
slot and all behind it are left as they were. -/
theorem exists_failed {e : Error} (h : Loads slots trace (.error e) slots') :
    ∃ (k : Nat) (id : UInt32) (front : List (Slot α)) (past : List (UInt32 × Except Error α)),
      slots[k]? = some (.pending id) ∧ Loads (slots.take k) past (.ok ()) front ∧
        trace = past ++ [(id, .error e)] ∧ slots' = front ++ slots.drop k := by
  generalize hr : (.error e : Except Error Unit) = r at h
  induction h with
  | nil => cases hr
  | loaded v _ ih =>
    obtain ⟨k, id, front, past, hk, hfront, htrace, hslots⟩ := ih hr
    exact ⟨k + 1, id, .loaded v :: front, past, hk, hfront.loaded v, htrace,
      congrArg (Slot.loaded v :: ·) hslots⟩
  | read id' v _ ih =>
    obtain ⟨k, id, front, past, hk, hfront, htrace, hslots⟩ := ih hr
    exact ⟨k + 1, id, .loaded v :: front, (id', .ok v) :: past, hk, hfront.read id' v,
      congrArg ((id', Except.ok v) :: ·) htrace, congrArg (Slot.loaded v :: ·) hslots⟩
  | failed id e' slots =>
    cases hr
    exact ⟨0, id, [], [], rfl, .nil, rfl, rfl⟩

theorem length_eq (h : Loads slots trace r slots') : slots'.length = slots.length := by
  induction h with
  | nil => rfl
  | loaded v _ ih => exact congrArg (· + 1) ih
  | read id v _ ih => exact congrArg (· + 1) ih
  | failed id e slots => rfl

end Loads

theorem loads_of_loaded {slots : List (Slot α)} (h : ∀ slot ∈ slots, slot.isLoaded) :
    Loads slots [] (.ok ()) slots := by
  induction slots with
  | nil => exact .nil
  | cons slot slots ih =>
    rw [List.forall_mem_cons] at h
    cases slot with
    | pending id => cases h.1
    | loaded v => exact (ih h.2).loaded v

theorem loadSlots_of_loaded (reader : Option (UInt32 → σ → Except Error α × σ)) {slots : List (Slot α)}
    (h : ∀ slot ∈ slots, slot.isLoaded) (s : σ) : loadSlots reader slots s = (.ok (), slots, s) := by
  induction slots with
  | nil => rfl
  | cons slot slots ih =>
    rw [List.forall_mem_cons] at h
    cases slot with
    | pending id => cases h.1
    | loaded v => simp only [loadSlots, ih h.2]

theorem loads_readAll (reader : UInt32 → σ → Except Error α × σ) {order : List Nat}
    {slots : List (Slot α)} (hlen : order.length = slots.length) (s : σ) :
    Loads slots (calls (readAll reader order slots s)) (loadSlots (some reader) slots s).1
      (loadSlots (some reader) slots s).2.1 := by
  induction slots generalizing order s with
  | nil =>
    cases order with
    | nil => exact .nil
    | cons n order => cases hlen
  | cons slot slots ih =>
    cases order with
    | nil => cases hlen
    | cons n order =>
      have hrest : order.length = slots.length := Nat.succ.inj hlen
      cases slot with
      | loaded v => exact (ih hrest s).loaded v
      | pending id =>
        cases hr : reader id s with
        | mk r t =>
          cases r with
          | error e =>
            simp only [loadSlots, readAll, readId, hr]
            exact .failed id e slots
          | ok v =>
            simp only [loadSlots, readAll, readId, hr]
            exact (ih hrest t).read id v

theorem toList_eq (l : LazyList σ α) (s : σ) :
    l.toList s = ((l.loadAll s).1.map fun _ => (l.loadAll s).2.1.loadedItems, (l.loadAll s).2) := by
  unfold toList
  split <;> rename_i h <;> rw [h] <;> rfl

/-! ### Readers that answer -/

/-- The reader answers ids that it is called with one after the other. -/
def AnswersEach (read : UInt32 → σ → Except Error α × σ) : List UInt32 → σ → Prop
  | [], _ => True
  | id :: ids, s => (∃ v, (read id s).1 = .ok v) ∧ AnswersEach read ids (read id s).2

/-- Loading all slots succeeds exactly if the reader answers the ids that wait. -/
theorem loadSlots_eq_ok_iff (reader : Option (UInt32 → σ → Except Error α × σ))
    (slots : List (Slot α)) (s : σ) :
    (loadSlots reader slots s).1 = .ok () ↔ AnswersEach (readId reader) (waitingIds slots) s := by
  induction slots generalizing s with
  | nil => simp [loadSlots, AnswersEach]
  | cons slot slots ih =>
    cases slot with
    | loaded v => exact ih s
    | pending id =>
      cases hr : readId reader id s with
      | mk r t =>
        cases r with
        | error e => simp [loadSlots, AnswersEach, hr]
        | ok v =>
          simp only [loadSlots, waitingIds_pending, AnswersEach, hr]
          simpa using ih t

/-! ### Lists that requests lead to -/

/-- Lists as they can be after requests to a new list, each made in an outer state of its own. -/
inductive Reachable : LazyList σ α → Prop where
  | empty : Reachable empty
  | ofList (items : List α) : Reachable (ofList items)
  | ofIds (ids : List UInt32) (reader : UInt32 → σ → Except Error α × σ) : Reachable (ofIds ids reader)
  | request {l : LazyList σ α} (op : Op α) (s : σ) : Reachable l → Reachable (step op (l, s)).2.1

theorem Reachable.run {l : LazyList σ α} (h : Reachable l) (ops : List (Op α)) (s : σ) :
    Reachable (run step ops (l, s)).2.1 :=
  run_preserves (P := fun p : LazyList σ α × σ => Reachable p.1) (fun op p hp => hp.request op p.2) ops h

theorem Reachable.not_waits {l : LazyList σ α} (h : Reachable l) (hl : l.reader = none) (id : UInt32) :
    ¬ l.Waits id := by
  induction h with
  | empty => exact List.not_mem_nil
  | ofList items => simp [Waits, LazyList.ofList]
  | ofIds ids reader => cases hl
  | request op s _ ih =>
    rw [reader_step] at hl
    exact fun hw => ih hl (waits_of_step hw)

/-- A list with slots of both kinds. -/
def halfLoaded : LazyList Script Int :=
  (run step [.insert 1 7, .get 0] (ofIds [4, 8, 6] Script.read, ⟨[], []⟩)).2.1

theorem reachable_halfLoaded : Reachable halfLoaded := (Reachable.ofIds _ _).run _ _

/-- The calls that the reader gets while everything is loaded. -/
def loadCalls (l : LazyList σ α) (s : σ) : List (UInt32 × Except Error α) :=
  (l.noted.loadAll (s, [])).2.2.2

/-- **Loading.**  A reader that notes its calls gets those of `loadCalls`, and these are the calls of
a visit of the slots. -/
theorem loadAll_noted_of_reachable {l : LazyList σ α} (h : Reachable l) (s : σ) :
    Loads l.slots (l.loadCalls s) (l.loadAll s).1 (l.loadAll s).2.1.slots ∧
      ∀ log, l.noted.loadAll (s, log) =
        ((l.loadAll s).1, (l.loadAll s).2.1.noted, (l.loadAll s).2.2, log ++ l.loadCalls s) := by
  cases hl : l.reader with
  | none =>
    have hloaded : ∀ slot ∈ l.slots, slot.isLoaded := by
      intro slot hslot
      cases slot with
      | pending id => exact absurd hslot (h.not_waits hl id)
      | loaded v => rfl
    have hload : l.loadAll s = (.ok (), l, s) := by
      simp only [loadAll, loadSlots_of_loaded l.reader hloaded s]
    have hnoted : ∀ log, l.noted.loadAll (s, log) = (.ok (), l.noted, s, log) := fun log => by
      simp only [loadAll, noted, loadSlots_of_loaded _ hloaded]
    rw [loadCalls, hnoted, hload]
    refine ⟨loads_of_loaded hloaded, fun log => ?_⟩
    rw [hnoted, List.append_nil]
  | some reader =>
    have hlen : (List.range l.slots.length).length = l.slots.length := List.length_range
    have hcalls : l.loadCalls s = calls (readAll reader (List.range l.slots.length) l.slots s) := by
      rw [loadCalls, loadAll_noted hl hlen s [], List.nil_append]
    have hloads := loads_readAll reader hlen s
    rw [← hcalls, ← hl] at hloads
    exact ⟨hloads, fun log => by rw [hcalls, loadAll_noted hl hlen s log]⟩

end CilMetadata.LazyList

import CilMetadata.LazyList.Scripted
import CilMetadata.Proofs.LazyList.Account

/-!
# The calls of the reader

A reader that notes its calls gets, in any run of requests, the calls that are in the account of the
run, in the same order and with the same answers; the run is not changed by either.  So what the
history of the account says of its calls is said of the calls of the reader.

* `step_noted`: the calls of one request;
* `Answers`, `Asks`: what a list answers for an element with a value, and for one that waits;
* `accounts_of_run`: the calls of a run.
-/

namespace CilMetadata.LazyList

variable {σ α : Type}

/-! ### Readers that note their calls -/

/-- Passes a call on and notes it with its answer. -/
def noting (reader : UInt32 → σ → Except Error α × σ) (id : UInt32)
    (s : σ × List (UInt32 × Except Error α)) : Except Error α × σ × List (UInt32 × Except Error α) :=
  ((reader id s.1).1, (reader id s.1).2, s.2 ++ [(id, (reader id s.1).1)])

def noted (l : LazyList σ α) : LazyList (σ × List (UInt32 × Except Error α)) α :=
  ⟨l.slots, l.reader.map noting⟩

def calls (events : List (Event α)) : List (UInt32 × Except Error α) := events.filterMap Event.call?

section Noted

variable {reader : UInt32 → σ → Except Error α × σ} {order : List Nat} {l : LazyList σ α}

theorem load_noted (hl : l.reader = some reader) (hlen : order.length = l.slots.length) (i : Nat) (s : σ)
    (log : List (UInt32 × Except Error α)) :
    l.noted.load i (s, log) =
      ((l.load i s).1, (l.load i s).2.1.noted, (l.load i s).2.2,
        log ++ calls (readAt reader order l.slots i s)) := by
  cases hslot : l.slots[i]? with
  | none =>
    rw [readAt_of_forall_ne (by simp [hslot])]
    simp [load, noted, hslot, calls]
  | some slot =>
    cases slot with
    | loaded v =>
      rw [readAt_of_forall_ne (by simp [hslot])]
      simp [load, noted, hslot, calls]
    | pending id =>
      have hlt : i < order.length := hlen ▸ (List.getElem?_eq_some_iff.mp hslot).1
      rw [readAt_of_pending (List.getElem?_eq_getElem hlt) hslot]
      cases hr : reader id s with
      | mk r t => cases r <;> simp [load, noted, hslot, hl, readId, noting, hr, calls, Event.call?]

theorem loadSlots_noted {slots : List (Slot α)} (hlen : order.length = slots.length) (s : σ)
    (log : List (UInt32 × Except Error α)) :
    loadSlots (some (noting reader)) slots (s, log) =
      ((loadSlots (some reader) slots s).1, (loadSlots (some reader) slots s).2.1,
        (loadSlots (some reader) slots s).2.2, log ++ calls (readAll reader order slots s)) := by
  induction slots generalizing order s log with
  | nil =>
    cases order with
    | nil => simp [loadSlots, readAll, calls]
    | cons n order => cases hlen
  | cons slot slots ih =>
    cases order with
    | nil => cases hlen
    | cons n order =>
      have hrest : order.length = slots.length := Nat.succ.inj hlen
      cases slot with
      | loaded v => simp only [loadSlots, readAll, ih hrest]
      | pending id =>
        cases hr : reader id s with
        | mk r t =>
          cases r with
          | error e => simp [loadSlots, readAll, readId, noting, hr, calls, Event.call?]
          | ok v => simp [loadSlots, readAll, readId, noting, hr, ih hrest, calls, Event.call?]

theorem loadAll_noted (hl : l.reader = some reader) (hlen : order.length = l.slots.length) (s : σ)
    (log : List (UInt32 × Except Error α)) :
    l.noted.loadAll (s, log) =
      ((l.loadAll s).1, (l.loadAll s).2.1.noted, (l.loadAll s).2.2,
        log ++ calls (readAll reader order l.slots s)) := by
  simp only [loadAll, noted, hl, Option.map_some, loadSlots_noted hlen s log]

/-- **One request.**  A reader that notes its calls gets those that the request makes by the account;
the answer, the list and the outer state are the same as without the notes. -/
theorem step_noted (hl : l.reader = some reader) (hlen : order.length = l.slots.length) (op : Op α) (s : σ)
    (log : List (UInt32 × Except Error α)) :
    step op (l.noted, s, log) =
      ((step op (l, s)).1, (step op (l, s)).2.1.noted, (step op (l, s)).2.2,
        log ++ calls (reads reader op order l.slots s)) := by
  cases op with
  | get i =>
    have hload := load_noted hl hlen i s log
    obtain ⟨l', s', ⟨e, heq⟩ | heq | ⟨v, heq, hv⟩⟩ := load_cases l i s <;> rw [heq] at hload
    · simp only [step, get, reads, hload, heq]
    · simp only [step, get, reads, hload, heq]
    · simp only [step, get, reads, hload, heq]
      rfl
  | set i w =>
    have hload := load_noted hl hlen i s log
    obtain ⟨l', s', ⟨e, heq⟩ | heq | ⟨v, heq, hv⟩⟩ := load_cases l i s <;> rw [heq] at hload
    · simp only [step, set, get, reads, hload, heq]
    · simp only [step, set, get, reads, hload, heq]
    · have hv' : l'.noted.slots[i]? = some (.loaded v) := hv
      simp only [step, set, get, reads, hload, heq, hv, hv', Option.bind_some, Slot.value?]
      rfl
  | insert i w =>
    by_cases hi : l.slots.length < i
    · simp [step, insert, reads, noted, calls, hi]
    · simp [step, insert, reads, noted, calls, hi]
  | remove i =>
    have hload := load_noted hl hlen i s log
    obtain ⟨l', s', ⟨e, heq⟩ | heq | ⟨v, heq, hv⟩⟩ := load_cases l i s <;> rw [heq] at hload
    · simp only [step, remove, reads, hload, heq]
    · simp only [step, remove, reads, hload, heq]
    · have hv' : l'.noted.slots[i]? = some (.loaded v) := hv
      simp only [step, remove, reads, hload, heq, hv, hv', Option.bind_some, Slot.value?]
      rfl
  | loadAll => simp only [step, reads, loadAll_noted hl hlen s log]
  | toList =>
    have hload := loadAll_noted hl hlen s log
    cases hr : l.loadAll s with
    | mk r p =>
      rw [hr] at hload
      cases r with
      | error e => simp only [step, toList, reads, hload, hr]
      | ok u =>
        simp only [step, toList, reads, hload, hr]
        rfl
  | _ =>
    simp only [reads, calls, List.filterMap_nil, List.append_nil]
    rfl

end Noted

/-! ### Elements with a value -/

section Loaded

variable {l : LazyList σ α} {i : Nat} {v : α}

theorem loadSlots_getElem?_loaded (reader : Option (UInt32 → σ → Except Error α × σ))
    {slots : List (Slot α)} (h : slots[i]? = some (.loaded v)) (s : σ) :
    (loadSlots reader slots s).2.1[i]? = some (.loaded v) := by
  induction slots generalizing i s with
  | nil => cases h
  | cons slot slots ih =>
    cases i with
    | zero =>
      cases Option.some.inj h
      rfl
    | succ i =>
      cases slot with
      | loaded w => exact ih h s
      | pending id =>
        unfold loadSlots
        split
        · exact h
        · exact ih h _

theorem eq_map_loaded {slots : List (Slot α)} (h : ∀ slot ∈ slots, slot.isLoaded) :
    slots = (slots.filterMap Slot.value?).map .loaded := by
  induction slots with
  | nil => rfl
  | cons slot slots ih =>
    rw [List.forall_mem_cons] at h
    cases slot with
    | pending id => cases h.1
    | loaded v => exact congrArg (Slot.loaded v :: ·) (ih h.2)

theorem length_loadSlots (reader : Option (UInt32 → σ → Except Error α × σ)) (slots : List (Slot α))
    (s : σ) : (loadSlots reader slots s).2.1.length = slots.length := by
  induction slots generalizing s with
  | nil => rfl
  | cons slot slots ih =>
    cases slot with
    | loaded v => exact congrArg (· + 1) (ih s)
    | pending id =>
      unfold loadSlots
      split
      · rfl
      · exact congrArg (· + 1) (ih _)

theorem toList_ok {s : σ} {vs : List α} (h : (step .toList (l, s)).1 = .ok (.items vs)) :
    (loadSlots l.reader l.slots s).2.1 = vs.map .loaded := by
  cases hr : l.loadAll s with
  | mk r p =>
    cases r with
    | error e =>
      simp only [step, toList, hr, Except.map] at h
      cases h
    | ok u =>
      simp only [step, toList, hr, Except.map, Except.ok.injEq, Answer.items.injEq] at h
      have hslots : (loadSlots l.reader l.slots s).2.1 = p.1.slots := congrArg (fun p => p.2.1.slots) hr
      rw [hslots, ← h]
      exact eq_map_loaded (loadAll_of_ok hr)

theorem loadedItems_getElem? (h : l.slots[i]? = some (.loaded v)) :
    l.loadedItems[(l.slots.take i).countP Slot.isLoaded]? = some v := by
  have hcount : (l.slots.take i).countP Slot.isLoaded =
      ((l.slots.take i).filterMap Slot.value?).length := by
    rw [List.length_filterMap_eq_countP]
    exact List.countP_congr fun slot _ => by cases slot <;> simp [Slot.isLoaded, Slot.value?]
  have hitems : l.loadedItems =
      (l.slots.take i).filterMap Slot.value? ++ v :: (l.slots.drop (i + 1)).filterMap Slot.value? := by
    conv_lhs => rw [loadedItems, eq_take_append_drop h]
    rw [List.filterMap_append]
    rfl
  rw [hitems, hcount, List.getElem?_append_right (Nat.le_refl _), Nat.sub_self, List.getElem?_cons_zero]

end Loaded

/-- The list answers a value for an element, and calls no reader for it. -/
structure Answers (reader : UInt32 → σ → Except Error α × σ) (order : List Nat) (l : LazyList σ α) (s : σ)
    (n i : Nat) (v : α) : Prop where
  silent : ∀ op id answer, .read n id answer ∉ reads reader op order l.slots s
  isLoaded : step (.isLoaded i) (l, s) = (.ok (.flag true), l, s)
  get : step (.get i) (l, s) = (.ok (.item? (some v)), l, s)
  set : ∀ w, step (.set i w) (l, s) =
    (.ok (.item? (some v)), { l with slots := l.slots.set i (.loaded w) }, s)
  remove : step (.remove i) (l, s) = (.ok (.item v), { l with slots := l.slots.eraseIdx i }, s)
  toList : ∀ vs, (step .toList (l, s)).1 = .ok (.items vs) → vs[i]? = some v
  loadedItems : l.loadedItems[(l.slots.take i).countP Slot.isLoaded]? = some v

/-- The list asks the reader for an element as soon as it is asked for the element. -/
structure Asks (reader : UInt32 → σ → Except Error α × σ) (order : List Nat) (l : LazyList σ α) (s : σ)
    (n i : Nat) (id : UInt32) : Prop where
  calls : ∀ op w, op = .get i ∨ op = .set i w ∨ op = .remove i →
    reads reader op order l.slots s = [.read n id (reader id s).1]
  get : (step (.get i) (l, s)).1 = (reader id s).1.map fun v => .item? (some v)
  set : ∀ w, (step (.set i w) (l, s)).1 = (reader id s).1.map fun v => .item? (some v)
  remove : (step (.remove i) (l, s)).1 = (reader id s).1.map .item
  /-- a read of an earlier element can fail first -/
  all : ∀ op, op = .loadAll ∨ op = .toList →
    (∃ answer, .read n id answer ∈ reads reader op order l.slots s) ∨
      ∃ j < i, ∃ k id' e, order[j]? = some k ∧ .read k id' (.error e) ∈ reads reader op order l.slots s
  toList : ∀ vs, (step .toList (l, s)).1 = .ok (.items vs) →
    ∃ v, .read n id (.ok v) ∈ reads reader .toList order l.slots s ∧ vs[i]? = some v

section Pending

variable {reader : UInt32 → σ → Except Error α × σ} {order : List Nat} {slots : List (Slot α)}
  {n i : Nat} {id : UInt32}

/-- Loading everything comes to an element that waits, or fails before. -/
theorem exists_read_mem_readAll (hn : order[i]? = some n) (hid : slots[i]? = some (.pending id)) (s : σ) :
    (∃ answer, .read n id answer ∈ readAll reader order slots s) ∨
      ∃ j < i, ∃ k id' e, order[j]? = some k ∧ .read k id' (.error e) ∈ readAll reader order slots s := by
  induction slots generalizing order i s with
  | nil => cases hid
  | cons slot slots ih =>
    cases order with
    | nil => cases hn
    | cons m order =>
      cases i with
      | zero =>
        cases Option.some.inj hn
        cases Option.some.inj hid
        refine .inl ⟨(reader id s).1, ?_⟩
        unfold readAll
        split <;> rename_i hr <;> simp [hr]
      | succ i =>
        rw [List.getElem?_cons_succ] at hn hid
        -- a failure after the first element is one place further on
        have hlater : ∀ {events : List (Event α)} {t : σ},
            (∀ e ∈ readAll reader order slots t, e ∈ events) →
            (∃ answer, .read n id answer ∈ events) ∨
              ∃ j < i + 1, ∃ k id' e, (m :: order)[j]? = some k ∧ .read k id' (.error e) ∈ events := by
          intro events t hsub
          rcases ih hn hid t with ⟨answer, hmem⟩ | ⟨j, hj, k, id', e, hk, hmem⟩
          · exact .inl ⟨answer, hsub _ hmem⟩
          · exact .inr ⟨j + 1, Nat.succ_lt_succ hj, k, id', e, hk, hsub _ hmem⟩
        cases slot with
        | loaded v => exact hlater fun e he => he
        | pending id' =>
          cases hr : reader id' s with
          | mk r t =>
            cases r with
            | error e =>
              refine .inr ⟨0, Nat.succ_pos i, m, id', e, rfl, ?_⟩
              simp [readAll, hr]
            | ok v =>
              simp only [readAll, hr]
              exact hlater fun e he => List.mem_cons_of_mem _ he

theorem read_mem_readAll {v : α} (hn : order[i]? = some n) (hid : slots[i]? = some (.pending id)) {s : σ}
    (hv : (loadSlots (some reader) slots s).2.1[i]? = some (.loaded v)) :
    .read n id (.ok v) ∈ readAll reader order slots s := by
  induction slots generalizing order i s with
  | nil => cases hid
  | cons slot slots ih =>
    cases order with
    | nil => cases hn
    | cons m order =>
      cases slot with
      | loaded w =>
        cases i with
        | zero => cases hid
        | succ i =>
          rw [List.getElem?_cons_succ] at hn hid
          exact ih hn hid hv
      | pending id' =>
        cases hr : reader id' s with
        | mk r t =>
          cases r with
          | error e =>
            simp only [loadSlots, readId, hr] at hv
            cases hid.symm.trans hv
          | ok w =>
            simp only [loadSlots, readId, hr] at hv
            simp only [readAll, hr]
            cases i with
            | zero =>
              cases Option.some.inj hn
              cases Option.some.inj hid
              cases Option.some.inj hv
              exact List.mem_cons_self
            | succ i =>
              rw [List.getElem?_cons_succ] at hn hid
              exact List.mem_cons_of_mem _ (ih hn hid hv)

end Pending

/-! ### Runs -/

def kept (ids : List UInt32) (reader : UInt32 → σ → Except Error α × σ) (ops : List (Op α)) (s : σ) :
    (LazyList σ α × σ) × Account α :=
  (run (keep reader) ops ((ofIds ids reader, s), .new ids)).2

/-- What the account of a run says about the calls of the reader, whatever the reader does. -/
structure Accounts (ids : List UInt32) (reader : UInt32 → σ → Except Error α × σ) (ops : List (Op α))
    (s : σ) (l : LazyList σ α) (t : σ) (acc : Account α) : Prop where
  /-- The account is kept of the run as it is. -/
  state : (run step ops (ofIds ids reader, s)).2 = (l, t)
  /-- Its calls are those that the reader gets. -/
  log : run step ops ((ofIds ids reader).noted, s, []) =
    ((run step ops (ofIds ids reader, s)).1, l.noted, t, calls acc.events)
  /-- It tells the slots of the list; no two elements have one number. -/
  slots : Shows (acc.slots ids) acc.order l.slots
  /-- The calls of a further request come next in it. -/
  next : ∀ op, ∃ changes : List (Event α), (∀ e ∈ changes, e.call? = none) ∧
    (kept ids reader (ops ++ [op]) s).2.events =
      acc.events ++ reads reader op acc.order l.slots t ++ changes
  /-- An element is read successfully at most once. -/
  once : ∀ n, acc.events.countP (Event.loads n) ≤ 1
  /-- The reader is called for elements of the first ones that nothing has settled, ... -/
  waiting : ∀ past n id answer later, acc.events = past ++ .read n id answer :: later →
    ids[n]? = some id ∧ ∀ e ∈ past, e.settled? ≠ some n
  /-- ... and that wait in the list. -/
  inside : ∀ op n id answer, .read n id answer ∈ reads reader op acc.order l.slots t →
    ∃ i : Nat, acc.order[i]? = some n ∧ l.slots[i]? = some (.pending id)
  /-- An element that waits is read when it is asked for. -/
  asks : ∀ (i n : Nat) id, acc.order[i]? = some n → l.slots[i]? = some (.pending id) →
    Asks reader acc.order l t n i id
  /-- After a failed call the element still waits in the list. -/
  failed : ∀ past n id e later, acc.events = past ++ .read n id (.error e) :: later →
    (∀ e' ∈ later, e'.settled? ≠ some n) →
    ∃ i : Nat, acc.order[i]? = some n ∧ l.slots[i]? = some (.pending id)
  /-- The value of an element is that of its one call, or the one that the caller put last. -/
  value : ∀ past e later n v (i : Nat), acc.events = past ++ e :: later → e.value? = some (n, v) →
    (∀ w, .put n w ∉ later) → acc.order[i]? = some n → Answers reader acc.order l t n i v

section Run

variable {ids : List UInt32} {reader : UInt32 → σ → Except Error α × σ} {acc : Account α}
  {l : LazyList σ α}

theorem events_edit (acc : Account α) (op : Op α) (r : Except Error (Answer α)) :
    ∃ changes : List (Event α), (acc.edit op r).events = acc.events ++ changes ∧
      ∀ e ∈ changes, e.call? = none := by
  unfold Account.edit
  split
  · refine ⟨_, rfl, ?_⟩
    simp [Event.call?]
  · exact ⟨_, rfl, by simp [Event.call?]⟩
  · exact ⟨_, rfl, by simp [Event.call?]⟩
  · exact ⟨_, rfl, by simp [Event.call?]⟩
  · exact ⟨_, rfl, by simp [Event.call?]⟩
  · exact ⟨[], (List.append_nil _).symm, List.forall_mem_nil _⟩

theorem events_keep (reader : UInt32 → σ → Except Error α × σ) (l : LazyList σ α) (s : σ) (acc : Account α)
    (op : Op α) :
    ∃ changes : List (Event α), (∀ e ∈ changes, e.call? = none) ∧
      (keep reader op ((l, s), acc)).2.2.events =
        acc.events ++ reads reader op acc.order l.slots s ++ changes := by
  obtain ⟨changes, heq, hchanges⟩ :=
    events_edit (acc.log (reads reader op acc.order l.slots s)) op (step op (l, s)).1
  exact ⟨changes, hchanges, heq⟩

theorem calls_keep (l : LazyList σ α) (s : σ) (acc : Account α) (op : Op α) :
    calls (keep reader op ((l, s), acc)).2.2.events =
      calls acc.events ++ calls (reads reader op acc.order l.slots s) := by
  obtain ⟨changes, hchanges, heq⟩ := events_keep reader l s acc op
  rw [heq, calls, List.filterMap_append, List.filterMap_append, List.filterMap_eq_nil_iff.mpr hchanges,
    List.append_nil]
  rfl

theorem run_noted (ops : List (Op α)) (s : σ) (h : acc.Tells ids l.slots) (hl : l.reader = some reader) :
    (run step ops (l.noted, s, calls acc.events)).1 = (run (keep reader) ops ((l, s), acc)).1 ∧
      (run step ops (l.noted, s, calls acc.events)).2 =
        ((run (keep reader) ops ((l, s), acc)).2.1.1.noted, (run (keep reader) ops ((l, s), acc)).2.1.2,
          calls (run (keep reader) ops ((l, s), acc)).2.2.events) ∧
      (run (keep reader) ops ((l, s), acc)).2.2.Tells ids (run (keep reader) ops ((l, s), acc)).2.1.1.slots ∧
      (run (keep reader) ops ((l, s), acc)).2.1.1.reader = some reader := by
  refine run_simulates
    (R := fun (p : LazyList (σ × List (UInt32 × Except Error α)) α × σ × List (UInt32 × Except Error α))
        (x : (LazyList σ α × σ) × Account α) =>
      p = (x.1.1.noted, x.1.2, calls x.2.events) ∧ x.2.Tells ids x.1.1.slots ∧ x.1.1.reader = some reader)
    ?_ (fun _ _ => (trivial : True)) ⟨rfl, h, hl⟩
  rintro op _ ⟨⟨l, s⟩, acc⟩ - ⟨rfl, h, hl⟩
  rw [step_noted hl h.shows.length_eq, ← calls_keep]
  exact ⟨rfl, rfl, tells_keep h hl op s, (reader_step op l s).trans hl⟩

theorem run_keep (reader : UInt32 → σ → Except Error α × σ) (l : LazyList σ α) (ops : List (Op α)) (s : σ)
    (acc : Account α) :
    (run step ops (l, s)).1 = (run (keep reader) ops ((l, s), acc)).1 ∧
      (run step ops (l, s)).2 = (run (keep reader) ops ((l, s), acc)).2.1 :=
  run_simulates (R := fun p (x : (LazyList σ α × σ) × Account α) => p = x.1)
    (fun _ _ _ _ h => h ▸ ⟨rfl, rfl⟩) (fun _ _ => (trivial : True)) rfl

/-- Calls are made for elements that wait in the list. -/
theorem slots_of_mem_reads (h : acc.Tells ids l.slots) (hl : l.reader = some reader) {op : Op α} {s : σ}
    {n : Nat} {id : UInt32} {answer : Except Error α}
    (hmem : .read n id answer ∈ reads reader op acc.order l.slots s) :
    acc.slots ids n = some (.pending id) := by
  obtain ⟨changes, -, heq⟩ := events_keep reader l s acc op
  have hlaw := (tells_keep h hl op s).lawful
  obtain ⟨past, later, hsplit⟩ := List.append_of_mem hmem
  rw [heq, hsplit, List.append_assoc, List.append_assoc, lawful_append, List.cons_append] at hlaw
  exact (slotsAfter_eq_pending_iff.mp hlaw.2.pending_of_read).1

theorem asks_of_pending (hl : l.reader = some reader) {i n : Nat} {id : UInt32}
    (hn : acc.order[i]? = some n) (hid : l.slots[i]? = some (.pending id)) (s : σ) :
    Asks reader acc.order l s n i id := by
  have hlt := (List.getElem?_eq_some_iff.mp hid).1
  -- one call decides the three requests for the element
  have hone : (step (.get i) (l, s)).1 = (reader id s).1.map (fun v => .item? (some v)) ∧
      (∀ w, (step (.set i w) (l, s)).1 = (reader id s).1.map fun v => .item? (some v)) ∧
      (step (.remove i) (l, s)).1 = (reader id s).1.map .item := by
    cases hr : reader id s with
    | mk r t =>
      cases r with
      | error e =>
        have hload : l.load i s = (.error e, l, t) := by simp only [load, hid, hl, readId, hr]
        simp [step, set, get, remove, hload, Except.map]
      | ok v =>
        have hload : l.load i s = (.ok true, { l with slots := l.slots.set i (.loaded v) }, t) := by
          simp only [load, hid, hl, readId, hr]
        have hv : (l.slots.set i (.loaded v))[i]? = some (.loaded v) := List.getElem?_set_self hlt
        simp [step, set, get, remove, hload, hv, Slot.value?, Except.map]
  refine ⟨?_, hone.1, hone.2.1, hone.2.2, ?_, fun vs hvs => ?_⟩
  · rintro op w (rfl | rfl | rfl) <;> exact readAt_of_pending hn hid s
  · rintro op (rfl | rfl) <;> exact exists_read_mem_readAll hn hid s
  · have hend := toList_ok hvs
    have hlen : i < vs.length := by
      have := congrArg List.length hend
      rw [length_loadSlots, List.length_map] at this
      exact this ▸ hlt
    refine ⟨vs[i], read_mem_readAll hn hid ?_, List.getElem?_eq_getElem hlen⟩
    rw [← hl, hend, List.getElem?_map, List.getElem?_eq_getElem hlen]
    rfl

theorem answers_of_loaded (h : acc.Tells ids l.slots) (hl : l.reader = some reader) {i n : Nat} {v : α}
    (hn : acc.order[i]? = some n) (hv : l.slots[i]? = some (.loaded v)) (s : σ) :
    Answers reader acc.order l s n i v where
  silent op id answer hmem := by
    have hpending := (h.shows.slot_eq hn).trans (slots_of_mem_reads h hl hmem)
    cases hv.symm.trans hpending
  isLoaded := by simp [step, isLoaded, hv, Slot.isLoaded]
  get := by
    simp only [step, get_loaded hv]
    rfl
  set w := by
    simp only [step, set_loaded hv]
    rfl
  remove := by
    simp only [step, remove_loaded hv]
    rfl
  toList vs hvs := by
    have hend := loadSlots_getElem?_loaded l.reader hv s
    rw [toList_ok hvs, List.getElem?_map] at hend
    obtain ⟨w, hw, heq⟩ := Option.map_eq_some_iff.mp hend
    cases heq
    exact hw
  loadedItems := loadedItems_getElem? hv

theorem slots_of_value? (h : acc.Tells ids l.slots) {past later : List (Event α)} {e : Event α} {n i : Nat}
    {v : α} (hevents : acc.events = past ++ e :: later) (he : e.value? = some (n, v))
    (hput : ∀ w, .put n w ∉ later) (hn : acc.order[i]? = some n) : l.slots[i]? = some (.loaded v) := by
  have hlaw := h.lawful
  rw [hevents, lawful_append] at hlaw
  have hslots : acc.slots ids n = slotsAfter (e.apply (slotsAfter (waiting ids) past)) later n := by
    rw [Account.slots, hevents, slotsAfter_append, slotsAfter_cons]
  have hstays : ∀ slot ∈ acc.slots ids n, slot = .loaded v := by
    rw [hslots]
    refine hlaw.2.2.stays (fun slot hslot => ?_) hput
    rw [Event.apply_of_value? he] at hslot
    exact (Option.some.inj hslot).symm
  have hlt : i < l.slots.length := h.shows.length_eq ▸ (List.getElem?_eq_some_iff.mp hn).1
  rw [← h.shows.slot_eq hn, List.getElem?_eq_getElem hlt] at hstays
  rw [List.getElem?_eq_getElem hlt, hstays _ rfl]

end Run

/-- **Calls of the reader.**  In every run, for every reader: the calls that the reader gets are those
of an account that follows each element through the list, and that has the properties of
`Accounts`. -/
theorem accounts_of_run (ids : List UInt32) (reader : UInt32 → σ → Except Error α × σ) (ops : List (Op α))
    (s : σ) :
    Accounts ids reader ops s (kept ids reader ops s).1.1 (kept ids reader ops s).1.2
      (kept ids reader ops s).2 := by
  have hkeep := run_keep reader (ofIds ids reader) ops s (.new ids)
  obtain ⟨hans, hstate, h, hl⟩ :=
    run_noted (l := ofIds ids reader) ops s (Account.Tells.new ids) rfl
  -- what is known of an element that the reader is called for
  have hpending : ∀ {past later : List (Event α)} {n id answer},
      (kept ids reader ops s).2.events = past ++ .read n id answer :: later →
      (waiting ids n : Option (Slot α)) = some (.pending id) ∧ ∀ e ∈ past, e.settled? ≠ some n := by
    intro past later n id answer heq
    have hlaw : Lawful _ (kept ids reader ops s).2.events := h.lawful
    rw [heq] at hlaw
    exact slotsAfter_eq_pending_iff.mp hlaw.pending_of_read
  constructor
  case state => exact hkeep.2
  case log => exact Prod.ext (hans.trans hkeep.1.symm) hstate
  case slots => exact h.shows
  case next =>
    intro op
    rw [kept, run_append]
    exact events_keep reader _ _ _ op
  case once =>
    intro n
    refine Nat.le_trans (h.lawful.countP_loads_le n) ?_
    split
    · exact Nat.le_refl 1
    · exact Nat.zero_le 1
  case waiting =>
    intro past n id answer later heq
    obtain ⟨hid, hpast⟩ := hpending heq
    refine ⟨?_, hpast⟩
    simpa [waiting] using hid
  case inside =>
    intro op n id answer hmem
    exact h.shows.exists_place (slots_of_mem_reads h hl hmem)
  case asks =>
    intro i n id hn hid
    exact asks_of_pending hl hn hid _
  case failed =>
    intro past n id e later heq hlater
    obtain ⟨hid, hpast⟩ := hpending heq
    refine h.shows.exists_place (slotsAfter_eq_pending_iff.mpr ⟨hid, ?_⟩)
    change ∀ e ∈ (kept ids reader ops s).2.events, _
    rw [heq, List.forall_mem_append, List.forall_mem_cons]
    exact ⟨hpast, (Option.some_ne_none n).symm, hlater⟩
  case value =>
    intro past e later n v i heq he hput hn
    exact answers_of_loaded h hl hn (slots_of_value? h heq he hput hn) _

/-- A failed call is made again for the same element, which has moved by then. -/
example : calls (kept [4, 8] Script.read [.get 1, .insert 0 7, .get 2, .get 2]
    ⟨[(8, 1, .outOfBounds)], []⟩).2.events = [(8, .error .outOfBounds), (8, .ok 802)] := rfl

end CilMetadata.LazyList

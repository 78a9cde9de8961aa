import CilMetadata.Proofs.LazyList.Loading

/-!
# Loading everything, again and again

Loading a list calls the reader for the slots that wait, in order, up to the first failure.  What was
read until then is kept, so an attempt after a failed one goes on with the slot that failed.

* `Visits`: the calls of one attempt;
* `Complete`: what a list answers after an attempt that succeeded;
* `ResumesAt`: where the next attempt starts after one that failed;
* `idsReadBy_attempts`: the ids read by any number of attempts, each from an outer state of its own;
* `resumes_of_reachable`: all of it, for every list that requests lead to.
-/

namespace CilMetadata.LazyList

variable {σ α : Type}

/-! ### One attempt -/

/-- The calls that loading everything makes from an outer state. -/
structure Visits (l : LazyList σ α) (s : σ) : Prop where
  /-- The reader gets the calls of `loadCalls`, and to note them changes nothing. -/
  log : ∀ log, l.noted.loadAll (s, log) =
    ((l.loadAll s).1, (l.loadAll s).2.1.noted, (l.loadAll s).2.2, log ++ l.loadCalls s)
  /-- They are made for the slots that wait, in the order of the slots, ... -/
  order : (l.loadCalls s).map Prod.fst <+: waitingIds l.slots
  /-- ... for all of them if the attempt succeeds, ... -/
  all : (l.loadAll s).1 = .ok () → (l.loadCalls s).map Prod.fst = waitingIds l.slots
  /-- ... and a call that fails is the last, with the error of the attempt. -/
  last : ∀ past id e later, l.loadCalls s = past ++ (id, .error e) :: later →
    later = [] ∧ (l.loadAll s).1 = .error e
  /-- The attempt succeeds exactly if the reader answers every id that waits. -/
  ok_iff : (l.loadAll s).1 = .ok () ↔ AnswersEach (readId l.reader) (waitingIds l.slots) s

theorem visits_of_reachable {l : LazyList σ α} (h : Reachable l) (s : σ) : Visits l s := by
  obtain ⟨hloads, hlog⟩ := loadAll_noted_of_reachable h s
  refine ⟨hlog, hloads.ids_prefix, fun hok => ?_, fun past id e later heq => hloads.of_error_mem heq,
    loadSlots_eq_ok_iff l.reader l.slots s⟩
  rw [hok] at hloads
  exact hloads.ids_of_ok

/-! ### After a success -/

section Loaded

variable {l : LazyList σ α} {vs : List α}

theorem get_of_slots_loaded (h : l.slots = vs.map .loaded) (i : Nat) (s : σ) :
    l.get i s = (.ok vs[i]?, l, s) := by
  have hslot : l.slots[i]? = vs[i]?.map .loaded := by rw [h, List.getElem?_map]
  cases hv : vs[i]? with
  | none =>
    rw [hv] at hslot
    simp only [get, load, hslot, Option.map_none]
  | some v =>
    rw [hv] at hslot
    exact get_loaded hslot s

theorem toList_of_slots_loaded (h : l.slots = vs.map .loaded) (s : σ) :
    l.toList s = (.ok vs, l, s) := by
  obtain ⟨slots, reader⟩ := l
  obtain rfl : slots = vs.map .loaded := h
  have hloaded : ∀ slot ∈ vs.map Slot.loaded, slot.isLoaded := by simp [Slot.isLoaded]
  rw [toList_eq, loadAll, loadSlots_of_loaded reader hloaded]
  exact congrArg (fun xs => (Except.ok xs, _, s)) (loadedItems_map_loaded vs reader)

end Loaded

/-- What a list has and answers after an attempt that succeeded. -/
structure Complete (l : LazyList σ α) (s : σ) (vs : List α) : Prop where
  /-- Every slot is loaded, with the element that `toList` answers in its place. -/
  slots : (l.loadAll s).2.1.slots = vs.map .loaded
  length : vs.length = l.length
  toList : l.toList s = (.ok vs, (l.loadAll s).2)
  /-- From then on the reader is not called, neither by `toList` ... -/
  toList_again : ∀ t log, (l.loadAll s).2.1.noted.toList (t, log) =
    (.ok vs, (l.loadAll s).2.1.noted, t, log)
  /-- ... nor by `get`, which answers the elements that `toList` answers. -/
  get : ∀ i t log, (l.loadAll s).2.1.noted.get i (t, log) =
    (.ok vs[i]?, (l.loadAll s).2.1.noted, t, log)

theorem exists_complete {l : LazyList σ α} (h : Reachable l) {s : σ} (hok : (l.loadAll s).1 = .ok ()) :
    ∃ vs, Complete l s vs := by
  have hloads := (loadAll_noted_of_reachable h s).1
  rw [hok] at hloads
  have hslots : (l.loadAll s).2.1.slots = (l.loadAll s).2.1.loadedItems.map .loaded :=
    eq_map_loaded hloads.isLoaded_of_ok
  refine ⟨(l.loadAll s).2.1.loadedItems, hslots, ?_, ?_, fun t log => ?_, fun i t log => ?_⟩
  · have hlen := hloads.length_eq
    rw [hslots, List.length_map] at hlen
    exact hlen
  · rw [toList_eq, hok]
    rfl
  · exact toList_of_slots_loaded (l := (l.loadAll s).2.1.noted) hslots _
  · exact get_of_slots_loaded (l := (l.loadAll s).2.1.noted) hslots i _

theorem toList_of_get {l l' : LazyList σ α} {i : Nat} {v : α} {s s' t : σ} {vs : List α}
    (hget : l.get i s = (.ok (some v), l', s')) (hlist : (l'.toList t).1 = .ok vs) :
    vs[i]? = some v := by
  have hslot : l'.slots[i]? = some (.loaded v) := by
    obtain ⟨l₁, s₁, ⟨e, heq⟩ | heq | ⟨w, heq, hw⟩⟩ := load_cases l i s
    · simp only [get, heq] at hget
      cases hget
    · simp only [get, heq] at hget
      cases hget
    · simp only [get, heq, hw, Option.bind_some, Slot.value?] at hget
      cases hget
      exact hw
  have hstep : (step .toList (l', t)).1 = .ok (.items vs) := by
    simp only [step, hlist, Except.map]
  have hend := loadSlots_getElem?_loaded l'.reader hslot t
  rw [toList_ok hstep, List.getElem?_map] at hend
  obtain ⟨w, hw, heq⟩ := Option.map_eq_some_iff.mp hend
  cases heq
  exact hw

/-! ### After a failure -/

/-- An attempt fails at a slot, and every attempt after it starts with that slot. -/
structure ResumesAt (l : LazyList σ α) (s : σ) (e : Error) (k : Nat) (id : UInt32) : Prop where
  waits : l.slots[k]? = some (.pending id)
  /-- All slots before it that wait were called for, and then the slot itself. -/
  calls : ∃ past, l.loadCalls s = past ++ [(id, .error e)] ∧
    past.map Prod.fst = waitingIds (l.slots.take k)
  loaded : ∀ slot ∈ (l.loadAll s).2.1.slots.take k, slot.isLoaded
  kept : (l.loadAll s).2.1.slots.drop k = l.slots.drop k
  /-- The next attempt calls for the slot, and for slots behind it. -/
  again : ∀ t, ∃ answer later, (l.loadAll s).2.1.loadCalls t = (id, answer) :: later ∧
    later.map Prod.fst <+: waitingIds (l.slots.drop (k + 1))

theorem exists_resumesAt {l : LazyList σ α} (h : Reachable l) {s : σ} {e : Error}
    (he : (l.loadAll s).1 = .error e) : ∃ k id, ResumesAt l s e k id := by
  have hloads := (loadAll_noted_of_reachable h s).1
  rw [he] at hloads
  obtain ⟨k, id, front, past, hk, hfront, hcalls, hslots⟩ := hloads.exists_failed
  have hlen : front.length = k := by
    have hlt := (List.getElem?_eq_some_iff.mp hk).1
    rw [hfront.length_eq, List.length_take]
    omega
  have hwaiting : waitingIds (l.loadAll s).2.1.slots = id :: waitingIds (l.slots.drop (k + 1)) := by
    rw [hslots, waitingIds_append, waitingIds_of_loaded hfront.isLoaded_of_ok, waitingIds_drop hk]
    rfl
  refine ⟨k, id, hk, ⟨past, hcalls, hfront.ids_of_ok⟩, ?_, ?_, fun t => ?_⟩
  · rw [hslots, List.take_left' hlen]
    exact hfront.isLoaded_of_ok
  · rw [hslots, List.drop_left' hlen]
  · have hnext : Reachable (l.loadAll s).2.1 := h.request .loadAll s
    exact (loadAll_noted_of_reachable hnext t).1.exists_first hwaiting

/-! ### Many attempts -/

/-- Loads everything from an outer state; answers how it went, and the calls of the reader. -/
def attempt (s : σ) (l : LazyList σ α) :
    (Except Error Unit × List (UInt32 × Except Error α)) × LazyList σ α :=
  (((l.loadAll s).1, l.loadCalls s), (l.loadAll s).2.1)

/-- The ids that attempts have read successfully, in order. -/
def idsReadBy (answers : List (Except Error Unit × List (UInt32 × Except Error α))) : List UInt32 :=
  answers.flatMap fun answer => idsRead answer.2

theorem reachable_attempts {l : LazyList σ α} (h : Reachable l) (ts : List σ) :
    Reachable (run attempt ts l).2 :=
  run_preserves (P := Reachable) (fun t _ hl => hl.request .loadAll t) ts h

theorem reader_attempts (l : LazyList σ α) (ts : List σ) : (run attempt ts l).2.reader = l.reader :=
  run_preserves (P := fun l' : LazyList σ α => l'.reader = l.reader) (fun _ _ hl => hl) ts rfl

/-- **Attempts.**  An id that waited was read by one of the attempts, or still waits after them. -/
theorem idsReadBy_attempts {l : LazyList σ α} (h : Reachable l) (ts : List σ) :
    idsReadBy (run attempt ts l).1 ++ waitingIds (run attempt ts l).2.slots = waitingIds l.slots := by
  induction ts generalizing l with
  | nil => rfl
  | cons t ts ih =>
    have hrest := ih (h.request .loadAll t)
    calc idsReadBy (run attempt (t :: ts) l).1 ++ waitingIds (run attempt (t :: ts) l).2.slots
        = idsRead (l.loadCalls t) ++ (idsReadBy (run attempt ts (l.loadAll t).2.1).1 ++
            waitingIds (run attempt ts (l.loadAll t).2.1).2.slots) := by
          rw [run_cons, idsReadBy, List.flatMap_cons, List.append_assoc]
          rfl
      _ = idsRead (l.loadCalls t) ++ waitingIds (l.loadAll t).2.1.slots := congrArg _ hrest
      _ = waitingIds l.slots := (loadAll_noted_of_reachable h t).1.idsRead_append

/-- An attempt that succeeds reads all that the attempts before it have left. -/
theorem idsReadBy_of_ok {l : LazyList σ α} (h : Reachable l) (ts : List σ) {t : σ}
    (hok : ((run attempt ts l).2.loadAll t).1 = .ok ()) :
    idsReadBy (run attempt (ts ++ [t]) l).1 = waitingIds l.slots := by
  have hloads := (loadAll_noted_of_reachable (reachable_attempts h ts) t).1
  rw [hok] at hloads
  have hall := idsReadBy_attempts h (ts ++ [t])
  have hend : waitingIds (run attempt (ts ++ [t]) l).2.slots = [] := by
    rw [run_append]
    exact waitingIds_of_loaded hloads.isLoaded_of_ok
  rwa [hend, List.append_nil] at hall

/-- **Resumption.**  For every list that requests lead to, whatever its reader does.  An attempt to load
everything calls for the slots that wait, in order, up to the first failure.  After a success `toList`
and `get` answer the same elements without a call.  After a failure the next attempt starts with the
slot that failed, and as soon as the reader answers every id that is left, an attempt succeeds and
every id that waited was read once by the attempts together. -/
theorem resumes_of_reachable {l : LazyList σ α} (h : Reachable l) :
    (∀ s, Visits l s) ∧
    (∀ s, (l.loadAll s).1 = .ok () → ∃ vs, Complete l s vs) ∧
    (∀ i v s l' s', l.get i s = (.ok (some v), l', s') →
      ∀ t vs, (l'.toList t).1 = .ok vs → vs[i]? = some v) ∧
    (∀ s e, (l.loadAll s).1 = .error e → ∃ k id, ResumesAt l s e k id) ∧
    ∀ ts t,
      idsReadBy (run attempt ts l).1 ++ waitingIds (run attempt ts l).2.slots = waitingIds l.slots ∧
      (AnswersEach (readId l.reader) (waitingIds (run attempt ts l).2.slots) t →
        ((run attempt ts l).2.loadAll t).1 = .ok () ∧
          idsReadBy (run attempt (ts ++ [t]) l).1 = waitingIds l.slots) := by
  refine ⟨visits_of_reachable h, fun s => exists_complete h,
    fun i v s l' s' hget t vs hlist => toList_of_get hget hlist, fun s e => exists_resumesAt h,
    fun ts t => ⟨idsReadBy_attempts h ts, fun hreader => ?_⟩⟩
  have hok : ((run attempt ts l).2.loadAll t).1 = .ok () := by
    apply (visits_of_reachable (reachable_attempts h ts) t).ok_iff.mpr
    rwa [reader_attempts]
  exact ⟨hok, idsReadBy_of_ok h ts hok⟩

theorem resumes_of_reachable_halfLoaded :
    let broken : Script := ⟨[(6, 1, .outOfBounds)], [4]⟩
    let mended : Script := ⟨[], [4]⟩
    Reachable halfLoaded ∧
      (run attempt [broken] halfLoaded).1 =
        [(.error .outOfBounds, [(8, .ok 802), (6, .error .outOfBounds)])] ∧
      AnswersEach (readId halfLoaded.reader) (waitingIds (run attempt [broken] halfLoaded).2.slots)
        mended ∧
      ((run attempt [broken] halfLoaded).2.loadAll mended).1 = .ok () ∧
      idsReadBy (run attempt [broken, mended] halfLoaded).1 = [8, 6] := by
  intro broken mended
  have hreader : AnswersEach (readId halfLoaded.reader)
      (waitingIds (run attempt [broken] halfLoaded).2.slots) mended := ⟨⟨602, rfl⟩, trivial⟩
  obtain ⟨-, -, -, -, hattempts⟩ := resumes_of_reachable reachable_halfLoaded
  obtain ⟨hok, hread⟩ := (hattempts [broken] mended).2 hreader
  exact ⟨reachable_halfLoaded, rfl, hreader, hok, hread⟩

end CilMetadata.LazyList

import CilMetadata.Proofs.LazyList.Loading

/-!
# What a failed request leaves

A request for one element that fails leaves the list as it was.  A request for all of them that fails
has loaded the slots before the one that failed, and leaves that slot and all behind it.

* `list_of_step_error`: requests for one element;
* `failsAt_loadAll`: loading all of them;
* `intact_of_error`: both, and the requests past the end, which call no reader.
-/

namespace CilMetadata.LazyList

variable {σ α : Type}

/-! ### One element -/

theorem list_of_load {l l' : LazyList σ α} {i : Nat} {s s' : σ} {r : Except Error Bool}
    (h : l.load i s = (r, l', s')) (hr : r ≠ .ok true) : l' = l := by
  unfold load at h
  split at h
  · cases h
    rfl
  · cases h
    exact absurd rfl hr
  · split at h
    · cases h
      exact absurd rfl hr
    · cases h
      rfl

theorem load_of_length_le {l : LazyList σ α} {i : Nat} (h : l.length ≤ i) (s : σ) :
    l.load i s = (.ok false, l, s) := by
  have hi : l.slots[i]? = none := List.getElem?_eq_none_iff.mpr h
  simp only [load, hi]

/-- A request for one element leaves the list as it was, if it fails. -/
theorem list_of_step_error {op : Op α} (hload : op ≠ .loadAll) (hlist : op ≠ .toList)
    {l : LazyList σ α} {s : σ} {e : Error} (h : (step op (l, s)).1 = .error e) :
    (step op (l, s)).2.1 = l := by
  cases op with
  | get i =>
    obtain ⟨l', s', ⟨e', heq⟩ | heq | ⟨v, heq, hv⟩⟩ := load_cases l i s
    · simp only [step, get, heq]
      exact list_of_load heq (by simp)
    · simp only [step, get, heq] at h
      cases h
    · simp only [step, get, heq] at h
      cases h
  | set i w =>
    obtain ⟨l', s', ⟨e', heq⟩ | heq | ⟨v, heq, hv⟩⟩ := load_cases l i s
    · simp only [step, set, get, heq]
      exact list_of_load heq (by simp)
    · simp only [step, set, get, heq] at h
      cases h
    · simp only [step, set, get, heq, hv, Option.bind_some, Slot.value?] at h
      cases h
  | insert i w =>
    by_cases hi : l.slots.length < i
    · simp only [step, insert, if_pos hi]
    · simp only [step, insert, if_neg hi] at h
      cases h
  | remove i =>
    obtain ⟨l', s', ⟨e', heq⟩ | heq | ⟨v, heq, hv⟩⟩ := load_cases l i s
    · simp only [step, remove, heq]
      exact list_of_load heq (by simp)
    · simp only [step, remove, heq]
      exact list_of_load heq (by simp)
    · simp only [step, remove, heq, hv, Option.bind_some, Slot.value?] at h
      cases h
  | loadAll => exact absurd rfl hload
  | toList => exact absurd rfl hlist
  | _ => cases h

/-! ### All elements -/

/-- Slots after loading them failed: the slots before the failing one were visited with success, and
that slot and all behind it are as they were. -/
def FailsAt (l : LazyList σ α) (e : Error) (l' : LazyList σ α)
    (trace : List (UInt32 × Except Error α)) : Prop :=
  ∃ (k : Nat) (id : UInt32) (front : List (Slot α)) (past : List (UInt32 × Except Error α)),
    l.slots[k]? = some (.pending id) ∧ Loads (l.slots.take k) past (.ok ()) front ∧
      trace = past ++ [(id, .error e)] ∧ l' = { l with slots := front ++ l.slots.drop k }

theorem failsAt_loadAll {l : LazyList σ α} (h : Reachable l) {s : σ} {e : Error}
    (he : (l.loadAll s).1 = .error e) : FailsAt l e (l.loadAll s).2.1 (l.loadCalls s) := by
  have hloads := (loadAll_noted_of_reachable h s).1
  rw [he] at hloads
  obtain ⟨k, id, front, past, hk, hfront, htrace, hslots⟩ := hloads.exists_failed
  exact ⟨k, id, front, past, hk, hfront, htrace, congrArg (LazyList.mk · l.reader) hslots⟩

/-- The two requests for all elements load them, and differ in what they answer then. -/
theorem step_all {op : Op α} (hop : op = .loadAll ∨ op = .toList) (l : LazyList σ α) :
    ∃ answer : LazyList σ α → Answer α, ∀ s,
      step op (l, s) = ((l.loadAll s).1.map fun _ => answer (l.loadAll s).2.1, (l.loadAll s).2) := by
  rcases hop with rfl | rfl
  · exact ⟨fun _ => .done, fun s => rfl⟩
  · refine ⟨fun l' => .items l'.loadedItems, fun s => ?_⟩
    simp only [step, toList_eq]
    cases (l.loadAll s).1 <;> rfl

/-- **Failed requests.**  For every list that requests lead to, whatever its reader does: a request for
one element that fails leaves the list as it was; a request for all of them that fails has visited the
slots before some waiting slot with success, and changes no slot from there on.  Requests past the end
call no reader. -/
theorem intact_of_error {l : LazyList σ α} (h : Reachable l) (s : σ) :
    (∀ op e, op ≠ .loadAll → op ≠ .toList → (step op (l, s)).1 = .error e →
      (step op (l, s)).2.1 = l) ∧
    (∀ op e, op = .loadAll ∨ op = .toList → (step op (l, s)).1 = .error e →
      ∃ trace, FailsAt l e (step op (l, s)).2.1 trace ∧
        ∀ log, step op (l.noted, s, log) =
          (.error e, (step op (l, s)).2.1.noted, (step op (l, s)).2.2, log ++ trace)) ∧
    (∀ i v log, l.length ≤ i →
      step (.get i) (l.noted, s, log) = (.ok (.item? none), l.noted, s, log) ∧
      step (.set i v) (l.noted, s, log) = (.ok (.item? none), l.noted, s, log) ∧
      step (.remove i) (l.noted, s, log) = (.error .outOfBounds, l.noted, s, log)) ∧
    ∀ i v log, l.length < i →
      step (.insert i v) (l.noted, s, log) = (.error .outOfBounds, l.noted, s, log) := by
  refine ⟨fun op e hload hlist => list_of_step_error hload hlist, ?_, ?_, ?_⟩
  · intro op e hop he
    have hnoted := (loadAll_noted_of_reachable h s).2
    obtain ⟨answer, hstep⟩ := step_all hop l
    obtain ⟨answer', hnstep⟩ := step_all hop l.noted
    have hload : (l.loadAll s).1 = .error e := by
      rw [hstep] at he
      cases hr : (l.loadAll s).1 with
      | error e' =>
        rw [hr] at he
        cases he
        rfl
      | ok u =>
        rw [hr] at he
        cases he
    rw [hstep]
    refine ⟨l.loadCalls s, failsAt_loadAll h hload, fun log => ?_⟩
    rw [hnstep, hnoted, hload]
    rfl
  · intro i v log hi
    have hload : l.noted.load i (s, log) = (.ok false, l.noted, s, log) :=
      load_of_length_le (l := l.noted) hi _
    simp only [step, get, set, remove, hload]
    exact ⟨rfl, rfl, rfl⟩
  · intro i v log hi
    have hlt : l.noted.slots.length < i := hi
    simp only [step, insert, if_pos hlt]
    rfl

theorem intact_of_error_halfLoaded :
    let broken : Script := ⟨[(6, 1, .outOfBounds)], [4]⟩
    Reachable halfLoaded ∧
      (step (.remove 3) (halfLoaded, broken)).1 = .error .outOfBounds ∧
      (step (.remove 3) (halfLoaded, broken)).2.1 = halfLoaded ∧
      (step .loadAll (halfLoaded, broken)).2.1.slots =
        [.loaded 401, .loaded 7, .loaded 802, .pending 6] ∧
      ∃ trace, FailsAt halfLoaded .outOfBounds (step .loadAll (halfLoaded, broken)).2.1 trace := by
  intro broken
  obtain ⟨hone, hall, -⟩ := intact_of_error reachable_halfLoaded broken
  obtain ⟨trace, hfails, -⟩ := hall .loadAll .outOfBounds (.inl rfl) rfl
  exact ⟨reachable_halfLoaded, rfl, hone (.remove 3) .outOfBounds nofun nofun rfl, rfl, trace, hfails⟩

end CilMetadata.LazyList

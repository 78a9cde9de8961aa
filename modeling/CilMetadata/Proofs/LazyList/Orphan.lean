import CilMetadata.Proofs.LazyList.Account

/-!
# Lists whose reader is gone

Once the reader of a list only fails, the slots alone tell every answer: what is loaded stays
readable, and what waits goes on waiting where it is.

* `step_orphan`: the answer of such a list, and the slots that it leaves;
* `waitingSlots_orphanStep`: the slots that wait stay, in their order, until the list is cleared.
-/

namespace CilMetadata.LazyList

variable {σ α : Type}

/-- The answer of slots to a request that needs all of them loaded. -/
def ifLoaded (err : Error) (answer : Answer α) (slots : List (Slot α)) : Except Error (Answer α) :=
  if slots.all Slot.isLoaded then .ok answer else .error err

/-- Answers a request on slots whose reader fails. -/
def orphanStep (err : Error) : Op α → List (Slot α) → Except Error (Answer α) × List (Slot α)
  | .length, slots => (.ok (.count slots.length), slots)
  | .isEmpty, slots => (.ok (.flag slots.isEmpty), slots)
  | .isLoaded i, slots => (.ok (.flag (slots[i]?.any Slot.isLoaded)), slots)
  | .get i, slots =>
    match slots[i]? with
    | none => (.ok (.item? none), slots)
    | some (.loaded v) => (.ok (.item? (some v)), slots)
    | some (.pending _) => (.error err, slots)
  | .set i w, slots =>
    match slots[i]? with
    | none => (.ok (.item? none), slots)
    | some (.loaded v) => (.ok (.item? (some v)), slots.set i (.loaded w))
    | some (.pending _) => (.error err, slots)
  | .push w, slots => (.ok .done, slots ++ [.loaded w])
  | .insert i w, slots =>
    if slots.length < i then (.error .outOfBounds, slots) else (.ok .done, slots.insertIdx i (.loaded w))
  | .remove i, slots =>
    match slots[i]? with
    | none => (.error .outOfBounds, slots)
    | some (.loaded v) => (.ok (.item v), slots.eraseIdx i)
    | some (.pending _) => (.error err, slots)
  | .clear, _ => (.ok .done, [])
  | .loadAll, slots => (ifLoaded err .done slots, slots)
  | .loadedItems, slots => (.ok (.items (slots.filterMap Slot.value?)), slots)
  | .toList, slots => (ifLoaded err (.items (slots.filterMap Slot.value?)) slots, slots)

section Orphan

variable {l : LazyList σ α} {err : Error} {s : σ}

theorem loadSlots_orphan {reader : Option (UInt32 → σ → Except Error α × σ)}
    (h : ∀ id, readId reader id s = (.error err, s)) (slots : List (Slot α)) :
    loadSlots reader slots s = (if slots.all Slot.isLoaded then .ok () else .error err, slots, s) := by
  induction slots with
  | nil => rfl
  | cons slot slots ih =>
    cases slot with
    | loaded v => simp only [loadSlots, ih, List.all_cons, Slot.isLoaded, Bool.true_and]
    | pending id => simp only [loadSlots, h, List.all_cons, Slot.isLoaded, Bool.false_and]; rfl

/-- **One request.**  A list whose reader fails answers by its slots. -/
theorem step_orphan (h : ∀ id, readId l.reader id s = (.error err, s)) (op : Op α) :
    step op (l, s) =
      ((orphanStep err op l.slots).1, { l with slots := (orphanStep err op l.slots).2 }, s) := by
  cases op with
  | get i =>
    rcases hi : l.slots[i]? with _ | (id | v)
    · simp only [step, get, load, orphanStep, hi]; rfl
    · simp only [step, get, load, orphanStep, hi, h]; rfl
    · simp only [step, get_loaded hi, orphanStep, hi]; rfl
  | set i w =>
    rcases hi : l.slots[i]? with _ | (id | v)
    · simp only [step, set, get, load, orphanStep, hi]; rfl
    · simp only [step, set, get, load, orphanStep, hi, h]; rfl
    · simp only [step, set_loaded hi, orphanStep, hi]; rfl
  | insert i w =>
    simp only [step, insert, orphanStep]
    split <;> rfl
  | remove i =>
    rcases hi : l.slots[i]? with _ | (id | v)
    · simp only [step, remove, load, orphanStep, hi]; rfl
    · simp only [step, remove, load, orphanStep, hi, h]; rfl
    · simp only [step, remove_loaded hi, orphanStep, hi]; rfl
  | loadAll =>
    cases hall : l.slots.all Slot.isLoaded <;>
      simp [step, loadAll, orphanStep, ifLoaded, loadSlots_orphan h, hall, Except.map]
  | toList =>
    cases hall : l.slots.all Slot.isLoaded <;>
      simp [step, toList, loadAll, loadedItems, orphanStep, ifLoaded, loadSlots_orphan h, hall, Except.map]
  | _ => rfl

end Orphan

/-! ### What waits -/

def waitingSlots (slots : List (Slot α)) : List (Slot α) := slots.filter fun slot => !slot.isLoaded

theorem waitingSlots_set {slots : List (Slot α)} {i : Nat} {v : α} (hi : slots[i]? = some (.loaded v))
    (w : α) : waitingSlots (slots.set i (.loaded w)) = waitingSlots slots := by
  have hlt := (List.getElem?_eq_some_iff.mp hi).1
  conv_rhs => rw [eq_take_append_drop hi]
  rw [List.set_eq_take_append_cons_drop, if_pos hlt]
  simp [waitingSlots, Slot.isLoaded]

theorem waitingSlots_eraseIdx {slots : List (Slot α)} {i : Nat} {v : α}
    (hi : slots[i]? = some (.loaded v)) : waitingSlots (slots.eraseIdx i) = waitingSlots slots := by
  conv_rhs => rw [eq_take_append_drop hi]
  rw [List.eraseIdx_eq_take_drop_succ]
  simp [waitingSlots, Slot.isLoaded]

theorem waitingSlots_insertIdx (slots : List (Slot α)) (i : Nat) (w : α) :
    waitingSlots (slots.insertIdx i (.loaded w)) = waitingSlots slots := by
  induction slots generalizing i with
  | nil => cases i <;> rfl
  | cons slot slots ih =>
    cases i with
    | zero => rfl
    | succ i =>
      have hrest := ih i
      unfold waitingSlots at hrest ⊢
      rw [List.insertIdx_succ_cons, List.filter_cons, List.filter_cons, hrest]

/-- **What waits.**  The slots that wait stay, in their order, until the list is cleared. -/
theorem waitingSlots_orphanStep (err : Error) {op : Op α} (hop : op ≠ .clear) (slots : List (Slot α)) :
    waitingSlots (orphanStep err op slots).2 = waitingSlots slots := by
  cases op with
  | get i => rcases hi : slots[i]? with _ | (id | v) <;> simp only [orphanStep, hi]
  | set i w =>
    rcases hi : slots[i]? with _ | (id | v) <;> simp only [orphanStep, hi]
    exact waitingSlots_set hi w
  | push w => simp [orphanStep, waitingSlots, Slot.isLoaded]
  | insert i w =>
    simp only [orphanStep]
    split
    · rfl
    · exact waitingSlots_insertIdx slots i w
  | remove i =>
    rcases hi : slots[i]? with _ | (id | v) <;> simp only [orphanStep, hi]
    exact waitingSlots_eraseIdx hi
  | clear => exact absurd rfl hop
  | _ => rfl

theorem waitingSlots_run (err : Error) {ops : List (Op α)} (hops : .clear ∉ ops) (slots : List (Slot α)) :
    waitingSlots (run (orphanStep err) ops slots).2 = waitingSlots slots :=
  run_preserves_of_mem (P := fun slots' => waitingSlots slots' = waitingSlots slots)
    (fun _ slots' (hop : _ ≠ Op.clear) h => (waitingSlots_orphanStep err hop slots').trans h)
    (fun _ hmem heq => hops (heq ▸ hmem)) rfl

end CilMetadata.LazyList

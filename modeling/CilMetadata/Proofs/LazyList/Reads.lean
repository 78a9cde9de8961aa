import CilMetadata.Proofs.LazyList.Refinement

/-!
# What a lazy list reads

A request reads nothing but ids of slots that wait, and makes no slot wait that did not wait before.
So what every read of a waiting id keeps is kept by the requests.

* `waits_of_step`: which slots wait after a request;
* `step_keeps`: what holds of the outer state after a request.
-/

namespace CilMetadata.LazyList

variable {σ α : Type}

def Waits (l : LazyList σ α) (id : UInt32) : Prop := .pending id ∈ l.slots

theorem waits_ofIds {ids : List UInt32} {reader : UInt32 → σ → Except Error α × σ} {id : UInt32} :
    (ofIds ids reader).Waits id ↔ id ∈ ids := by
  simp [Waits, ofIds]

/-! ### Slots that wait -/

theorem pending_mem_of_mem_set {slots : List (Slot α)} {i : Nat} {v : α} {id : UInt32}
    (h : .pending id ∈ slots.set i (.loaded v)) : .pending id ∈ slots :=
  (List.mem_or_eq_of_mem_set h).resolve_right nofun

theorem waits_of_load {l : LazyList σ α} {i : Nat} {s : σ} {id : UInt32}
    (h : (l.load i s).2.1.Waits id) : l.Waits id := by
  unfold load at h
  split at h
  · exact h
  · exact h
  · split at h
    · exact pending_mem_of_mem_set h
    · exact h

theorem waits_of_get {l : LazyList σ α} {i : Nat} {s : σ} {id : UInt32}
    (h : (l.get i s).2.1.Waits id) : l.Waits id := by
  refine waits_of_load (i := i) (s := s) ?_
  unfold get at h
  split at h <;> rename_i hl <;> rw [hl] <;> exact h

theorem waits_of_set {l : LazyList σ α} {i : Nat} {v : α} {s : σ} {id : UInt32}
    (h : (l.set i v s).2.1.Waits id) : l.Waits id := by
  refine waits_of_get (i := i) (s := s) ?_
  unfold set at h
  split at h
  · rename_i hg
    rw [hg]
    exact pending_mem_of_mem_set h
  · exact h

theorem waits_of_remove {l : LazyList σ α} {i : Nat} {s : σ} {id : UInt32}
    (h : (l.remove i s).2.1.Waits id) : l.Waits id := by
  refine waits_of_load (i := i) (s := s) ?_
  unfold remove at h
  split at h <;> rename_i hl <;> rw [hl]
  · exact h
  · exact h
  · split at h <;> exact List.mem_of_mem_eraseIdx h

theorem waits_of_insert {l : LazyList σ α} {i : Nat} {v : α} {id : UInt32}
    (h : (l.insert i v).2.Waits id) : l.Waits id := by
  unfold insert at h
  split at h
  · exact h
  · exact (List.eq_or_mem_of_mem_insertIdx h).resolve_left nofun

theorem pending_mem_of_mem_loadSlots {reader : Option (UInt32 → σ → Except Error α × σ)}
    {slots : List (Slot α)} {s : σ} {id : UInt32} (h : .pending id ∈ (loadSlots reader slots s).2.1) :
    .pending id ∈ slots := by
  induction slots generalizing s with
  | nil => exact h
  | cons slot slots ih =>
    cases slot with
    | loaded v => exact List.mem_cons_of_mem _ (ih ((List.mem_cons.mp h).resolve_left nofun))
    | pending i =>
      unfold loadSlots at h
      split at h
      · exact h
      · exact List.mem_cons_of_mem _ (ih ((List.mem_cons.mp h).resolve_left nofun))

theorem waits_of_toList {l : LazyList σ α} {s : σ} {id : UInt32}
    (h : (l.toList s).2.1.Waits id) : l.Waits id := by
  have hslots : (l.toList s).2.1.slots = (loadSlots l.reader l.slots s).2.1 := by
    unfold toList
    split <;> rename_i hl <;> exact (congrArg (fun p => p.2.1.slots) hl).symm
  rw [Waits, hslots] at h
  exact pending_mem_of_mem_loadSlots h

/-- **Waiting slots.**  A slot that waits after a request waited before it. -/
theorem waits_of_step {op : Op α} {l : LazyList σ α} {s : σ} {id : UInt32}
    (h : (step op (l, s)).2.1.Waits id) : l.Waits id := by
  cases op with
  | get i => exact waits_of_get h
  | set i v => exact waits_of_set h
  | push v => exact (List.mem_append.mp h).resolve_right (by simp)
  | insert i v => exact waits_of_insert h
  | remove i => exact waits_of_remove h
  | clear => cases h
  | loadAll => exact pending_mem_of_mem_loadSlots h
  | toList => exact waits_of_toList h
  | _ => exact h

/-! ### States -/

variable {I : σ → Prop} {reader : Option (UInt32 → σ → Except Error α × σ)} {l : LazyList σ α}

theorem load_keeps (hread : ∀ id, l.Waits id → ∀ s, I s → I (readId l.reader id s).2) (i : Nat) {s : σ}
    (hs : I s) : I (l.load i s).2.2 := by
  unfold load
  split
  · exact hs
  · exact hs
  · rename_i id hi
    have hr := hread id (List.mem_of_getElem? hi) s hs
    split <;> rename_i heq <;> rwa [heq] at hr

theorem loadSlots_keeps {slots : List (Slot α)}
    (hread : ∀ id, .pending id ∈ slots → ∀ s, I s → I (readId reader id s).2) {s : σ} (hs : I s) :
    I (loadSlots reader slots s).2.2 := by
  induction slots generalizing s with
  | nil => exact hs
  | cons slot slots ih =>
    have hrest : ∀ id, .pending id ∈ slots → ∀ s, I s → I (readId reader id s).2 :=
      fun id hid => hread id (List.mem_cons_of_mem _ hid)
    cases slot with
    | loaded v => exact ih hrest hs
    | pending id =>
      have hr := hread id List.mem_cons_self s hs
      unfold loadSlots
      split <;> rename_i heq <;> rw [heq] at hr
      · exact hr
      · exact ih hrest hr

/-- **Reads.**  What the reads of waiting ids keep of the outer state, a request keeps. -/
theorem step_keeps (hread : ∀ id, l.Waits id → ∀ s, I s → I (readId l.reader id s).2) (op : Op α)
    {s : σ} (hs : I s) : I (step op (l, s)).2.2 := by
  cases op with
  | get i => exact state_get l i s ▸ load_keeps hread i hs
  | set i v => exact state_set l i v s ▸ load_keeps hread i hs
  | remove i => exact state_remove l i s ▸ load_keeps hread i hs
  | loadAll => exact loadSlots_keeps hread hs
  | toList => exact state_toList l s ▸ loadSlots_keeps hread hs
  | _ => exact hs

end CilMetadata.LazyList

import CilMetadata.LazyList
import Mathlib.Logic.Function.Basic

/-!
# Events in a lazy list

Elements move when others are put in or taken out, so an element is known here by a number, and not
by its place.  A history is the list of what happened to the elements, each under its number; the
slots that the elements have after a history are a function of their numbers.

* `slotsAfter_eq_pending_iff`: an element waits as long as nothing in the history settles it;
* `Lawful`: histories in which the reader is called for elements that wait, and for no others;
* `Lawful.countP_loads_le`: in a lawful history an element is read successfully at most once.
-/

namespace CilMetadata.LazyList

variable {α : Type}

/-- What can happen to an element: the reader is called for it, it gets a value from the caller, or
it leaves the list. -/
inductive Event (α : Type) where
  | read (n : Nat) (id : UInt32) (answer : Except Error α)
  | put (n : Nat) (v : α)
  | removed (n : Nat)

namespace Event

def element : Event α → Nat
  | .read n _ _ | .put n _ | .removed n => n

/-- The element that does not wait after an event, whatever was before. -/
def settled? : Event α → Option Nat
  | .read _ _ (.error _) => none
  | .read n _ (.ok _) | .put n _ | .removed n => some n

def value? : Event α → Option (Nat × α)
  | .read n _ (.ok v) | .put n v => some (n, v)
  | .read _ _ (.error _) | .removed _ => none

def call? : Event α → Option (UInt32 × Except Error α)
  | .read _ id answer => some (id, answer)
  | .put _ _ | .removed _ => none

/-- Whether the reader was called for an element and answered a value. -/
def loads (n : Nat) : Event α → Bool
  | .read m _ (.ok _) => m = n
  | .read _ _ (.error _) | .put _ _ | .removed _ => false

/-- The slots of the elements after an event. -/
def apply (slots : Nat → Option (Slot α)) : Event α → Nat → Option (Slot α)
  | .read _ _ (.error _) => slots
  | .read n _ (.ok v) | .put n v => Function.update slots n (some (.loaded v))
  | .removed n => Function.update slots n none

variable {slots : Nat → Option (Slot α)} {e : Event α} {n : Nat}

@[simp] theorem element_read (id : UInt32) (answer : Except Error α) :
    (read n id answer).element = n := rfl

@[simp] theorem element_put (v : α) : (put n v).element = n := rfl

@[simp] theorem element_removed : (removed n : Event α).element = n := rfl

theorem loads_of_ne (h : e.element ≠ n) : e.loads n = false := by
  rcases e with ⟨m, id, err | v⟩ | ⟨m, v⟩ | m
  · rfl
  · exact decide_eq_false h
  · rfl
  · rfl

theorem apply_of_ne (h : e.element ≠ n) : e.apply slots n = slots n := by
  rcases e with ⟨m, id, err | v⟩ | ⟨m, v⟩ | m
  · rfl
  all_goals exact Function.update_of_ne (Ne.symm h) _ _

theorem apply_eq_pending_iff {id : UInt32} :
    e.apply slots n = some (.pending id) ↔ slots n = some (.pending id) ∧ e.settled? ≠ some n := by
  rcases e with ⟨m, i, err | v⟩ | ⟨m, v⟩ | m
  · simp [apply, settled?]
  all_goals
    by_cases hm : n = m
    · simp [apply, settled?, hm]
    · simp [apply, settled?, hm, Ne.symm hm]

theorem apply_of_value? {v : α} (h : e.value? = some (n, v)) : e.apply slots n = some (.loaded v) := by
  rcases e with ⟨m, i, err | w⟩ | ⟨m, w⟩ | m
  · cases h
  · cases h
    exact Function.update_self _ _ _
  · cases h
    exact Function.update_self _ _ _
  · cases h

end Event

/-! ### Histories -/

/-- The slots of the elements after a history. -/
def slotsAfter (slots : Nat → Option (Slot α)) (events : List (Event α)) : Nat → Option (Slot α) :=
  events.foldl Event.apply slots

/-- The reader is called for elements that wait, under their ids. -/
def Event.Allowed (slots : Nat → Option (Slot α)) : Event α → Prop
  | .read n id _ => slots n = some (.pending id)
  | .put _ _ | .removed _ => True

/-- Every event of a history is allowed when it happens. -/
def Lawful : (Nat → Option (Slot α)) → List (Event α) → Prop
  | _, [] => True
  | slots, e :: events => e.Allowed slots ∧ Lawful (e.apply slots) events

variable {slots : Nat → Option (Slot α)} {events past later : List (Event α)} {n : Nat}

@[simp] theorem slotsAfter_nil : slotsAfter slots [] = slots := rfl

@[simp] theorem slotsAfter_cons (e : Event α) :
    slotsAfter slots (e :: events) = slotsAfter (e.apply slots) events := rfl

theorem slotsAfter_append :
    slotsAfter slots (past ++ later) = slotsAfter (slotsAfter slots past) later :=
  List.foldl_append

theorem slotsAfter_of_forall_ne (h : ∀ e ∈ events, e.element ≠ n) :
    slotsAfter slots events n = slots n := by
  induction events generalizing slots with
  | nil => rfl
  | cons e events ih =>
    rw [List.forall_mem_cons] at h
    rw [slotsAfter_cons, ih h.2, Event.apply_of_ne h.1]

/-- **Waiting.**  An element waits after a history if it waited before and nothing settled it. -/
theorem slotsAfter_eq_pending_iff {id : UInt32} :
    slotsAfter slots events n = some (.pending id) ↔
      slots n = some (.pending id) ∧ ∀ e ∈ events, e.settled? ≠ some n := by
  induction events generalizing slots with
  | nil => simp
  | cons e events ih =>
    rw [slotsAfter_cons, ih, Event.apply_eq_pending_iff, List.forall_mem_cons, and_assoc]

theorem lawful_append :
    Lawful slots (past ++ later) ↔ Lawful slots past ∧ Lawful (slotsAfter slots past) later := by
  induction past generalizing slots with
  | nil => simp [Lawful]
  | cons e past ih => simp [Lawful, ih, and_assoc]

theorem lawful_of_forall_call?_eq_none (h : ∀ e ∈ events, e.call? = none) : Lawful slots events := by
  induction events generalizing slots with
  | nil => trivial
  | cons e events ih =>
    rw [List.forall_mem_cons] at h
    refine ⟨?_, ih h.2⟩
    cases e with
    | read m id answer => cases h.1
    | put m v => trivial
    | removed m => trivial

theorem Lawful.pending_of_read {id : UInt32} {answer : Except Error α}
    (h : Lawful slots (past ++ .read n id answer :: later)) :
    slotsAfter slots past n = some (.pending id) :=
  (lawful_append.mp h).2.1

/-- An element that is loaded, or gone, stays so until the caller puts a value in its place. -/
theorem Lawful.stays {v : α} (h : Lawful slots events) (hn : ∀ slot ∈ slots n, slot = .loaded v)
    (hput : ∀ w, .put n w ∉ events) : ∀ slot ∈ slotsAfter slots events n, slot = .loaded v := by
  induction events generalizing slots with
  | nil => exact hn
  | cons e events ih =>
    refine ih h.2 ?_ fun w hw => hput w (List.mem_cons_of_mem _ hw)
    by_cases he : e.element = n
    · cases e with
      | read m id answer =>
        subst he
        -- a call for an element that does not wait is against the law
        cases hn _ h.1
      | put m w =>
        subst he
        exact absurd List.mem_cons_self (hput w)
      | removed m =>
        subst he
        simp [Event.apply]
    · rwa [Event.apply_of_ne he]

/-- An element that waits is still to be read successfully once, any other never. -/
theorem Lawful.countP_loads_le (h : Lawful slots events) (n : Nat) :
    events.countP (Event.loads n) ≤ if (slots n).any (!·.isLoaded) then 1 else 0 := by
  induction events generalizing slots with
  | nil => exact Nat.zero_le _
  | cons e events ih =>
    have hrest := ih h.2
    by_cases he : e.element = n
    · subst he
      rcases e with ⟨m, id, err | v⟩ | ⟨m, v⟩ | m
      · exact hrest
      · have hm : slots m = some (.pending id) := h.1
        simpa [Event.loads, Event.apply, hm, Slot.isLoaded] using hrest
      · have hnone : events.countP (Event.loads m) = 0 := by
          simpa [Event.apply, Slot.isLoaded] using hrest
        simp [Event.loads, hnone]
      · have hnone : events.countP (Event.loads m) = 0 := by
          simpa [Event.apply] using hrest
        simp [Event.loads, hnone]
    · rw [Event.apply_of_ne he] at hrest
      rwa [List.countP_cons_of_neg (by simp [Event.loads_of_ne he])]

end CilMetadata.LazyList

import CilMetadata.Error
import CilMetadata.Run

/-!
# Deferred values

A deferred cell computes its value when it is first read and keeps the outcome, a value or an error.
A written value takes its place at any time; a computation that was not started by then never is.

Computations read and change a state `σ` that lies outside the cell.  A computation may also abort:
then the read that started it has no answer, and later reads find a cell that never got a value.

* `read_of_peek`, `edit_of_peek`: a value that is there is read and edited without computing;
* `read_again`: a second read answers like the first and leaves cell and state alone;
* `read_write`: a written value is read.
-/

namespace CilMetadata

/-- How a computation ends. -/
inductive Outcome (α : Type) where
  | value (v : α)
  | error (e : Error)
  /-- the computation was cut off and answers nothing -/
  | aborted

/-- The outcome of a computation that cannot be cut off. -/
def Outcome.ofExcept {α : Type} : Except Error α → Outcome α
  | .ok v => .value v
  | .error e => .error e

/-- A value that is computed when it is first read. -/
inductive Deferred (σ α : Type) where
  | unresolved (compute : σ → Outcome α × σ)
  /-- the computation was started and did not come to an end -/
  | resolving
  | resolved (v : α)
  | failed (e : Error)
  | overridden (v : α)

namespace Deferred

variable {σ α β : Type}

/-- What can be told about a cell without its value. -/
inductive State where
  | unresolved | resolved | failed | overridden
  deriving DecidableEq, Repr

def State.name : State → String
  | .unresolved => "Unresolved"
  | .resolved => "Resolved"
  | .failed => "Failed"
  | .overridden => "Overridden"

/-- What a cell answers whose computation did not come to an end. -/
def incomplete : Error := .resolution ⟨0⟩ .incomplete

/-- The state of a cell.  A computation that was cut off counts as failed. -/
def state : Deferred σ α → State
  | .unresolved _ => .unresolved
  | .resolved _ => .resolved
  | .failed _ | .resolving => .failed
  | .overridden _ => .overridden

/-- The value of a cell, if it is there already. -/
def peek : Deferred σ α → Option α
  | .resolved v | .overridden v => some v
  | .unresolved _ | .resolving | .failed _ => none

/-- Whether the value of a cell is there already. -/
def hasValue : Deferred σ α → Bool
  | .resolved _ | .overridden _ => true
  | .unresolved _ | .resolving | .failed _ => false

/-- The value of a cell, computed first if nobody asked for it before. -/
def read : Deferred σ α → σ → Outcome α × Deferred σ α × σ
  | .unresolved compute, s =>
    match compute s with
    | (.value v, s') => (.value v, .resolved v, s')
    | (.error e, s') => (.error e, .failed e, s')
    | (.aborted, s') => (.aborted, .resolving, s')
  | .resolving, s => (.error incomplete, .resolving, s)
  | .resolved v, s => (.value v, .resolved v, s)
  | .failed e, s => (.error e, .failed e, s)
  | .overridden v, s => (.value v, .overridden v, s)

/-- Reads a cell in order to change its value in place.  The value counts as written from then on,
whatever the change does. -/
def edit (change : α → σ → β × α × σ) (cell : Deferred σ α) (s : σ) : Outcome β × Deferred σ α × σ :=
  match cell.read s with
  | (.value v, _, s') =>
    let (answer, v', s'') := change v s'
    (.value answer, .overridden v', s'')
  | (.error e, cell', s') => (.error e, cell', s')
  | (.aborted, cell', s') => (.aborted, cell', s')

/-- Writes a value, whatever the cell holds. -/
def write (v : α) (_ : Deferred σ α) : Deferred σ α := .overridden v

def describe (text : α → String) : Deferred σ α → String
  | .unresolved _ | .resolving => "Deferred(<unresolved>)"
  | .resolved v => "Resolved(" ++ text v ++ ")"
  | .failed e => "Failed(" ++ e.describe ++ ")"
  | .overridden v => "Overridden(" ++ text v ++ ")"

/-- A cell whose state counts how often it was computed. -/
def counted (outcome : Outcome α) : Deferred Nat α := .unresolved fun calls => (outcome, calls + 1)

/-! ### Requests -/

inductive Op (α : Type) where
  | read
  | edit (change : α → α)
  | write (v : α)
  | peek
  | state
  | hasValue
  | describe

inductive Answer (α : Type) where
  | outcome (o : Outcome α)
  | written
  | peeked (v : Option α)
  | state (s : State)
  | hasValue (b : Bool)
  | text (t : String)

/-- Answers a request.  An edit answers the changed value. -/
def step (text : α → String) : Op α → Deferred σ α × σ → Answer α × Deferred σ α × σ
  | .read, (cell, s) =>
    let (o, cell', s') := cell.read s
    (.outcome o, cell', s')
  | .edit change, (cell, s) =>
    let (o, cell', s') := cell.edit (fun v s => (change v, change v, s)) s
    (.outcome o, cell', s')
  | .write v, (cell, s) => (.written, cell.write v, s)
  | .peek, (cell, s) => (.peeked cell.peek, cell, s)
  | .state, (cell, s) => (.state cell.state, cell, s)
  | .hasValue, (cell, s) => (.hasValue cell.hasValue, cell, s)
  | .describe, (cell, s) => (.text (cell.describe text), cell, s)

/-! ### Laws -/

theorem hasValue_eq_isSome_peek (cell : Deferred σ α) : cell.hasValue = cell.peek.isSome := by
  cases cell <;> rfl

theorem hasValue_iff_state (cell : Deferred σ α) :
    cell.hasValue = true ↔ cell.state = .resolved ∨ cell.state = .overridden := by
  cases cell <;> simp [hasValue, state]

/-- A value that is there is read, and nothing is computed. -/
theorem read_of_peek {cell : Deferred σ α} {v : α} (h : cell.peek = some v) (s : σ) :
    cell.read s = (.value v, cell, s) := by
  cases cell with
  | resolved w =>
    cases h
    rfl
  | overridden w =>
    cases h
    rfl
  | _ => cases h

theorem edit_of_peek {cell : Deferred σ α} {v : α} (h : cell.peek = some v) (change : α → σ → β × α × σ)
    (s : σ) : cell.edit change s =
      (.value (change v s).1, .overridden (change v s).2.1, (change v s).2.2) := by
  rw [edit, read_of_peek h]

/-- A failed cell keeps its error. -/
theorem exists_read_of_failed {cell : Deferred σ α} (h : cell.state = .failed) :
    ∃ e, ∀ s, cell.read s = (.error e, cell, s) := by
  cases cell with
  | resolving => exact ⟨incomplete, fun _ => rfl⟩
  | failed e => exact ⟨e, fun _ => rfl⟩
  | _ => cases h

theorem edit_of_read_error {cell cell' : Deferred σ α} {s s' : σ} {e : Error}
    (h : cell.read s = (.error e, cell', s')) (change : α → σ → β × α × σ) :
    cell.edit change s = (.error e, cell', s') := by
  rw [edit, h]

/-- **Caching.**  Once a read has answered, every read answers the same without computing. -/
theorem read_again {cell cell' : Deferred σ α} {s s' : σ} {o : Outcome α}
    (h : cell.read s = (o, cell', s')) (ho : o ≠ .aborted) (t : σ) :
    cell'.read t = (o, cell', t) := by
  cases cell with
  | unresolved compute =>
    cases hc : compute s with
    | mk o₁ s₁ =>
      cases o₁ <;> simp only [read, hc] at h <;> cases h <;> first | rfl | exact absurd rfl ho
  | resolving => cases h; rfl
  | resolved v => cases h; rfl
  | failed e => cases h; rfl
  | overridden v => cases h; rfl

@[simp] theorem read_write (v : α) (cell : Deferred σ α) (s : σ) :
    (cell.write v).read s = (.value v, cell.write v, s) := rfl

end Deferred
end CilMetadata

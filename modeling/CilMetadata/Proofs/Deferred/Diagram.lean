import CilMetadata.Proofs.Deferred.History
import Mathlib.Logic.Relation

/-!
# The states of a deferred cell

A cell is unresolved, resolved, failed or overridden.  In each state all that can be told about a cell
fits together, and tells how the cell is read and edited.  The state changes along the arrows of a
diagram, from unresolved to any other state and from resolved or failed to overridden:

```text
            read (value)
unresolved ──────────────► resolved ──┐
    │  read or edit (no value)        │ write, edit (value)
    ├──────────────► failed ──────────┤ write
    │ write, edit (value)             ▼
    └────────────────────────────► overridden
```

* `coherent`: what can be told about a cell, and its answers;
* `arrow_step_iff`, `reaches_run`: one request, and whole runs;
* `diagram_of_run`: both, for a cell as it is made and any requests.
-/

namespace CilMetadata.Deferred

open Relation (ReflTransGen)

variable {σ α : Type}

/-- How a cell is made: with a computation, or with its value. -/
inductive Origin (σ α : Type) where
  | computed (compute : σ → Outcome α × σ)
  | given (v : α)

/-- The cell as it is made; its computation notes beside the state how often it was started. -/
def Origin.cell : Origin σ α → Deferred (σ × Nat) α
  | .computed compute => counting compute
  | .given v => .resolved v

/-! ### Answers -/

/-- What can be told about a cell fits together and to its answers.  The outer state stays as it is unless
something is computed. -/
structure Coherent (text : α → String) (p : Deferred σ α × σ) : Prop where
  hasValue_iff_peek : p.1.hasValue = true ↔ ∃ v, p.1.peek = some v
  hasValue_iff_state : p.1.hasValue = true ↔ p.1.state = .resolved ∨ p.1.state = .overridden
  read : ∀ v, p.1.peek = some v → step text .read p = (.outcome (.value v), p)
  edit : ∀ v, p.1.peek = some v → ∀ change,
    step text (.edit change) p = (.outcome (.value (change v)), .overridden (change v), p.2)
  failed : p.1.state = .failed → ∃ e, step text .read p = (.outcome (.error e), p) ∧
    ∀ change, step text (.edit change) p = (.outcome (.error e), p)
  observed : ∀ op, op.needsValue = false → op.writes = false → (step text op p).2 = p

theorem coherent (text : α → String) (p : Deferred σ α × σ) : Coherent text p where
  hasValue_iff_peek := by rw [hasValue_eq_isSome_peek, Option.isSome_iff_exists]
  hasValue_iff_state := p.1.hasValue_iff_state
  read v h := by simp only [step, read_of_peek h]
  edit v h change := by simp only [step, edit_of_peek h]
  failed h := by
    obtain ⟨e, he⟩ := exists_read_of_failed h
    refine ⟨e, by simp only [step, he], fun change => ?_⟩
    simp only [step, edit_of_read_error (he p.2)]
  observed op hn hw := by
    cases op with
    | read => cases hn
    | edit change => cases hn
    | write v => cases hw
    | _ => rfl

/-! ### Changes of state -/

/-- The changes that the state of a cell can make, each with the request that makes it and the answer
to the request.  An edit reads the value and writes the changed one, in one change. -/
inductive Arrow : State → Op α → Answer α → State → Prop
  | resolve (v : α) : Arrow .unresolved .read (.outcome (.value v)) .resolved
  | fail {op : Op α} {o : Outcome α} (hop : op.needsValue = true) (ho : ∀ v, o ≠ .value v) :
    Arrow .unresolved op (.outcome o) .failed
  | edit {t : State} (ht : t = .unresolved ∨ t = .resolved) (change : α → α) (v : α) :
    Arrow t (.edit change) (.outcome (.value v)) .overridden
  | write {t : State} (ht : t ≠ .overridden) (v : α) : Arrow t (.write v) .written .overridden

theorem Arrow.ne_overridden {t u : State} {op : Op α} {a : Answer α} (h : Arrow t op a u) :
    t ≠ .overridden := by
  cases h with
  | resolve v => exact nofun
  | fail hop ho => exact nofun
  | edit ht change v => rcases ht with rfl | rfl <;> exact nofun
  | write ht v => exact ht

theorem Arrow.ne_unresolved {t u : State} {op : Op α} {a : Answer α} (h : Arrow t op a u) :
    u ≠ .unresolved := by
  cases h <;> exact nofun

/-- Requests that only tell carry no arrow. -/
theorem Arrow.changes {t u : State} {op : Op α} {a : Answer α} (h : Arrow t op a u) :
    op.needsValue = true ∨ op.writes = true := by
  cases h with
  | fail hop ho => exact .inl hop
  | write ht v => exact .inr rfl
  | _ => exact .inl rfl

theorem arrow_iff_of_none {t u : State} {op : Op α} {a : Answer α} (h : ¬ Arrow t op a u) :
    Arrow t op a u ↔ u = t ∧ u ≠ t :=
  ⟨fun harrow => absurd harrow h, fun hu => absurd hu.1 hu.2⟩

/-- Without a value an unresolved cell fails. -/
theorem arrow_fail_iff {op : Op α} (hop : op.needsValue = true) {o : Outcome α} (ho : ∀ v, o ≠ .value v)
    (u : State) : Arrow .unresolved op (.outcome o) u ↔ u = .failed ∧ u ≠ .unresolved := by
  constructor
  · intro h
    have hne := h.ne_unresolved
    cases h with
    | resolve v => exact absurd rfl (ho v)
    | fail => exact ⟨rfl, hne⟩
    | edit ht change v => exact absurd rfl (ho v)
  · rintro ⟨rfl, -⟩
    exact .fail hop ho

theorem arrow_resolve_iff (v : α) (u : State) :
    Arrow .unresolved .read (.outcome (.value v)) u ↔ u = .resolved ∧ u ≠ .unresolved := by
  constructor
  · intro h
    have hne := h.ne_unresolved
    cases h with
    | resolve => exact ⟨rfl, hne⟩
    | fail hop ho => exact absurd rfl (ho v)
  · rintro ⟨rfl, -⟩
    exact .resolve v

theorem arrow_read_iff (cell : Deferred σ α) (s : σ) (u : State) :
    Arrow cell.state .read (.outcome (cell.read s).1) u ↔
      u = (cell.read s).2.1.state ∧ u ≠ cell.state := by
  cases cell with
  | unresolved compute =>
    rw [read]
    rcases compute s with ⟨v | e | _, s'⟩
    · exact arrow_resolve_iff v u
    · exact arrow_fail_iff rfl (fun v h => by cases h) u
    · exact arrow_fail_iff rfl (fun v h => by cases h) u
  | overridden v => exact arrow_iff_of_none fun h => h.ne_overridden rfl
  | _ =>
    refine arrow_iff_of_none fun h => ?_
    cases h

/-- An edit that succeeds overrides; one that does not answers and leaves what a read does. -/
theorem edit_cases (text : α → String) (change : α → α) (p : Deferred σ α × σ) :
    (∃ v, (p.1.read p.2).1 = .value v ∧ (step text (.edit change) p).1 = .outcome (.value (change v)) ∧
      (step text (.edit change) p).2.1.state = .overridden) ∨
    (∀ v, (p.1.read p.2).1 ≠ .value v) ∧
      (step text (.edit change) p).1 = .outcome (p.1.read p.2).1 ∧
      (step text (.edit change) p).2.1 = (p.1.read p.2).2.1 := by
  cases hread : p.1.read p.2 with
  | mk o q =>
    cases o with
    | value v =>
      left
      exact ⟨v, rfl, by simp only [step, edit, hread], by simp only [step, edit, hread, state]⟩
    | error e =>
      right
      simp [step, edit, hread]
    | aborted =>
      right
      simp [step, edit, hread]

theorem arrow_edit_value_iff {t u : State} {change : α → α} {v : α} :
    Arrow t (.edit change) (.outcome (.value v)) u ↔
      (t = .unresolved ∨ t = .resolved) ∧ u = .overridden := by
  constructor
  · intro h
    cases h with
    | fail hop ho => exact absurd rfl (ho v)
    | edit ht => exact ⟨ht, rfl⟩
  · rintro ⟨ht, rfl⟩
    exact .edit ht change v

theorem arrow_edit_iff_read {t u : State} {change : α → α} {o : Outcome α} (ho : ∀ v, o ≠ .value v) :
    Arrow t (.edit change) (.outcome o) u ↔ Arrow t .read (.outcome o) u := by
  constructor
  · intro h
    cases h with
    | fail => exact .fail rfl ho
    | edit ht change v => exact absurd rfl (ho v)
  · intro h
    cases h with
    | resolve v => exact absurd rfl (ho v)
    | fail => exact .fail rfl ho

theorem arrow_edit_iff (text : α → String) (change : α → α) (p : Deferred σ α × σ) (u : State) :
    Arrow p.1.state (.edit change) (step text (.edit change) p).1 u ↔
      u = (step text (.edit change) p).2.1.state ∧ u ≠ p.1.state := by
  rcases edit_cases text change p with ⟨v, hread, hans, hstate⟩ | ⟨hread, hans, hstate⟩
  · rw [hans, hstate, arrow_edit_value_iff]
    have hfailed : p.1.state ≠ .failed := by
      intro h
      obtain ⟨e, he⟩ := exists_read_of_failed h
      rw [he] at hread
      cases hread
    constructor
    · rintro ⟨ht, rfl⟩
      refine ⟨rfl, ?_⟩
      rcases ht with ht | ht <;> rw [ht] <;> exact nofun
    · rintro ⟨rfl, hne⟩
      cases ht : p.1.state with
      | unresolved => exact ⟨.inl rfl, rfl⟩
      | resolved => exact ⟨.inr rfl, rfl⟩
      | failed => exact absurd ht hfailed
      | overridden => exact absurd ht.symm hne
  · rw [hans, hstate, arrow_edit_iff_read hread]
    exact arrow_read_iff p.1 p.2 u

theorem arrow_write_iff {t u : State} {v : α} :
    Arrow t (.write v) .written u ↔ u = .overridden ∧ u ≠ t := by
  constructor
  · intro h
    cases h with
    | write ht => exact ⟨rfl, ht.symm⟩
  · rintro ⟨rfl, hne⟩
    exact .write hne.symm v

/-- **One request.**  A cell changes its state exactly along the arrow that carries the request and its
answer. -/
theorem arrow_step_iff (text : α → String) (op : Op α) (p : Deferred σ α × σ) (u : State) :
    Arrow p.1.state op (step text op p).1 u ↔ u = (step text op p).2.1.state ∧ u ≠ p.1.state := by
  cases op with
  | read => exact arrow_read_iff p.1 p.2 u
  | edit change => exact arrow_edit_iff text change p u
  | write v => exact arrow_write_iff
  | _ => exact arrow_iff_of_none fun h => h.changes.elim nofun nofun

/-- An unresolved cell has an arrow for every answer to a request that needs its value. -/
theorem exists_arrow (text : α → String) {op : Op α} (hop : op.needsValue = true)
    (p : Deferred σ α × σ) : ∃ u, Arrow .unresolved op (step text op p).1 u := by
  cases op with
  | read =>
    show ∃ u, Arrow .unresolved .read (.outcome (p.1.read p.2).1) u
    cases (p.1.read p.2).1 with
    | value v => exact ⟨_, .resolve v⟩
    | _ => exact ⟨_, .fail rfl nofun⟩
  | edit change =>
    rcases edit_cases text change p with ⟨v, -, hans, -⟩ | ⟨hread, hans, -⟩ <;> rw [hans]
    · exact ⟨_, .edit (.inl rfl) change (change v)⟩
    · exact ⟨_, .fail rfl hread⟩
  | _ => cases hop

/-- An arrow leads from one state to the other, whatever it carries. -/
def Turns (α : Type) (t u : State) : Prop := ∃ (op : Op α) (a : Answer α), Arrow t op a u

/-- **Runs.**  The state of a cell changes along the diagram only. -/
theorem reaches_run (text : α → String) (ops : List (Op α)) (p : Deferred σ α × σ) :
    ReflTransGen (Turns α) p.1.state (run (step text) ops p).2.1.state := by
  induction ops generalizing p with
  | nil => exact .refl
  | cons op ops ih =>
    have hrest := ih (step text op p).2
    by_cases hsame : (step text op p).2.1.state = p.1.state
    · rwa [hsame] at hrest
    · exact .head ⟨op, _, (arrow_step_iff text op p _).mpr ⟨rfl, hsame⟩⟩ hrest

theorem eq_of_reaches_overridden {t : State} (h : ReflTransGen (Turns α) .overridden t) :
    t = .overridden := by
  rcases h.cases_head with rfl | ⟨u, ⟨op, a, harrow⟩, -⟩
  · rfl
  · exact absurd rfl harrow.ne_overridden

theorem eq_of_reaches_unresolved {t : State} (h : ReflTransGen (Turns α) t .unresolved) :
    t = .unresolved := by
  rcases h.cases_tail with heq | ⟨u, -, op, a, harrow⟩
  · exact heq.symm
  · exact absurd rfl harrow.ne_unresolved

/-- How the state of a cell goes on from here. -/
structure Moves (text : α → String) (p : Deferred σ α × σ) : Prop where
  along : ∀ op u, Arrow p.1.state op (step text op p).1 u ↔
    u = (step text op p).2.1.state ∧ u ≠ p.1.state
  reaches : ∀ later, ReflTransGen (Turns α) p.1.state (run (step text) later p).2.1.state
  started : p.1.state = .unresolved → ∀ op, op.needsValue = true →
    (step text op p).2.1.state ≠ .unresolved
  absorbed : p.1.state = .overridden → ∀ later, (run (step text) later p).2.1.state = .overridden
  left : p.1.state ≠ .unresolved → ∀ later, (run (step text) later p).2.1.state ≠ .unresolved
  kept : p.1.state = .resolved ∨ p.1.state = .overridden → (step text .read p).2.1.state = p.1.state
  edited : ∀ change v, (step text (.edit change) p).1 = .outcome (.value v) →
    (step text (.edit change) p).2.1.state = .overridden

theorem moves (text : α → String) (p : Deferred σ α × σ) : Moves text p where
  along op u := arrow_step_iff text op p u
  reaches later := reaches_run text later p
  started h op hop := by
    obtain ⟨u, harrow⟩ := exists_arrow text hop p
    rw [← h, arrow_step_iff] at harrow
    rw [← harrow.1, ← h]
    exact harrow.2
  absorbed h later := by
    have hreaches := reaches_run text later p
    rw [h] at hreaches
    exact eq_of_reaches_overridden hreaches
  left h later hlater := by
    have hreaches := reaches_run text later p
    rw [hlater] at hreaches
    exact h (eq_of_reaches_unresolved hreaches)
  kept h := by
    have hcoherent := coherent text p
    obtain ⟨v, hv⟩ := hcoherent.hasValue_iff_peek.mp (hcoherent.hasValue_iff_state.mpr h)
    rw [hcoherent.read v hv]
  edited change v h := by
    rcases edit_cases text change p with ⟨-, -, -, hover⟩ | ⟨hread, hans, -⟩
    · exact hover
    · rw [hans] at h
      exact absurd (Answer.outcome.inj h) (hread v)

/-- **The diagram.**  Of a cell as it is made, after any requests: what can be told about it fits
together and to its answers, the requests that only tell leave it as it is, and its state goes on along
the diagram.  Nothing is computed for a cell that has a value or has failed. -/
theorem diagram_of_run (text : α → String) (origin : Origin σ α) (s : σ) (ops : List (Op α)) :
    Coherent text (run (step text) ops (origin.cell, s, 0)).2 ∧
      Moves text (run (step text) ops (origin.cell, s, 0)).2 :=
  ⟨coherent text _, moves text _⟩

end CilMetadata.Deferred

import CilMetadata.Deferred
import Mathlib.Data.List.Induction
import Mathlib.Data.List.TakeWhile

/-!
# The history of a deferred cell

What a cell answers is told here by the requests made before, without the states of the cell: the
last written value counts, with the edits made since; without one the computation counts, which ran
once if anything needed a value.

* `run_unresolved`: the cell that a run ends in, as a function of its requests;
* `answers_of_history`: the answers of a run, and how often it computed.
-/

namespace CilMetadata

def Outcome.map {α β : Type} (f : α → β) : Outcome α → Outcome β
  | .value v => .value (f v)
  | .error e => .error e
  | .aborted => .aborted

namespace Deferred

variable {σ α : Type}

/-- A cell that notes beside its state how often it was computed. -/
def counting (compute : σ → Outcome α × σ) : Deferred (σ × Nat) α :=
  .unresolved fun (s, calls) => ((compute s).1, (compute s).2, calls + 1)

/-! ### What a history says -/

def Op.needsValue : Op α → Bool
  | .read | .edit _ => true
  | .write _ | .peek | .state | .hasValue | .describe => false

def Op.edits : Op α → Bool
  | .edit _ => true
  | .read | .write _ | .peek | .state | .hasValue | .describe => false

def Op.writes : Op α → Bool
  | .write _ => true
  | .read | .edit _ | .peek | .state | .hasValue | .describe => false

/-- A value after a request, if the cell holds it. -/
def Op.apply (v : α) : Op α → α
  | .edit change => change v
  | .read | .write _ | .peek | .state | .hasValue | .describe => v

/-- A value after the edits among some requests. -/
def edited (v : α) (ops : List (Op α)) : α := ops.foldl Op.apply v

/-- The value that was written last, and the requests made since. -/
def lastWrite? : List (Op α) → Option (α × List (Op α))
  | [] => none
  | op :: ops =>
    match lastWrite? ops, op with
    | some found, _ => some found
    | none, .write v => some (v, ops)
    | none, _ => none

/-- Whether a value was needed before the first write. -/
def started (past : List (Op α)) : Bool := (past.takeWhile fun op => !op.writes).any Op.needsValue

/-- What a read answers after a history, if the computation ends, or would end, as told. -/
def readAfter (original : Outcome α) (past : List (Op α)) : Outcome α :=
  match lastWrite? past with
  | some (v, since) => .value (edited v since)
  | none =>
    match original with
    | .value v => .value (edited v past)
    | .error e => .error e
    | .aborted => if started past then .error (.resolution ⟨0⟩ .incomplete) else .aborted

/-- The cell after a history. -/
def cellAfter (compute : σ → Outcome α × σ) (s : σ) (past : List (Op α)) : Deferred σ α :=
  match lastWrite? past with
  | some (v, since) => .overridden (edited v since)
  | none =>
    if started past then
      match (compute s).1 with
      | .value v =>
        if past.any Op.edits then .overridden (edited v past) else .resolved (edited v past)
      | .error e => .failed e
      | .aborted => .resolving
    else .unresolved compute

def stateAfter (compute : σ → Outcome α × σ) (s : σ) (past : List (Op α)) : σ :=
  if started past then (compute s).2 else s

/-! ### One request more -/

theorem edited_append_singleton (v : α) (ops : List (Op α)) (op : Op α) :
    edited v (ops ++ [op]) = op.apply (edited v ops) := by
  unfold edited
  rw [List.foldl_append]
  rfl

theorem edited_of_no_need (v : α) {ops : List (Op α)} (h : ops.any Op.needsValue = false) :
    edited v ops = v := by
  induction ops with
  | nil => rfl
  | cons op ops ih =>
    rw [List.any_cons, Bool.or_eq_false_iff] at h
    have hop : op.apply v = v := by
      cases op with
      | edit change => cases h.1
      | _ => rfl
    show edited (op.apply v) ops = v
    rw [hop]
    exact ih h.2

theorem any_edits_of_no_need {ops : List (Op α)} (h : ops.any Op.needsValue = false) :
    ops.any Op.edits = false := by
  rw [List.any_eq_false] at h ⊢
  intro op hop
  cases op with
  | edit change => exact absurd rfl (h _ hop)
  | _ => exact Bool.false_ne_true

theorem lastWrite?_write (past : List (Op α)) (v : α) :
    lastWrite? (past ++ [.write v]) = some (v, []) := by
  induction past with
  | nil => rfl
  | cons op past ih => simp only [List.cons_append, lastWrite?, ih]

theorem lastWrite?_append_singleton {op : Op α} (h : op.writes = false) (past : List (Op α)) :
    lastWrite? (past ++ [op]) = (lastWrite? past).map fun found => (found.1, found.2 ++ [op]) := by
  induction past with
  | nil =>
    cases op with
    | write v => cases h
    | _ => rfl
  | cons first past ih =>
    simp only [List.cons_append, lastWrite?, ih]
    cases lastWrite? past with
    | some found => rfl
    | none => cases first <;> rfl

theorem isSome_lastWrite? (past : List (Op α)) : (lastWrite? past).isSome = past.any Op.writes := by
  induction past with
  | nil => rfl
  | cons op past ih =>
    simp only [lastWrite?, List.any_cons, ← ih]
    cases lastWrite? past <;> cases op <;> rfl

theorem started_of_no_write {past : List (Op α)} (h : past.any Op.writes = false) :
    started past = past.any Op.needsValue := by
  have hall : ∀ op ∈ past, (!op.writes) = true := by
    intro op hop
    simpa using List.any_eq_false.mp h op hop
  unfold started
  rw [List.takeWhile_eq_self_iff.mpr hall]

theorem started_append_singleton (past : List (Op α)) (op : Op α) :
    started (past ++ [op]) = (started past || !past.any Op.writes && op.needsValue) := by
  unfold started
  induction past with
  | nil => cases op <;> rfl
  | cons first past ih =>
    cases hw : first.writes with
    | true => simp [hw]
    | false =>
      simp only [List.cons_append, List.takeWhile_cons, hw, List.any_cons, Bool.not_false, if_true, ih,
        Bool.or_assoc, Bool.false_or]

/-- The first request that needs a value starts the computation, unless a write came before. -/
theorem started_of_need {past : List (Op α)} (h : lastWrite? past = none) {op : Op α}
    (hn : op.needsValue = true) : started (past ++ [op]) = true := by
  have hpast : past.any Op.writes = false := by rw [← isSome_lastWrite?, h]; rfl
  rw [started_append_singleton, hpast, hn, Bool.not_false, Bool.true_and, Bool.or_true]

/-! ### The cell that a run ends in -/

variable (compute : σ → Outcome α × σ) (s : σ)

/-- A request that neither needs nor writes a value leaves no trace. -/
theorem cellAfter_append_observer (past : List (Op α)) {op : Op α} (hn : op.needsValue = false)
    (hw : op.writes = false) :
    cellAfter compute s (past ++ [op]) = cellAfter compute s past := by
  have hs : started (past ++ [op]) = started past := by
    rw [started_append_singleton, hn, Bool.and_false, Bool.or_false]
  have he : (past ++ [op]).any Op.edits = past.any Op.edits := by
    cases op with
    | edit change => cases hn
    | _ => simp [Op.edits]
  have ha : ∀ (v : α) ops, edited v (ops ++ [op]) = edited v ops := by
    intro v ops
    rw [edited_append_singleton]
    cases op with
    | edit change => cases hn
    | _ => rfl
  simp only [cellAfter, lastWrite?_append_singleton hw, hs, he, ha]
  cases lastWrite? past <;> simp only [Option.map, ha]

/-- A read answers as the history says. -/
theorem read_cellAfter (past : List (Op α)) :
    (cellAfter compute s past).read (stateAfter compute s past) =
      (readAfter (compute s).1 past, cellAfter compute s (past ++ [.read]),
        stateAfter compute s (past ++ [.read])) := by
  have hw : (Op.read : Op α).writes = false := rfl
  have he : (past ++ [Op.read]).any Op.edits = past.any Op.edits := by simp [Op.edits]
  have ha : ∀ (v : α) ops, edited v (ops ++ [.read]) = edited v ops := fun v ops =>
    edited_append_singleton v ops .read
  cases hl : lastWrite? past with
  | some found =>
    have hs : started (past ++ [.read]) = started past := by
      rw [started_append_singleton, ← isSome_lastWrite?, hl]
      simp
    simp [cellAfter, stateAfter, readAfter, lastWrite?_append_singleton hw, hl, hs, read, ha]
  | none =>
    have hs : started (past ++ [.read]) = true := started_of_need hl rfl
    have hl' : lastWrite? (past ++ [.read]) = none := by
      rw [lastWrite?_append_singleton hw, hl]
      rfl
    simp only [cellAfter, stateAfter, readAfter, hl, hl', hs, he, ha, if_true]
    cases hstart : started past with
    | true =>
      cases (compute s).1 with
      | value v => cases past.any Op.edits <;> rfl
      | error e => rfl
      | aborted => rfl
    | false =>
      have hneed : past.any Op.needsValue = false := by
        rw [← started_of_no_write (by rw [← isSome_lastWrite?, hl]; rfl), hstart]
      cases hc : compute s with
      | mk original s' =>
        cases original with
        | value v => simp [read, hc, edited_of_no_need v hneed, any_edits_of_no_need hneed]
        | error e => simp [read, hc]
        | aborted => simp [read, hc]

theorem cellAfter_append_edit (past : List (Op α)) (change : α → α) :
    cellAfter compute s (past ++ [.edit change]) =
      match readAfter (compute s).1 past with
      | .value v => .overridden (change v)
      | .error _ | .aborted => cellAfter compute s (past ++ [.read]) := by
  have hwr : (Op.read : Op α).writes = false := rfl
  have hwe : (Op.edit change).writes = false := rfl
  have he : (past ++ [Op.edit change]).any Op.edits = true := by simp [Op.edits]
  have ha : ∀ (v : α) ops, edited v (ops ++ [.edit change]) = change (edited v ops) := fun v ops =>
    edited_append_singleton v ops (.edit change)
  cases hl : lastWrite? past with
  | some found => simp [cellAfter, readAfter, lastWrite?_append_singleton hwe, hl, ha]
  | none =>
    have hsr : started (past ++ [.read]) = true := started_of_need hl rfl
    have hse : started (past ++ [.edit change]) = true := started_of_need hl rfl
    simp only [cellAfter, readAfter, lastWrite?_append_singleton hwe, lastWrite?_append_singleton hwr,
      hl, Option.map_none, hsr, hse, he, ha, if_true]
    cases (compute s).1 with
    | value v => rfl
    | error e => rfl
    | aborted => cases started past <;> rfl

theorem edit_cellAfter (past : List (Op α)) (change : α → α) :
    (cellAfter compute s past).edit (fun v s => (change v, change v, s)) (stateAfter compute s past) =
      ((readAfter (compute s).1 past).map change, cellAfter compute s (past ++ [.edit change]),
        stateAfter compute s (past ++ [.edit change])) := by
  have hs : stateAfter compute s (past ++ [.edit change]) = stateAfter compute s (past ++ [.read]) := by
    unfold stateAfter
    rw [started_append_singleton, started_append_singleton]
    rfl
  unfold edit
  rw [read_cellAfter, cellAfter_append_edit, hs]
  cases readAfter (compute s).1 past <;> rfl

/-- **The cell of a history.**  A run ends in the cell that its requests tell. -/
theorem run_unresolved (text : α → String) (ops : List (Op α)) :
    (run (step text) ops (.unresolved compute, s)).2 =
      (cellAfter compute s ops, stateAfter compute s ops) := by
  have hobs : ∀ (past : List (Op α)) (op : Op α), op.needsValue = false →
      stateAfter compute s (past ++ [op]) = stateAfter compute s past := by
    intro past op hn
    unfold stateAfter
    rw [started_append_singleton, hn, Bool.and_false, Bool.or_false]
  -- from the back: what a request leaves is told by all the requests before it
  induction ops using List.reverseRecOn with
  | nil => rfl
  | append_singleton past op ih =>
    rw [run_append, ih]
    show (step text op (cellAfter compute s past, stateAfter compute s past)).2 = _
    cases op with
    | read => simp only [step, read_cellAfter]
    | edit change => simp only [step, edit_cellAfter]
    | write v =>
      rw [hobs past _ rfl]
      simp [step, write, cellAfter, lastWrite?_write, edited]
    | _ => rw [hobs past _ rfl, cellAfter_append_observer compute s past rfl rfl]; rfl

/-! ### The answers of a run -/

theorem getElem?_run_append (text : α → String) (past later : List (Op α)) (op : Op α) :
    (run (step text) (past ++ op :: later) (.unresolved compute, s)).1[past.length]? =
      some (step text op (cellAfter compute s past, stateAfter compute s past)).1 := by
  rw [run_append, run_unresolved, run_cons]
  simp

/-- **Answers.**  In every run the computation was started once if a value was needed before the
first write, and never otherwise; every read and edit answers as its history tells, and every write
is accepted, whatever the cell held. -/
theorem answers_of_history (text : α → String) :
    (∀ ops, (run (step text) ops (counting compute, s, 0)).2.2 =
      if started ops then ((compute s).2, 1) else (s, 0)) ∧
    (∀ past later, (run (step text) (past ++ .read :: later) (counting compute, s, 0)).1[past.length]? =
      some (.outcome (readAfter (compute s).1 past))) ∧
    (∀ past later change,
      (run (step text) (past ++ .edit change :: later) (counting compute, s, 0)).1[past.length]? =
        some (.outcome ((readAfter (compute s).1 past).map change))) ∧
    (∀ past later v,
      (run (step text) (past ++ .write v :: later) (counting compute, s, 0)).1[past.length]? =
        some .written ∧
      (run (step text) (past ++ [.write v]) (counting compute, s, 0)).2.1 = .overridden v) ∧
    Obstacle.message .incomplete = "original value function did not complete" := by
  unfold counting
  refine ⟨?_, ?_, ?_, ?_, rfl⟩
  · intro ops
    rw [run_unresolved]
    rfl
  · intro past later
    rw [getElem?_run_append]
    simp only [step, read_cellAfter]
  · intro past later change
    rw [getElem?_run_append]
    simp only [step, edit_cellAfter]
  · intro past later v
    rw [getElem?_run_append, run_unresolved]
    simp [step, cellAfter, lastWrite?_write, edited]

end Deferred
end CilMetadata

/-!
# Runs

The answers of a machine to a list of requests, and the state it ends in.

* `run_append`: a run in two parts goes on where the first part stopped;
* `run_simulates`: machines that stay related step by step answer alike in every run.
-/

namespace CilMetadata

variable {ω σ τ α : Type}

/-- Takes requests one after the other. -/
def run (step : ω → σ → α × σ) : List ω → σ → List α × σ
  | [], s => ([], s)
  | op :: ops, s =>
    let (a, s') := step op s
    let (as, last) := run step ops s'
    (a :: as, last)

@[simp] theorem run_cons (step : ω → σ → α × σ) (op : ω) (ops : List ω) (s : σ) :
    run step (op :: ops) s =
      ((step op s).1 :: (run step ops (step op s).2).1, (run step ops (step op s).2).2) := rfl

theorem run_append (step : ω → σ → α × σ) (ops ops' : List ω) (s : σ) :
    run step (ops ++ ops') s =
      ((run step ops s).1 ++ (run step ops' (run step ops s).2).1,
        (run step ops' (run step ops s).2).2) := by
  induction ops generalizing s with
  | nil => rfl
  | cons op ops ih => simp [ih]

@[simp] theorem length_run (step : ω → σ → α × σ) (ops : List ω) (s : σ) :
    (run step ops s).1.length = ops.length := by
  induction ops generalizing s with
  | nil => rfl
  | cons op ops ih => simp [ih]

/-- What every step keeps, a run keeps. -/
theorem run_preserves {P : σ → Prop} {step : ω → σ → α × σ} (h : ∀ op s, P s → P (step op s).2)
    (ops : List ω) {s : σ} (hs : P s) : P (run step ops s).2 := by
  induction ops generalizing s with
  | nil => exact hs
  | cons op ops ih => exact ih (h op s hs)

theorem run_preserves_of_mem {P : σ → Prop} {allowed : ω → Prop} {step : ω → σ → α × σ}
    (h : ∀ op s, allowed op → P s → P (step op s).2) {ops : List ω} (hops : ∀ op ∈ ops, allowed op)
    {s : σ} (hs : P s) : P (run step ops s).2 := by
  induction ops generalizing s with
  | nil => exact hs
  | cons op ops ih =>
    rw [List.forall_mem_cons] at hops
    exact ih hops.2 (h op s hops.1 hs)

/-- Requests that leave every state as it is can be left out of a run. -/
theorem run_filter_state {p : ω → Bool} {step : ω → σ → α × σ}
    (hp : ∀ op s, p op = false → (step op s).2 = s) (ops : List ω) (s : σ) :
    (run step (ops.filter p) s).2 = (run step ops s).2 := by
  induction ops generalizing s with
  | nil => rfl
  | cons op ops ih =>
    cases hop : p op with
    | true =>
      rw [List.filter_cons_of_pos hop]
      exact ih (step op s).2
    | false =>
      rw [List.filter_cons_of_neg (by simp [hop]), run_cons, hp op s hop]
      exact ih s

/-- What holds where a run ends held where it started, if every step leads back. -/
theorem run_back {I E : σ → Prop} {step : ω → σ → α × σ} (hI : ∀ op s, I s → I (step op s).2)
    (hE : ∀ op s, I s → E (step op s).2 → E s) {ops : List ω} {s : σ} (hs : I s)
    (hend : E (run step ops s).2) : E s := by
  induction ops generalizing s with
  | nil => exact hend
  | cons op ops ih => exact hE op s hs (ih (hI op s hs) hend)

/-- **Simulation.**  Machines that answer every allowed request alike and stay related answer every
run of allowed requests alike.  The first machine may rely on an invariant `I`, and on a condition
`E` that is known where the run ends and leads back from there. -/
theorem run_simulates_of_end {I E : σ → Prop} {R : σ → τ → Prop} {allowed : ω → Prop}
    {step : ω → σ → α × σ} {step' : ω → τ → α × τ} (hI : ∀ op s, I s → I (step op s).2)
    (hE : ∀ op s, I s → E (step op s).2 → E s)
    (h : ∀ op s t, allowed op → I s → E (step op s).2 → R s t →
      (step op s).1 = (step' op t).1 ∧ R (step op s).2 (step' op t).2)
    {ops : List ω} (hops : ∀ op ∈ ops, allowed op) {s : σ} {t : τ} (hs : I s)
    (hend : E (run step ops s).2) (hR : R s t) :
    (run step ops s).1 = (run step' ops t).1 ∧ R (run step ops s).2 (run step' ops t).2 := by
  induction ops generalizing s t with
  | nil => exact ⟨rfl, hR⟩
  | cons op ops ih =>
    rw [List.forall_mem_cons] at hops
    have hs' := hI op s hs
    obtain ⟨hans, hR'⟩ := h op s t hops.1 hs (run_back hI hE hs' hend) hR
    obtain ⟨hrest, hlast⟩ := ih hops.2 hs' hend hR'
    refine ⟨?_, hlast⟩
    rw [run_cons, run_cons, hans, hrest]

theorem run_simulates {R : σ → τ → Prop} {allowed : ω → Prop} {step : ω → σ → α × σ}
    {step' : ω → τ → α × τ}
    (h : ∀ op s t, allowed op → R s t →
      (step op s).1 = (step' op t).1 ∧ R (step op s).2 (step' op t).2)
    {ops : List ω} (hops : ∀ op ∈ ops, allowed op) {s : σ} {t : τ} (hR : R s t) :
    (run step ops s).1 = (run step' ops t).1 ∧ R (run step ops s).2 (run step' ops t).2 :=
  run_simulates_of_end (I := fun _ => True) (E := fun _ => True) (fun _ _ _ => trivial)
    (fun _ _ _ _ => trivial) (fun op s t hop _ _ hR => h op s t hop hR) hops trivial trivial hR

end CilMetadata

import CilMetadata.Proofs.InterfaceImpl.CallTrace

/-!
# How often the raw row is fetched

Only a row that was fetched stays with the entity.  An attempt that fails leaves nothing behind but
the error in the field that made it, so the other field makes an attempt of its own.

* `fetches_transcript_le`: the attempts of a run, against the fields that it reads and the failures;
* `fetches_twice`: a run of two attempts.
-/

namespace CilMetadata

open Source (Call Answer Transcript Transcribed)

variable {σ : Type}

def TypeField.reads : TypeField → InterfaceImpl.Op → Bool
  | .classType, .classType => true
  | .interfaceType, .interfaceType => true
  | _, _ => false

@[simp] theorem TypeField.reads_readOp (f : TypeField) : f.reads f.readOp = true := by
  cases f <;> rfl

namespace RowContext

variable [Source σ] {rid : UInt32} {c : RowContext (Transcribed σ)}

open InterfaceImpl (entriesOf)

theorem fetches_fetch_le (h : c.owner.isSome) (rid : UInt32) :
    (c.fetch rid).2.owner.isSome ∧
      (entriesOf (c.fetch rid).2.owner).fetches ≤ (entriesOf c.owner).fetches + 1 := by
  rcases fetch_cases h rid with ⟨row, -, hfetch⟩ | ⟨-, hsome, -, hentries⟩
  · rw [hfetch]
    exact ⟨h, Nat.le_succ _⟩
  · rw [hentries]
    exact ⟨hsome, by simp [Transcript.fetches, List.countP_append, Call.fetchesRow]⟩

theorem fetches_find_le (h : c.owner.isSome) (f : TypeField) :
    (entriesOf (f.find rid c).2.owner).fetches ≤ (entriesOf c.owner).fetches + 1 := by
  obtain ⟨hsome, hle⟩ := fetches_fetch_le h rid
  rcases find_cases hsome f with heq | ⟨row, a, -, -, -, hentries⟩
  · rwa [heq]
  · have hcall : (f.call row).fetchesRow = false := by cases f <;> rfl
    rw [hentries, Transcript.fetches, List.countP_append, List.countP_singleton, hcall]
    exact hle

end RowContext

namespace InterfaceImpl

instance (f : TypeField) (e : InterfaceImpl σ) : Decidable (Settled f e) :=
  match e with
  | .authored _ => .isTrue trivial
  | .rowBacked e => inferInstanceAs (Decidable ((f.cell e).state ≠ .unresolved))

/-- One attempt for a field that is not settled and that some requests read. -/
def due (f : TypeField) (ops : List Op) (e : InterfaceImpl σ) : Nat :=
  if ¬ Settled f e ∧ ops.any f.reads then 1 else 0

theorem due_step_le (f : TypeField) (op : Op) (ops : List Op) (p : InterfaceImpl σ × Option σ) :
    due f ops (step op p).2.1 ≤ due f (op :: ops) p.1 := by
  unfold due
  split <;> rename_i h
  · have hstill : ¬ Settled f p.1 := fun hf => h.1 (step_settled hf op p.2)
    exact Nat.le_of_eq (if_pos ⟨hstill, by simp [h.2]⟩).symm
  · exact Nat.zero_le _

/-- The first read of a field uses up what was due for it. -/
theorem due_readOp_lt {f : TypeField} {p : InterfaceImpl σ × Option σ} (h : ¬ Settled f p.1)
    (ops : List Op) : due f ops (step f.readOp p).2.1 < due f (f.readOp :: ops) p.1 := by
  have hbefore : due f (f.readOp :: ops) p.1 = 1 := if_pos ⟨h, by simp⟩
  have hafter : due f ops (step f.readOp p).2.1 = 0 :=
    if_neg fun hdue => hdue.1 (settled_readOp f p.1 p.2)
  omega

variable [Source σ]

theorem due_unread (f : TypeField) (ops : List Op) (rid : UInt32) :
    due f ops (.rowBacked (RowBacked.unread rid) : InterfaceImpl σ) = if ops.any f.reads then 1 else 0 := by
  have hunread : ¬ Settled f (.rowBacked (RowBacked.unread rid) : InterfaceImpl σ) := by
    intro h
    rw [Settled, f.cell_unread] at h
    exact h rfl
  simp only [due, hunread, not_false_eq_true, true_and]

variable {rid : UInt32} {p : InterfaceImpl (Transcribed σ) × Option (Transcribed σ)}

theorem fetches_step_of_not_read (h : Recorded rid p) {op : Op} (hop : ∀ f : TypeField, op ≠ f.readOp) :
    (entriesOf (step op p).2.2).fetches = (entriesOf p.2).fetches := by
  refine (step_recorded op h).2.countP_eq fun c hc => ?_
  cases op with
  | classType => exact absurd rfl (hop .classType)
  | interfaceType => exact absurd rfl (hop .interfaceType)
  | attributes op => exact Call.fetchesRow_of_forAttributes hc
  | _ => cases hc

/-- The first read of a field makes at most one attempt, and a later one makes none. -/
theorem fetches_readOp_le (h : Recorded rid p) (f : TypeField) :
    (entriesOf (step f.readOp p).2.2).fetches ≤
      (entriesOf p.2).fetches + if Settled f p.1 then 0 else 1 := by
  obtain ⟨e, owner⟩ := p
  by_cases hf : Settled f e
  · rw [step_readOp_of_settled hf, if_pos hf]
    exact Nat.le_refl _
  rw [if_neg hf]
  cases e with
  | authored a => exact absurd trivial hf
  | rowBacked e =>
    have ha := h.bound.field f
    rw [h.rid_eq] at ha
    have hread := (Deferred.read_of_unresolved ha (not_not.mp hf) ⟨e.row, owner⟩).2
    rw [f.step_readOp, hread]
    exact RowContext.fetches_find_le h.context.owner f

/-- **One request.**  The attempts that a request makes are paid by what is due for the fields. -/
theorem fetches_step_le (h : Recorded rid p) (op : Op) (ops : List Op) :
    (entriesOf (step op p).2.2).fetches + due .classType ops (step op p).2.1 +
        due .interfaceType ops (step op p).2.1 ≤
      (entriesOf p.2).fetches + due .classType (op :: ops) p.1 + due .interfaceType (op :: ops) p.1 := by
  have hclass := due_step_le .classType op ops p
  have hinterface := due_step_le .interfaceType op ops p
  by_cases hop : ∃ f : TypeField, op = f.readOp
  · obtain ⟨f, rfl⟩ := hop
    have hfetch := fetches_readOp_le h f
    by_cases hf : Settled f p.1
    · rw [if_pos hf] at hfetch
      omega
    · have hpaid := due_readOp_lt hf ops
      rw [if_neg hf] at hfetch
      cases f <;> omega
  · have hfetch := fetches_step_of_not_read h fun f hf => hop ⟨f, hf⟩
    omega

theorem fetches_run_le (h : Recorded rid p) (ops : List Op) :
    (entriesOf (run step ops p).2.2).fetches ≤
      (entriesOf p.2).fetches + due .classType ops p.1 + due .interfaceType ops p.1 := by
  induction ops generalizing p with
  | nil => exact Nat.le_add_right_of_le (Nat.le_add_right _ _)
  | cons op ops ih => exact Nat.le_trans (ih (step_recorded op h).1) (fetches_step_le h op ops)

def fieldsRead (ops : List Op) : Nat := [TypeField.classType, .interfaceType].countP fun f => ops.any f.reads

/-- **Attempts.**  The raw row is fetched at most once for each field that is read, and every attempt
but one has failed.  So a source that does not fail is asked once, whatever is read. -/
theorem fetches_transcript_le (build : Build) (mode : ValidationMode) (rid : UInt32) (ops : List Op)
    (s : σ) :
    (transcript build mode rid ops s).fetches ≤ fieldsRead ops ∧
      (transcript build mode rid ops s).fetches ≤ (transcript build mode rid ops s).failedFetches + 1 := by
  refine ⟨?_, (lawful_transcript build mode rid ops s).fetches_le⟩
  have hnone : (entriesOf (ofRow build mode rid (some (⟨s, []⟩ : Transcribed σ))).2).fetches = 0 := by
    refine List.countP_eq_zero.mpr fun entry hentry => ?_
    rw [eq_rowCount_of_mem_ofRow build mode rid s entry hentry]
    exact Bool.false_ne_true
  unfold transcript
  split <;> rename_i h <;> rw [h] at hnone
  · obtain ⟨rfl, -⟩ := ofRow_eq_ok h
    have hrun := fetches_run_le (ofRow_recorded h) ops
    rw [hnone, due_unread, due_unread] at hrun
    rw [fieldsRead, List.countP_cons, List.countP_cons, List.countP_nil]
    omega
  · rw [hnone]
    exact Nat.zero_le _

/-- A source of one row that it fails to hand out. -/
def brokenSource : Source.Scripted where
  rowCounts := [(.interfaceImpl, 1)]
  rows := []
  typeDefs := []
  types := []
  rids := []
  attributes := []
  numbered := false
  handedOut := 0

/-- A fetch that fails is tried again when the other field is read. -/
theorem fetches_twice : ¬ ∀ (build : Build) (mode : ValidationMode) (rid : UInt32) (ops : List Op)
    (s : Source.Scripted), (transcript build mode rid ops s).fetches ≤ 1 := by
  intro h
  have htwice : (transcript .debug .strict 1 [.classType, .interfaceType] brokenSource).fetches = 2 := rfl
  have honce := h .debug .strict 1 [.classType, .interfaceType] brokenSource
  omega

end InterfaceImpl

end CilMetadata

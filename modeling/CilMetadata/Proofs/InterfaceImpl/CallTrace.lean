import CilMetadata.Proofs.InterfaceImpl.Calls

/-!
# The calls of a run

What the source of a row-backed entity is asked in a run, whatever it answers.

* `calls_of_run`: the main result.
-/

namespace CilMetadata.InterfaceImpl

open Source (Call Answer Transcript Transcribed)

variable {σ : Type} [Source σ] {rid : UInt32}
  {p : InterfaceImpl (Transcribed σ) × Option (Transcribed σ)}

/-! ### Fields that are not asked for -/

theorem asks_of_mayCall {f : TypeField} {op : Op} (hop : op ≠ f.readOp) {c : Call}
    (h : op.mayCall c = true) : f.asks c = false := by
  cases op with
  | classType =>
    refine TypeField.asks_of_mayCall (g := .classType) ?_ h
    rintro rfl
    exact hop rfl
  | interfaceType =>
    refine TypeField.asks_of_mayCall (g := .interfaceType) ?_ h
    rintro rfl
    exact hop rfl
  | attributes op => exact f.asks_of_forAttributes h
  | _ => cases h

theorem step_avoids {f : TypeField} {op : Op} (hop : op ≠ f.readOp) (h : Recorded rid p)
    (havoids : (entriesOf p.2).Avoids f.asks) : (entriesOf (step op p).2.2).Avoids f.asks :=
  havoids.grows (step_recorded op h).2 fun _ => asks_of_mayCall hop

theorem run_avoids_of_settled {f : TypeField} (h : Recorded rid p) (hf : Settled f p.1)
    (havoids : (entriesOf p.2).Avoids f.asks) (ops : List Op) :
    (entriesOf (run step ops p).2.2).Avoids f.asks := by
  refine (run_preserves (P := fun p : InterfaceImpl (Transcribed σ) × Option (Transcribed σ) =>
    Recorded rid p ∧ Settled f p.1 ∧ (entriesOf p.2).Avoids f.asks) ?_ ops ⟨h, hf, havoids⟩).2.2
  rintro op ⟨e, owner⟩ ⟨h, hf, havoids⟩
  refine ⟨(step_recorded op h).1, step_settled hf op owner, ?_⟩
  by_cases hop : op = f.readOp
  · rw [hop, step_readOp_of_settled hf]
    exact havoids
  · exact step_avoids hop h havoids

theorem run_avoids_of_write {f : TypeField} (h : Recorded rid p)
    (havoids : (entriesOf p.2).Avoids f.asks) {before : List Op} (hbefore : f.readOp ∉ before)
    (t : Option CilType) (after : List Op) :
    (entriesOf (run step (before ++ f.writeOp t :: after) p).2.2).Avoids f.asks := by
  have hfirst : Recorded rid (run step before p).2 ∧ (entriesOf (run step before p).2.2).Avoids f.asks := by
    refine run_preserves_of_mem (P := fun p : InterfaceImpl (Transcribed σ) × Option (Transcribed σ) =>
      Recorded rid p ∧ (entriesOf p.2).Avoids f.asks) (fun op p (hop : op ≠ f.readOp) hp => ?_)
      (fun op hop heq => hbefore (heq ▸ hop)) ⟨h, havoids⟩
    exact ⟨(step_recorded op hp.1).1, step_avoids hop hp.1 hp.2⟩
  rw [run_append, run_cons]
  have hwrite : f.writeOp t ≠ f.readOp := by cases f <;> exact nofun
  exact run_avoids_of_settled (step_recorded _ hfirst.1).1 (settled_writeOp f t _ _)
    (step_avoids hwrite hfirst.1 hfirst.2) after

/-! ### Construction -/

variable (build : Build) (mode : ValidationMode)

/-- What construction can do: it checks the row number, or makes no call. -/
theorem entriesOf_ofRow (rid : UInt32) (s : σ) :
    entriesOf (ofRow build mode rid (some (⟨s, []⟩ : Transcribed σ))).2 = [] ∨
      ∃ a, entriesOf (ofRow build mode rid (some (⟨s, []⟩ : Transcribed σ))).2 =
        [(.rowCount .interfaceImpl, a)] := by
  unfold ofRow RowBacked.bind Source.isValidRid
  by_cases hmode : mode.checksRowIds build = true
  · by_cases hrid : rid = 0
    · simp only [hmode, hrid, if_true]
      exact .inl rfl
    · simp only [hmode, hrid, if_true, if_false]
      refine .inr ⟨.count (Source.rowCount .interfaceImpl s).1, ?_⟩
      cases decide (rid ≤ (Source.rowCount .interfaceImpl (⟨s, []⟩ : Transcribed σ)).1) <;> rfl
  · simp only [hmode]
    exact .inl rfl

theorem lawful_ofRow (rid : UInt32) (s : σ) :
    RowBacked.Lawful rid (entriesOf (ofRow build mode rid (some (⟨s, []⟩ : Transcribed σ))).2) := by
  rcases entriesOf_ofRow build mode rid s with h | ⟨a, h⟩
  · rw [h]
    exact RowBacked.lawful_nil
  · rw [h]
    exact RowBacked.lawful_nil.concat (.rowCount rfl) a

theorem eq_rowCount_of_mem_ofRow (rid : UInt32) (s : σ) :
    ∀ entry ∈ entriesOf (ofRow build mode rid (some (⟨s, []⟩ : Transcribed σ))).2,
      entry.1 = .rowCount .interfaceImpl := by
  intro entry hentry
  rcases entriesOf_ofRow build mode rid s with h | ⟨a, h⟩
  · rw [h] at hentry
    cases hentry
  · rw [h, List.mem_singleton] at hentry
    rw [hentry]

/-- Construction leaves an entity whose state the transcript tells. -/
theorem ofRow_recorded {build : Build} {mode : ValidationMode} {s : σ} {e : InterfaceImpl (Transcribed σ)}
    {owner : Option (Transcribed σ)}
    (h : ofRow build mode rid (some (⟨s, []⟩ : Transcribed σ)) = (.ok e, owner)) :
    Recorded rid (e, owner) := by
  have hlawful := lawful_ofRow build mode rid s
  have hentries := eq_rowCount_of_mem_ofRow build mode rid s
  rw [h] at hlawful hentries
  obtain ⟨rfl, hsome⟩ := ofRow_eq_ok h
  exact RowBacked.recorded_unread hsome hlawful hentries

/-! ### Runs -/

/-- Whether a request only looks at what an entity holds by now. -/
def Op.observes : Op → Bool
  | .rid | .token | .attributeIndex | .describe | .classState | .interfaceState | .isRowLoaded => true
  | .setRid _ | .classType | .interfaceType | .setClassType _ | .setInterfaceType _ | .attributes _ => false

theorem lawful_transcript (rid : UInt32) (ops : List Op) (s : σ) :
    RowBacked.Lawful rid (transcript build mode rid ops s) := by
  unfold transcript
  split <;> rename_i h
  · exact (run_recorded (ofRow_recorded h) ops).lawful
  · have hlawful := lawful_ofRow build mode rid s
    rwa [h] at hlawful

theorem transcript_avoids_of_write {f : TypeField} {before : List Op} (hbefore : f.readOp ∉ before)
    (rid : UInt32) (t : Option CilType) (after : List Op) (s : σ) :
    (transcript build mode rid (before ++ f.writeOp t :: after) s).Avoids f.asks := by
  have havoids : (entriesOf (ofRow build mode rid (some (⟨s, []⟩ : Transcribed σ))).2).Avoids f.asks := by
    intro entry hentry
    rw [eq_rowCount_of_mem_ofRow build mode rid s entry hentry]
    cases f <;> rfl
  unfold transcript
  split <;> rename_i h <;> rw [h] at havoids
  · exact run_avoids_of_write (ofRow_recorded h) havoids hbefore t after
  · exact havoids

theorem transcript_nil (rid : UInt32) (s : σ) :
    transcript build mode rid [] s =
      entriesOf (ofRow build mode rid (some (⟨s, []⟩ : Transcribed σ))).2 := by
  unfold transcript
  split <;> rename_i h <;> rw [h]
  rfl

theorem transcript_filter_observes (rid : UInt32) (ops : List Op) (s : σ) :
    transcript build mode rid (ops.filter fun op => !op.observes) s = transcript build mode rid ops s := by
  have hobserves : ∀ (op : Op) (p : InterfaceImpl (Transcribed σ) × Option (Transcribed σ)),
      (!op.observes) = false → (step op p).2 = p := by
    rintro op ⟨e, owner⟩ hop
    cases op <;> first | rfl | cases hop
  unfold transcript
  split
  · rw [run_filter_state hobserves]
  · rfl

/-- **The calls of a run.**  Whatever a source answers, and whatever is asked of the entity that is
made from one of its rows:

* the calls keep to the law;
* a field that is written before it is read is not asked for;
* construction makes no call but the check of the row number, and what only observes makes none. -/
theorem calls_of_run (rid : UInt32) (ops : List Op) (s : σ) :
    RowBacked.CallLaw rid (transcript build mode rid ops s) ∧
      (∀ (f : TypeField) before t after, ops = before ++ f.writeOp t :: after → f.readOp ∉ before →
        (transcript build mode rid ops s).Avoids f.asks) ∧
      (∀ entry ∈ transcript build mode rid [] s, entry.1 = .rowCount .interfaceImpl) ∧
      transcript build mode rid (ops.filter fun op => !op.observes) s = transcript build mode rid ops s := by
  refine ⟨(lawful_transcript build mode rid ops s).callLaw, ?_, ?_,
    transcript_filter_observes build mode rid ops s⟩
  · rintro f before t after rfl hbefore
    exact transcript_avoids_of_write build mode hbefore rid t after s
  · rw [transcript_nil]
    exact eq_rowCount_of_mem_ofRow build mode rid s

end CilMetadata.InterfaceImpl

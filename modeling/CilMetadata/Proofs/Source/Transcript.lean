import CilMetadata.Source.Transcribed
import Mathlib.Data.List.Induction

/-!
# Transcripts

What a source that keeps a transcript has noted.

* `entries_call`: a call and its answer are noted at the end of the transcript;
* `Transcript.Grows`: a transcript that went on with calls of some kind only.
-/

namespace CilMetadata.Source

namespace Transcribed

variable {σ : Type}

theorem entries_call [Source σ] (c : Call) (s : Transcribed σ) :
    (call c s).2.entries = s.entries ++ [(c, (call c s).1)] := by
  cases c <;> rfl

theorem mem_entries_call [Source σ] (c : Call) (s : Transcribed σ) :
    (c, (call c s).1) ∈ (call c s).2.entries := by
  rw [entries_call]
  exact List.mem_append_right _ List.mem_cons_self

theorem entries_subset_call [Source σ] (c : Call) (s : Transcribed σ) :
    s.entries ⊆ (call c s).2.entries := by
  rw [entries_call]
  exact List.subset_append_left _ _

end Transcribed

namespace Transcript

variable {kind kind' : Call → Bool} {T T' T'' : Transcript}

/-- Whether a transcript has no call of a kind. -/
def Avoids (kind : Call → Bool) (T : Transcript) : Prop := ∀ entry ∈ T, kind entry.1 = false

/-- The second transcript goes on from the first one, with calls of a kind only. -/
def Grows (kind : Call → Bool) (T T' : Transcript) : Prop :=
  ∃ new : Transcript, T' = T ++ new ∧ ∀ entry ∈ new, kind entry.1 = true

theorem Grows.refl (kind : Call → Bool) (T : Transcript) : Grows kind T T :=
  ⟨[], (List.append_nil T).symm, fun _ h => absurd h List.not_mem_nil⟩

theorem Grows.concat {c : Call} (h : kind c = true) (T : Transcript) (a : Answer) :
    Grows kind T (T ++ [(c, a)]) := by
  refine ⟨[(c, a)], rfl, fun entry hentry => ?_⟩
  rw [List.mem_singleton.mp hentry]
  exact h

theorem Grows.trans (h : Grows kind T T') (h' : Grows kind T' T'') : Grows kind T T'' := by
  obtain ⟨new, rfl, hnew⟩ := h
  obtain ⟨new', rfl, hnew'⟩ := h'
  refine ⟨new ++ new', List.append_assoc _ _ _, fun entry hentry => ?_⟩
  exact (List.mem_append.mp hentry).elim (hnew entry) (hnew' entry)

theorem Grows.mono (h : Grows kind T T') (hk : ∀ c, kind c = true → kind' c = true) :
    Grows kind' T T' := by
  obtain ⟨new, hT, hnew⟩ := h
  exact ⟨new, hT, fun entry hentry => hk _ (hnew entry hentry)⟩

theorem Grows.subset (h : Grows kind T T') : T ⊆ T' := by
  obtain ⟨new, rfl, -⟩ := h
  exact List.subset_append_left _ _

theorem Grows.mem_iff (h : Grows kind T T') {entry : Call × Answer} (hk : kind entry.1 = false) :
    entry ∈ T' ↔ entry ∈ T := by
  refine ⟨fun hmem => ?_, fun hmem => h.subset hmem⟩
  obtain ⟨new, rfl, hnew⟩ := h
  refine (List.mem_append.mp hmem).resolve_right fun hmem => ?_
  rw [hnew entry hmem] at hk
  cases hk

theorem Avoids.grows (h : Avoids kind T) (hg : Grows kind' T T')
    (hk : ∀ c, kind' c = true → kind c = false) : Avoids kind T' := by
  obtain ⟨new, rfl, hnew⟩ := hg
  intro entry hentry
  exact (List.mem_append.mp hentry).elim (h entry) fun hmem => hk _ (hnew entry hmem)

/-- What calls of another kind are counted, is counted before. -/
theorem Grows.countP_eq (h : Grows kind T T') (hk : ∀ c, kind c = true → kind' c = false) :
    T'.countP (fun entry => kind' entry.1) = T.countP fun entry => kind' entry.1 := by
  obtain ⟨new, rfl, hnew⟩ := h
  rw [List.countP_append, Nat.add_eq_left, List.countP_eq_zero]
  intro entry hentry
  rw [hk _ (hnew entry hentry)]
  exact Bool.false_ne_true

/-- What never comes after itself comes at most once. -/
theorem countP_le_one {p : Call × Answer → Bool}
    (h : ∀ past entry later, T = past ++ entry :: later → p entry = true →
      ∀ earlier ∈ past, p earlier = false) : T.countP p ≤ 1 := by
  induction T using List.reverseRecOn with
  | nil => exact Nat.zero_le _
  | append_singleton past entry ih =>
    rw [List.countP_append, List.countP_singleton]
    cases hp : p entry with
    | true =>
      have hpast : past.countP p = 0 := by
        rw [List.countP_eq_zero]
        intro earlier hearlier
        rw [h past entry [] rfl hp earlier hearlier]
        exact Bool.false_ne_true
      simp [hpast]
    | false =>
      rw [if_neg Bool.false_ne_true]
      refine ih fun past' entry' later hT => h past' entry' (later ++ [entry]) ?_
      rw [hT, List.append_assoc, List.cons_append]

end Transcript
end CilMetadata.Source

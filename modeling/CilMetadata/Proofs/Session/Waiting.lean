import CilMetadata.Proofs.Session.Requests

/-!
# What waits in a session

Part of an entity waits as long as it is not asked for.  What is so of every entity that was just
made, and is kept by all requests to the entity but those of some kind, is so in every run without
requests of this kind to it; requests to other entities or to the image do not matter.

* `holds_run`: whole runs.
-/

namespace CilMetadata.Session

/-- Whether a request asks the entity of a number something of a kind. -/
def Request.asks (n : Nat) (kind : InterfaceImpl.Op → Bool) : Request → Bool
  | .any (.entity k op) => k == n && kind op
  | _ => false

/-- The entity of a number, if it is there and bound to a row, has a property. -/
def Holds (n : Nat) (P : RowBacked ModuleImage → Prop) (s : Session ModuleImage) : Prop :=
  ∀ r, s.entities[n]? = some (.rowBacked r) → P r

/-- A property of every entity that was just made, kept by all requests but those of a kind. -/
structure Kept (kind : InterfaceImpl.Op → Bool) (P : RowBacked ModuleImage → Prop) : Prop where
  unread : ∀ rid, P (RowBacked.unread rid)
  step : ∀ op r r' owner, kind op = false →
    (InterfaceImpl.step op (.rowBacked r, owner)).2.1 = .rowBacked r' → P r → P r'

variable {build : Build} {m : ModuleImage} {s : Session ModuleImage} {n : Nat} {kind : InterfaceImpl.Op → Bool}
  {P : RowBacked ModuleImage → Prop}

theorem holds_start (m : ModuleImage) (n : Nat) (P : RowBacked ModuleImage → Prop) :
    (start (some m)).Holds n P := fun _ hr => nomatch hr

theorem holds_request (hP : Kept kind P) (h : s.Fits build m) (hs : s.Holds n P) {q : Request}
    (hq : q.asks n kind = false) : (request build q s).2.Holds n P := by
  intro r hr
  cases leaves_request h q with
  | made es hes he ho =>
    rw [he, List.getElem?_append] at hr
    split at hr
    · exact hs r hr
    · cases hes _ (List.mem_of_getElem? hr) with
      | rowBacked hcounted => exact hP.unread _
  | asked k op e hk hn he ho =>
    subst hk
    rw [he] at hr
    by_cases hkn : k = n
    · subst hkn
      have hlt : k < s.entities.length := (List.getElem?_eq_some_iff.mp hn).1
      rw [List.getElem?_set_self hlt] at hr
      have hop : kind op = false := by simpa [Request.asks] using hq
      cases e with
      | authored a =>
        have hb := InterfaceImpl.isRowBacked_step op (.authored a) s.owner
        rw [Option.some.inj hr] at hb
        cases hb
      | rowBacked r₀ => exact hP.step op r₀ r s.owner hop (Option.some.inj hr) (hs r₀ hn)
    · rw [List.getElem?_set_ne hkn] at hr
      exact hs r hr

/-- **Waiting.**  In every run that asks an entity nothing of a kind, what was so stays so. -/
theorem holds_run (hP : Kept kind P) {qs : List Request} (h : s.Fits build m) (hs : s.Holds n P)
    (hq : ∀ q ∈ qs, q.asks n kind = false) : (run (request build) qs s).2.Holds n P :=
  (run_preserves_of_mem (P := fun s => s.Fits build m ∧ s.Holds n P)
    (fun q s hq hs => ⟨fits_request q s hs.1, holds_request hP hs.1 hs.2 hq⟩) hq ⟨h, hs⟩).2

end CilMetadata.Session

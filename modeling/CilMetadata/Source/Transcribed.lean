import CilMetadata.Source

/-!
# Transcribed sources

A source that passes every call on to another one and keeps a transcript: the calls with their
answers, in order.
-/

namespace CilMetadata.Source

/-- Calls with their answers, in order. -/
abbrev Transcript := List (Call × Answer)

/-- A source with the transcript of the calls made so far. -/
structure Transcribed (σ : Type) where
  inner : σ
  entries : Transcript

namespace Transcribed

variable {σ α : Type}

/-- Passes a call on and notes it with its answer. -/
def pass (c : Call) (noted : α → Answer) (f : σ → α × σ) (s : Transcribed σ) : α × Transcribed σ :=
  let (a, inner) := f s.inner
  (a, ⟨inner, s.entries ++ [(c, noted a)]⟩)

instance [Source σ] : Source (Transcribed σ) where
  rowCount t := pass (.rowCount t) .count (rowCount t)
  readInterfaceImpl rid := pass (.readInterfaceImpl rid) .row (readInterfaceImpl rid)
  resolveTypeDef index := pass (.resolveTypeDef index) .type (resolveTypeDef index)
  resolveTypeDefOrRef index := pass (.resolveTypeDefOrRef index) .type (resolveTypeDefOrRef index)
  customAttributeRids parent := pass (.customAttributeRids parent) .rids (customAttributeRids parent)
  readCustomAttribute rid := pass (.readCustomAttribute rid) .attr (readCustomAttribute rid)

end Transcribed
end CilMetadata.Source

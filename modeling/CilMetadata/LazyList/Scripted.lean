import CilMetadata.LazyList

/-!
# Scripted readers

A reader of numbered elements that fails as it is told, to try lazy lists out.
-/

namespace CilMetadata.LazyList

/-- The state of a scripted reader. -/
structure Script where
  /-- the ids that are still to fail, how often and how -/
  failures : List (UInt32 × Nat × Error)
  /-- the ids that were asked for, in order -/
  asked : List UInt32

namespace Script

/-- Takes away one failure of an id, if one is left. -/
def takeFailure (id : UInt32) :
    List (UInt32 × Nat × Error) → Option Error × List (UInt32 × Nat × Error)
  | [] => (none, [])
  | (i, times, e) :: rest =>
    if i = id ∧ times ≠ 0 then (some e, (i, times - 1, e) :: rest)
    else
      let (found, rest') := takeFailure id rest
      (found, (i, times, e) :: rest')

/-- Answers a hundred times the id plus the number of reads so far, this one included. -/
def read (id : UInt32) (s : Script) : Except Error Int × Script :=
  let asked := s.asked ++ [id]
  match takeFailure id s.failures with
  | (some e, failures) => (.error e, ⟨failures, asked⟩)
  | (none, failures) => (.ok (id.toNat * 100 + asked.length), ⟨failures, asked⟩)

end Script
end CilMetadata.LazyList

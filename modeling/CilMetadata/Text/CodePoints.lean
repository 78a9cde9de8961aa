/-!
# Sets of code points

A set of code points is a list of closed ranges that ascend and stay apart, so that a look-up may
stop at the first range above the asked code point.
-/

namespace CilMetadata.Text

/-- Whether closed ranges ascend, with a gap between neighbours. -/
def CodePoints.ascend : List (Nat × Nat) → Bool
  | [] => true
  | [r] => r.1 ≤ r.2
  | r :: s :: rest => r.1 ≤ r.2 && r.2 + 1 < s.1 && ascend (s :: rest)

/-- A set of code points, by closed ranges. -/
structure CodePoints where
  ranges : List (Nat × Nat)
  ascending : CodePoints.ascend ranges

namespace CodePoints

/-- Looks a code point up in ascending ranges. -/
def find (n : Nat) : List (Nat × Nat) → Bool
  | [] => false
  | r :: rest => if n < r.1 then false else if n ≤ r.2 then true else find n rest

def contains (s : CodePoints) (n : Nat) : Bool := find n s.ranges

end CodePoints
end CilMetadata.Text

/-!
# Flags

A family of flags is a list of named bit masks.  Bits outside every mask are kept where they stand
and only left out when somebody asks for the known ones.
-/

namespace CilMetadata

/-- A named bit mask. -/
structure Flag where
  name : String
  mask : UInt32
  deriving DecidableEq, Repr

namespace Flag

/-- The bits of all flags of a family. -/
def union (family : List Flag) : UInt32 := family.foldl (fun bits flag => bits ||| flag.mask) 0

/-- The known bits among some bits. -/
def truncate (family : List Flag) (bits : UInt32) : UInt32 := bits &&& union family

def isKnown (family : List Flag) (bits : UInt32) : Bool := truncate family bits = bits

/-- Whether a flag is set: all its bits are. -/
def isIn (flag : Flag) (bits : UInt32) : Bool := bits &&& flag.mask = flag.mask

/-- The set flags of a family that bring in a bit that no flag before them has. -/
def listing (bits : UInt32) : List Flag → UInt32 → List Flag
  | [], _ => []
  | flag :: rest, remaining =>
    if flag.mask ≠ 0 ∧ flag.isIn bits ∧ remaining &&& flag.mask ≠ 0 then
      flag :: listing bits rest (remaining &&& ~~~flag.mask)
    else listing bits rest remaining

def names (family : List Flag) (bits : UInt32) : List String :=
  (listing bits family bits).map Flag.name

end Flag
end CilMetadata

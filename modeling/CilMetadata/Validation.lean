/-!
# Validation

How much is checked when an entity is bound to a row.
-/

namespace CilMetadata

/-- How much is checked. -/
inductive ValidationMode where
  | strict | fast
  deriving DecidableEq, Repr

/-- How the library was built.  Only debug builds carry debug assertions. -/
inductive Build where
  | debug | release
  deriving DecidableEq, Repr

namespace ValidationMode

/-- The mode that holds if none is chosen. -/
def standard : ValidationMode := .strict

/-- The name of a mode. -/
def name : ValidationMode → String
  | .strict => "Strict"
  | .fast => "Fast"

/-- Whether row numbers are checked.  Strict checks them always, Fast in debug builds only: there a
release build takes any row number. -/
def checksRowIds (build : Build) : ValidationMode → Bool
  | .strict => true
  | .fast => build = .debug

theorem checksRowIds_debug (mode : ValidationMode) : mode.checksRowIds .debug = true := by
  cases mode <;> rfl

end ValidationMode
end CilMetadata

import CilMetadata.CodedIndex.Kind
import CilMetadata.Text.Quoted
import CilMetadata.Token

/-!
# Errors

An error says what went wrong as a value: which check failed and on what.  Three families carry a
finer cause: `Defect` (bytes that do not decode), `Obstacle` (an index that leads to no entity) and
`BodyDefect` (parts that fit into no method body).  `Error.text` is the one place that words them,
`Error.describe` spells out the constructor and its fields.
-/

namespace CilMetadata

/-- What is wrong with data that does not decode. -/
inductive Defect where
  /-- a coded index whose tag bits name no table -/
  | invalidTag (tag : UInt32) (kind : CodedIndex.Kind) (value : UInt32)
  /-- a coded index whose row does not fit into a token -/
  | rowTooLarge (row : UInt32) (kind : CodedIndex.Kind) (value : UInt32)
  /-- a first byte that starts no compressed number -/
  | compressedMarker (first : UInt8)
  /-- a blob heap that does not start with the empty blob -/
  | blobHeap
  /-- an element that waits for a reader in a list that has none -/
  | noReader (id : UInt32)
  /-- a defect found outside this library, with the place that found it -/
  | reported (file : String) (line : UInt32) (message : String)
  deriving DecidableEq, Repr

/-- Why a stored index leads to no entity. -/
inductive Obstacle where
  /-- an index into the type definitions that does not fit into a token -/
  | typeDefTooLarge (index : UInt32)
  /-- a row that does not fit into a token -/
  | rowTooLarge (table : TableId) (row : UInt32)
  /-- a table that holds no types -/
  | notTypeTable (table : TableId)
  /-- a value whose computation was started and never came to an end -/
  | incomplete
  /-- a reason found outside this library -/
  | reported (message : String)
  deriving DecidableEq, Repr

/-- Why parts fit into no method body. -/
inductive BodyDefect where
  | tooManyLocals (count : Nat)
  | tooManyInstructions (count : Nat)
  | tooManyHandlers (count : Nat)
  /-- a reason found outside this library -/
  | reported (message : String)
  deriving DecidableEq, Repr

/-- What an operation can fail with. -/
inductive Error where
  /-- data is damaged -/
  | malformed (defect : Defect)
  /-- data, a list or a table ends before the asked position -/
  | outOfBounds
  /-- the table has no such row -/
  | invalidRowId (table : TableId) (rid : UInt32)
  /-- the source of a row-backed entity is gone -/
  | nullOwner
  /-- an index leads to no entity -/
  | resolution (token : Token) (obstacle : Obstacle)
  /-- no type is registered under the token -/
  | typeNotFound (token : Token)
  /-- the parts fit into no method body -/
  | malformedBody (defect : BodyDefect)
  deriving DecidableEq, Repr

/-- The largest number of local slots of a method body, one for each number of 16 bits. -/
def maxLocals : Nat := 65536

def Defect.message : Defect → String
  | .invalidTag tag kind value =>
    "Invalid tag " ++ toString tag.toNat ++ " for coded index " ++ kind.name ++ " - 0x"
      ++ Text.Hex.upper 8 value.toNat
  | .rowTooLarge row kind value =>
    "Row " ++ toString row.toNat ++ " of coded index " ++ kind.name
      ++ " exceeds the token row range - 0x" ++ Text.Hex.upper 8 value.toNat
  | .compressedMarker first => "Invalid compressed uint - " ++ toString first.toNat
  | .blobHeap => "Invalid memory for #Blob heap"
  | .noReader id => "No reader for pending element " ++ toString id.toNat
  | .reported _ _ message => message

/-- The message of a defect, after the place that found it if that is known. -/
def Defect.placed (d : Defect) : String :=
  match d with
  | .reported file line message => file ++ ":" ++ toString line.toNat ++ ": " ++ message
  | _ => d.message

def Obstacle.message : Obstacle → String
  | .typeDefTooLarge index => "TypeDef index " ++ toString index.toNat ++ " does not fit into a token"
  | .rowTooLarge table row =>
    table.name ++ " row " ++ toString row.toNat ++ " does not fit into a token"
  | .notTypeTable table => table.name ++ " is not a TypeDefOrRef target"
  | .incomplete => "original value function did not complete"
  | .reported message => message

def BodyDefect.message : BodyDefect → String
  | .tooManyLocals count =>
    toString count ++ " locals exceed the maximum of " ++ toString maxLocals
  | .tooManyInstructions count =>
    toString count ++ " instructions can not be counted in 32 bits"
  | .tooManyHandlers count =>
    toString count ++ " exception handlers can not be counted in 32 bits"
  | .reported message => message

namespace Error

def text : Error → String
  | .malformed defect => "Malformed - " ++ defect.placed
  | .outOfBounds => "Out of Bound read would have occurred!"
  | .invalidRowId table rid => table.name ++ " rid " ++ toString rid.toNat ++ " does not exist"
  | .nullOwner => "Row-backed entity has no owning module"
  | .resolution token obstacle => "Failed to resolve " ++ token.text ++ " - " ++ obstacle.message
  | .typeNotFound token => "Failed to find type in TypeRegistry - " ++ token.text
  | .malformedBody defect => "Malformed method body - " ++ defect.message

/-- The constructor of an error with its fields; a defect is told without its place. -/
def describe : Error → String
  | .malformed defect => "Malformed \x7b message: " ++ Text.quoted defect.message ++ " \x7d"
  | .outOfBounds => "OutOfBounds"
  | .invalidRowId table rid =>
    "InvalidRowId \x7b table: " ++ table.name ++ ", rid: " ++ toString rid.toNat ++ " \x7d"
  | .nullOwner => "NullOwner"
  | .resolution token obstacle =>
    "Resolution \x7b token: " ++ token.describe ++ ", message: " ++ Text.quoted obstacle.message
      ++ " \x7d"
  | .typeNotFound token => "TypeNotFound(" ++ token.describe ++ ")"
  | .malformedBody defect => "MalformedBody(" ++ Text.quoted defect.message ++ ")"

/-- Steps that succeed one after the other succeed each. -/
theorem exists_of_bind_ok {α β : Type} {x : Except Error α} {f : α → Except Error β} {b : β}
    (h : (x >>= f) = .ok b) : ∃ a, x = .ok a ∧ f a = .ok b := by
  cases x with
  | error e => cases h
  | ok a => exact ⟨a, rfl, h⟩

end Error
end CilMetadata

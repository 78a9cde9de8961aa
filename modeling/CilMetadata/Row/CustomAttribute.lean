import CilMetadata.BlobHeap
import CilMetadata.Row

/-!
# Rows of the `CustomAttribute` table

A row attaches an attribute to its parent: a coded index to the parent, a coded index to the
constructor that makes the attribute, and the place of the attribute's value in the blob heap.
-/

namespace CilMetadata

/-- A custom attribute with its value. -/
structure CustomAttribute where
  rid : UInt32
  token : Token
  offset : Nat
  parent : Token
  constructor : Token
  value : List UInt8
  deriving DecidableEq, Repr

/-- A row of the `CustomAttribute` table, with its number and its place in the table's bytes. -/
structure CustomAttributeRow where
  rid : UInt32
  offset : Nat
  parent : CodedIndex
  constructor : CodedIndex
  value : UInt32
  deriving DecidableEq, Repr

def CustomAttribute.describe (a : CustomAttribute) : String :=
  "CustomAttribute \x7b rid: " ++ toString a.rid.toNat ++ ", token: " ++ a.token.describe
    ++ ", offset: " ++ toString a.offset ++ ", parent: " ++ a.parent.describe
    ++ ", constructor: " ++ a.constructor.describe
    ++ ", value: " ++ Text.bracketed (a.value.map fun b => toString b.toNat) ++ " \x7d"

namespace CustomAttributeRow

def token (row : CustomAttributeRow) : Token := Token.ofParts .customAttribute row.rid

/-- The next row: the parent column, the constructor column, then the value column. -/
def read (info : TableInfo) (rid : UInt32) : Bytes.Reader CustomAttributeRow := do
  let offset ← Bytes.Reader.position
  let parent ← CodedIndex.read info .hasCustomAttribute
  let constructor ← CodedIndex.read info .customAttributeType
  let value ← Bytes.Reader.column info.largeBlob
  return ⟨rid, offset, parent, constructor, value⟩

instance : Row CustomAttributeRow where
  table := .customAttribute
  size info :=
    info.codedBytes .hasCustomAttribute + info.codedBytes .customAttributeType + info.blobBytes
  read := read

/-- The attribute of a row.  A value at place 0 is empty, whatever the heap holds. -/
def toAttribute (row : CustomAttributeRow) (heap : BlobHeap) : Except Error CustomAttribute := do
  let value ← if row.value = 0 then pure [] else heap.get row.value.toNat
  return ⟨row.rid, row.token, row.offset, row.parent.token, row.constructor.token, value⟩

end CustomAttributeRow
end CilMetadata

import CilMetadata.Row

/-!
# Rows of the `InterfaceImpl` table

A row says that a class, an index into the type definitions, implements an interface, a coded index
to a type definition, reference or specification.
-/

namespace CilMetadata

/-- A row of the `InterfaceImpl` table, with its number and its place in the table's bytes. -/
structure InterfaceImplRow where
  rid : UInt32
  offset : Nat
  classIndex : UInt32
  interfaceIndex : CodedIndex
  deriving DecidableEq, Repr

namespace InterfaceImplRow

def token (row : InterfaceImplRow) : Token := Token.ofParts .interfaceImpl row.rid

/-- The next row: the class column, then the interface column. -/
def read (info : TableInfo) (rid : UInt32) : Bytes.Reader InterfaceImplRow := do
  let offset ← Bytes.Reader.position
  let classIndex ← Bytes.Reader.column (info.isLarge .typeDef)
  let interfaceIndex ← CodedIndex.read info .typeDefOrRef
  return ⟨rid, offset, classIndex, interfaceIndex⟩

instance : Row InterfaceImplRow where
  table := .interfaceImpl
  size info := info.indexBytes .typeDef + info.codedBytes .typeDefOrRef
  read := read

end InterfaceImplRow
end CilMetadata

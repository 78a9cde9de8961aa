import CilMetadata.TableInfo

/-!
# Table rows

`Row ρ` says of which table `ρ` is a row, how many bytes it takes and how it is read.
-/

namespace CilMetadata

/-- The rows of a metadata table. -/
class Row (ρ : Type) where
  /-- the table of the rows -/
  table : TableId
  /-- the bytes of a row -/
  size : TableInfo → Nat
  /-- the next row, which gets the given number -/
  read : TableInfo → UInt32 → Bytes.Reader ρ

end CilMetadata

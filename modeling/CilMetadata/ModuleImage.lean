import CilMetadata.Source
import CilMetadata.Table
import CilMetadata.TypeRegistry
import CilMetadata.Validation

/-!
# Module images

The tables, the blob heap and the types of one module, held in memory.  An image is a source of
rows: rows are read from the table bytes, indexes lead to the registered types.
-/

namespace CilMetadata

/-- The tables, the blob heap and the types of a module. -/
structure ModuleImage where
  info : TableInfo
  interfaceImpls : Table InterfaceImplRow
  customAttributes : Table CustomAttributeRow
  /-- the parent of every attribute row with the number of the row, in table order -/
  attributeParents : List (Token × UInt32)
  heap : BlobHeap
  types : TypeRegistry
  validation : ValidationMode

namespace ModuleImage

/-- The image of a module with the given bytes.  The heap is checked first, then the length of both
tables, then every attribute row in order. -/
def ofBytes (info : TableInfo) (interfaceImpls customAttributes heap : List UInt8)
    (types : TypeRegistry) : Except Error ModuleImage := do
  let heap ← BlobHeap.ofBytes heap
  let interfaceImpls ← Table.ofBytes info interfaceImpls (info.rows .interfaceImpl)
  let customAttributes : Table CustomAttributeRow ←
    Table.ofBytes info customAttributes (info.rows .customAttribute)
  let rows ← customAttributes.rows.mapM id
  return {
    info, interfaceImpls, customAttributes, heap, types
    attributeParents := rows.map fun row => (row.parent.token, row.rid)
    validation := .standard }

/-- Chooses how much is checked when entities are bound. -/
def withValidation (m : ModuleImage) (mode : ValidationMode) : ModuleImage :=
  { m with validation := mode }

def insertType (m : ModuleImage) (t : CilType) : ModuleImage := { m with types := m.types.insert t }

def rowCount (m : ModuleImage) : TableId → UInt32
  | .interfaceImpl => m.interfaceImpls.rowCount
  | .customAttribute => m.customAttributes.rowCount
  | t => m.info.rows t

def findType (m : ModuleImage) (k : Token) : Except Error (Option CilType) :=
  match m.types.get? k with
  | some t => .ok (some t)
  | none => .error (.typeNotFound k)

/-- The type definition of a row number; none for row 0. -/
def resolveTypeDef (m : ModuleImage) (index : UInt32) : Except Error (Option CilType) :=
  let k := Token.ofParts .typeDef index
  if index = 0 then .ok none
  else if maxRow < index then .error (.resolution k (.typeDefTooLarge index))
  else m.findType k

/-- The type that a coded index points at; none for row 0. -/
def resolveTypeDefOrRef (m : ModuleImage) (index : CodedIndex) : Except Error (Option CilType) :=
  if index.isNull then .ok none
  else if maxRow < index.row then .error (.resolution index.token (.rowTooLarge index.tag index.row))
  else match index.tag with
    | .typeDef | .typeRef | .typeSpec => m.findType index.token
    | t => .error (.resolution index.token (.notTypeTable t))

/-- The rows of the attributes attached to a parent, in table order. -/
def customAttributeRids (m : ModuleImage) (parent : Token) : List UInt32 :=
  m.attributeParents.filterMap fun entry => if entry.1 = parent then some entry.2 else none

def readCustomAttribute (m : ModuleImage) (rid : UInt32) : Except Error CustomAttribute := do
  let row ← m.customAttributes.row rid
  row.toAttribute m.heap

/-- An image answers calls and never changes by them. -/
instance : Source ModuleImage where
  rowCount t m := (m.rowCount t, m)
  readInterfaceImpl rid m := (m.interfaceImpls.row rid, m)
  resolveTypeDef index m := (m.resolveTypeDef index, m)
  resolveTypeDefOrRef index m := (m.resolveTypeDefOrRef index, m)
  customAttributeRids parent m := (.ok (m.customAttributeRids parent), m)
  readCustomAttribute rid m := (m.readCustomAttribute rid, m)

end ModuleImage
end CilMetadata

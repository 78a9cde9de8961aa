import CilMetadata.CilType
import CilMetadata.Row.CustomAttribute
import CilMetadata.Row.InterfaceImpl

/-!
# Sources of rows

What row-backed entities are read from: something that hands out rows and leads indexes to types.
A source has a state, which every call may change, so it may also answer differently each time.
-/

namespace CilMetadata

/-- Something that hands out rows and leads indexes to types. -/
class Source (σ : Type) where
  /-- the number of rows of a table -/
  rowCount : TableId → σ → UInt32 × σ
  /-- a row of the `InterfaceImpl` table -/
  readInterfaceImpl : UInt32 → σ → Except Error InterfaceImplRow × σ
  /-- the type definition of a row number; none for row 0 -/
  resolveTypeDef : UInt32 → σ → Except Error (Option CilType) × σ
  /-- the type that a coded index points at; none for row 0 -/
  resolveTypeDefOrRef : CodedIndex → σ → Except Error (Option CilType) × σ
  /-- the rows of the attributes attached to a parent, in table order -/
  customAttributeRids : Token → σ → Except Error (List UInt32) × σ
  /-- the attribute in a row of the `CustomAttribute` table -/
  readCustomAttribute : UInt32 → σ → Except Error CustomAttribute × σ

namespace Source

variable {σ : Type}

/-- Whether a table has a row of this number.  It is derived from the row count, and no source answers
it in a way of its own.  Row 0 is refused without asking the source. -/
def isValidRid [Source σ] (t : TableId) (rid : UInt32) (s : σ) : Bool × σ :=
  if rid = 0 then (false, s)
  else
    let (count, s') := rowCount t s
    (decide (rid ≤ count), s')

/-- A call into a source. -/
inductive Call where
  | rowCount (t : TableId)
  | readInterfaceImpl (rid : UInt32)
  | resolveTypeDef (index : UInt32)
  | resolveTypeDefOrRef (index : CodedIndex)
  | customAttributeRids (parent : Token)
  | readCustomAttribute (rid : UInt32)
  deriving DecidableEq, Repr

def Call.text : Call → String
  | .rowCount t => "row_count " ++ t.name
  | .readInterfaceImpl rid => "read_interface_impl " ++ toString rid.toNat
  | .resolveTypeDef index => "resolve_type_def " ++ toString index.toNat
  | .resolveTypeDefOrRef index => "resolve_type_def_or_ref " ++ index.token.text
  | .customAttributeRids parent => "custom_attribute_rids " ++ parent.text
  | .readCustomAttribute rid => "read_custom_attribute " ++ toString rid.toNat

/-- What a source answers to a call. -/
inductive Answer where
  | count (n : UInt32)
  | row (r : Except Error InterfaceImplRow)
  | type (r : Except Error (Option CilType))
  | rids (r : Except Error (List UInt32))
  | attr (r : Except Error CustomAttribute)

def call [Source σ] : Call → σ → Answer × σ
  | .rowCount t, s => let (r, s') := rowCount t s; (.count r, s')
  | .readInterfaceImpl rid, s => let (r, s') := readInterfaceImpl rid s; (.row r, s')
  | .resolveTypeDef index, s => let (r, s') := resolveTypeDef index s; (.type r, s')
  | .resolveTypeDefOrRef index, s => let (r, s') := resolveTypeDefOrRef index s; (.type r, s')
  | .customAttributeRids parent, s => let (r, s') := customAttributeRids parent s; (.rids r, s')
  | .readCustomAttribute rid, s => let (r, s') := readCustomAttribute rid s; (.attr r, s')

end Source
end CilMetadata

import CilMetadata.Deferred
import CilMetadata.LazyList
import CilMetadata.Source
import CilMetadata.Validation

/-!
# Row-backed interface implementations

An interface implementation that is bound to a row of the `InterfaceImpl` table.  Its fields are
deferred: the raw row is fetched from the owner when the first of them is read, and each field is
resolved on its own.  The owner may go away at any time; what was not resolved by then never is.

The owner is passed into every operation as `Option σ`: the state of the source, or `none` once it
is gone.
-/

namespace CilMetadata

variable {σ α : Type}

/-- Asks the owner, if it is still there. -/
def askOwner (ask : σ → Except Error α × σ) : Option σ → Except Error α × Option σ
  | none => (.error .nullOwner, none)
  | some s =>
    let (r, s') := ask s
    (r, some s')

/-- The custom attributes of an entity, read one by one from its owner. -/
abbrev AttributeList (σ : Type) := LazyList (Option σ) CustomAttribute

/-- What the fields of a row are resolved from: the raw row, once it is fetched, and the owner. -/
structure RowContext (σ : Type) where
  row : Option InterfaceImplRow
  owner : Option σ

namespace RowContext

variable [Source σ]

/-- The raw row, fetched from the owner unless it is here.  Only a row that was read stays. -/
def fetch (rid : UInt32) (c : RowContext σ) : Except Error InterfaceImplRow × RowContext σ :=
  match c.row with
  | some row => (.ok row, c)
  | none =>
    match askOwner (Source.readInterfaceImpl rid) c.owner with
    | (.ok row, owner) => (.ok row, ⟨some row, owner⟩)
    | (.error e, owner) => (.error e, ⟨none, owner⟩)

/-- Fetches the raw row, then asks the owner for what a column of it leads to. -/
def resolve (rid : UInt32) (ask : InterfaceImplRow → σ → Except Error α × σ) (c : RowContext σ) :
    Outcome α × RowContext σ :=
  match c.fetch rid with
  | (.error e, c') => (.error e, c')
  | (.ok row, c') =>
    let (r, owner) := askOwner (ask row) c'.owner
    (.ofExcept r, { c' with owner })

end RowContext

/-- An interface implementation that is bound to a row. -/
structure RowBacked (σ : Type) where
  rid : UInt32
  /-- the raw row, once it was fetched -/
  row : Option InterfaceImplRow
  classCell : Deferred (RowContext σ) (Option CilType)
  interfaceCell : Deferred (RowContext σ) (Option CilType)
  attributesCell : Deferred (Option σ) (AttributeList σ)

namespace RowBacked

def tokenOf (rid : UInt32) : Token := Token.ofParts .interfaceImpl rid

section Reading

variable [Source σ]

/-- The list of the attributes attached to a row, none of them read yet. -/
def attributesOf (rid : UInt32) (owner : Option σ) : Outcome (AttributeList σ) × Option σ :=
  let (r, owner') := askOwner (Source.customAttributeRids (tokenOf rid)) owner
  (.ofExcept (r.map fun rids => .ofIds rids fun id => askOwner (Source.readCustomAttribute id)),
    owner')

/-- The entity of a row, with nothing read. -/
def unread (rid : UInt32) : RowBacked σ where
  rid
  row := none
  classCell := .unresolved (RowContext.resolve rid fun row => Source.resolveTypeDef row.classIndex)
  interfaceCell :=
    .unresolved (RowContext.resolve rid fun row => Source.resolveTypeDefOrRef row.interfaceIndex)
  attributesCell := .unresolved (attributesOf rid)

/-- Binds a row of an owner, which has to be there.  The row is only checked to exist, if that. -/
def bind (build : Build) (mode : ValidationMode) (rid : UInt32) (owner : Option σ) :
    Except Error (RowBacked σ) × Option σ :=
  match owner with
  | none => (.error .nullOwner, none)
  | some s =>
    if mode.checksRowIds build then
      match Source.isValidRid .interfaceImpl rid s with
      | (true, s') => (.ok (unread rid), some s')
      | (false, s') => (.error (.invalidRowId .interfaceImpl rid), some s')
    else (.ok (unread rid), some s)

end Reading

def classType (e : RowBacked σ) (owner : Option σ) :
    Outcome (Option CilType) × RowBacked σ × Option σ :=
  let (o, cell, c) := e.classCell.read ⟨e.row, owner⟩
  (o, { e with row := c.row, classCell := cell }, c.owner)

def interfaceType (e : RowBacked σ) (owner : Option σ) :
    Outcome (Option CilType) × RowBacked σ × Option σ :=
  let (o, cell, c) := e.interfaceCell.read ⟨e.row, owner⟩
  (o, { e with row := c.row, interfaceCell := cell }, c.owner)

def setClassType (t : Option CilType) (e : RowBacked σ) : RowBacked σ :=
  { e with classCell := e.classCell.write t }

def setInterfaceType (t : Option CilType) (e : RowBacked σ) : RowBacked σ :=
  { e with interfaceCell := e.interfaceCell.write t }

/-- Works on the list of custom attributes, which counts as written from then on. -/
def editAttributes (change : AttributeList σ → Option σ → α × AttributeList σ × Option σ)
    (e : RowBacked σ) (owner : Option σ) : Outcome α × RowBacked σ × Option σ :=
  let (o, cell, owner') := e.attributesCell.edit change owner
  (o, { e with attributesCell := cell }, owner')

def isRowLoaded (e : RowBacked σ) : Bool := e.row.isSome

def describe (e : RowBacked σ) : String :=
  "RowBackedInterfaceImpl \x7b rid: " ++ toString e.rid.toNat
    ++ ", class: " ++ e.classCell.describe CilType.describe?
    ++ ", interface: " ++ e.interfaceCell.describe CilType.describe?
    ++ ", custom_attributes: " ++ e.attributesCell.state.name ++ " \x7d"

end RowBacked
end CilMetadata

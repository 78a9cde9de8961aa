import CilMetadata.ModuleImage
import CilMetadata.Session

/-!
# Sessions in front of a module image

A module image can be asked for more than any source: it binds its own rows, all at once if wanted,
and its types can be looked at and added to.
-/

namespace CilMetadata

namespace ModuleImage

/-- The entities of some rows, or the first refusal. -/
def entitiesOf (m : ModuleImage) (build : Build) :
    List UInt32 → Except Error (List (InterfaceImpl ModuleImage))
  | [] => .ok []
  | rid :: rids => do
    let e ← (InterfaceImpl.ofRow build m.validation rid (some m)).1
    let es ← m.entitiesOf build rids
    return e :: es

/-- The entities of all rows of the `InterfaceImpl` table, in order. -/
def allEntities (m : ModuleImage) (build : Build) :
    Except Error (List (InterfaceImpl ModuleImage)) :=
  m.entitiesOf build (Table.rowNumbers m.interfaceImpls.rowCount)

end ModuleImage

namespace Session

inductive ImageOp where
  /-- make the entity of a row -/
  | bind (rid : UInt32)
  /-- make the entities of all rows -/
  | bindAll
  /-- tell the sizes of the tables and of heap indexes -/
  | sizes
  | insertType (t : CilType)
  | findType (k : Token)
  | types

inductive ImageAnswer where
  | made (r : Except Error Nat)
  /-- the number of the first entity and how many were made -/
  | madeAll (r : Except Error (Nat × Nat))
  | sizes (interfaceImpls customAttributes : UInt32) (blobBytes : Nat)
  | registered (size : Nat)
  | type? (t : Option CilType)
  | types (ts : List CilType)
  /-- the image was dropped -/
  | noSource

def imageStep (build : Build) (op : ImageOp) (s : Session ModuleImage) :
    ImageAnswer × Session ModuleImage :=
  match s.owner with
  | none => (.noSource, s)
  | some m =>
    match op with
    | .bind rid =>
      let (r, s') := s.addRow build m.validation rid
      (.made r, s')
    | .bindAll =>
      match m.allEntities build with
      | .ok es =>
        (.madeAll (.ok (s.entities.length, es.length)), { s with entities := s.entities ++ es })
      | .error e => (.madeAll (.error e), s)
    | .sizes =>
      (.sizes (m.info.rows .interfaceImpl) (m.info.rows .customAttribute) m.info.blobBytes, s)
    | .insertType t =>
      let m' := m.insertType t
      (.registered m'.types.size, { s with owner := some m' })
    | .findType k => (.type? (m.types.get? k), s)
    | .types => (.types m.types.types, s)

end Session
end CilMetadata

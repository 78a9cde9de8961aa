import CilMetadata.Source

/-!
# Scripted sources

A source that answers from prepared lists, to try entities out without the bytes of a module.  What
a list does not mention is answered as a module without that row or type would answer it.
-/

namespace CilMetadata.Source

/-- The columns of a prepared row of the `InterfaceImpl` table. -/
structure ScriptedRow where
  classIndex : UInt32
  interfaceIndex : CodedIndex

/-- Prepared answers by key. -/
abbrev Script (κ α : Type) := List (κ × Except Error α)

structure Scripted where
  rowCounts : List (TableId × UInt32)
  rows : Script UInt32 ScriptedRow
  typeDefs : Script UInt32 (Option CilType)
  types : Script Token (Option CilType)
  rids : Script Token (List UInt32)
  attributes : Script UInt32 CustomAttribute
  /-- whether each type that is handed out gets a number of its own -/
  numbered : Bool
  /-- the types handed out so far -/
  handedOut : Nat

namespace Scripted

def answer {κ α : Type} [DecidableEq κ] (script : Script κ α) (key : κ) (other : Except Error α) :
    Except Error α :=
  (script.lookup key).getD other

/-- Hands out a type, with its number after the name if types are numbered. -/
def handOut (r : Except Error (Option CilType)) (s : Scripted) :
    Except Error (Option CilType) × Scripted :=
  match r with
  | .ok (some t) =>
    let n := s.handedOut + 1
    let t' := if s.numbered then { t with name := t.name ++ "#" ++ toString n } else t
    (.ok (some t'), { s with handedOut := n })
  | other => (other, s)

instance : Source Scripted where
  rowCount t s := ((s.rowCounts.lookup t).getD 0, s)
  readInterfaceImpl rid s :=
    let r := answer s.rows rid (.error (.invalidRowId .interfaceImpl rid))
    (r.map fun row => ⟨rid, 0, row.classIndex, row.interfaceIndex⟩, s)
  resolveTypeDef index s :=
    s.handOut (answer s.typeDefs index (.error (.typeNotFound (Token.ofParts .typeDef index))))
  resolveTypeDefOrRef index s :=
    s.handOut (answer s.types index.token (.error (.typeNotFound index.token)))
  customAttributeRids parent s := (answer s.rids parent (.ok []), s)
  readCustomAttribute rid s :=
    (answer s.attributes rid (.error (.invalidRowId .customAttribute rid)), s)

end Scripted
end CilMetadata.Source

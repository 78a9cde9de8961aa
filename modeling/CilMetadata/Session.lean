import CilMetadata.InterfaceImpl

/-!
# Sessions

A source and the entities made in front of it.  Entities are numbered in the order they were made;
the source may be dropped while they live on.
-/

namespace CilMetadata

variable {σ : Type}

/-- A source, unless it was dropped, and the entities made so far. -/
structure Session (σ : Type) where
  owner : Option σ
  entities : List (InterfaceImpl σ)

namespace Session

def start (owner : Option σ) : Session σ := ⟨owner, []⟩

def add (s : Session σ) (e : InterfaceImpl σ) : Nat × Session σ :=
  (s.entities.length, { s with entities := s.entities ++ [e] })

def addRow [Source σ] (s : Session σ) (build : Build) (mode : ValidationMode) (rid : UInt32) :
    Except Error Nat × Session σ :=
  match InterfaceImpl.ofRow build mode rid s.owner with
  | (.ok e, owner) =>
    let (n, s') := add { s with owner } e
    (.ok n, s')
  | (.error e, owner) => (.error e, { s with owner })

def dropSource (s : Session σ) : Session σ := { s with owner := none }

inductive Op where
  /-- make an authored entity of which nothing is set -/
  | author
  /-- make an authored entity that links a class to an interface -/
  | link (classType interfaceType : CilType)
  /-- make the entity of a row -/
  | fromRow (rid : UInt32) (mode : ValidationMode)
  | dropSource
  | isValidRid (t : TableId) (rid : UInt32)
  /-- make a call into the source -/
  | call (c : Source.Call)
  /-- ask an entity -/
  | entity (n : Nat) (op : InterfaceImpl.Op)

inductive Answer where
  | done
  | made (r : Except Error Nat)
  | valid (b : Bool)
  | source (a : Source.Answer)
  | entity (a : InterfaceImpl.Answer)
  /-- there is no source -/
  | noSource
  /-- there is no entity of this number -/
  | noEntity

def step [Source σ] (build : Build) : Op → Session σ → Answer × Session σ
  | .author, s =>
    let (n, s') := s.add .blank
    (.made (.ok n), s')
  | .link c i, s =>
    let (n, s') := s.add (.ofTypes c i)
    (.made (.ok n), s')
  | .fromRow rid mode, s =>
    let (r, s') := s.addRow build mode rid
    (.made r, s')
  | .dropSource, s => (.done, s.dropSource)
  | .isValidRid t rid, s =>
    match s.owner with
    | none => (.noSource, s)
    | some source =>
      let (b, source') := Source.isValidRid t rid source
      (.valid b, { s with owner := some source' })
  | .call c, s =>
    match s.owner with
    | none => (.noSource, s)
    | some source =>
      let (a, source') := Source.call c source
      (.source a, { s with owner := some source' })
  | .entity n op, s =>
    match s.entities[n]? with
    | none => (.noEntity, s)
    | some e =>
      let (a, e', owner) := InterfaceImpl.step op (e, s.owner)
      (.entity a, ⟨owner, s.entities.set n e'⟩)

end Session
end CilMetadata

import CilMetadata.InterfaceImpl.RowBacked

/-!
# Interface implementations

That a class implements an interface, with the custom attributes attached to it.  An entity is
authored by the user, with plain fields, or bound to a row of a table; callers need not know which.
-/

namespace CilMetadata

variable {σ α : Type}

/-- An interface implementation made by the user. -/
structure Authored (σ : Type) where
  rid : UInt32
  classType : Option CilType
  interfaceType : Option CilType
  attributes : AttributeList σ

/-- An interface implementation. -/
inductive InterfaceImpl (σ : Type) where
  | authored (a : Authored σ)
  | rowBacked (r : RowBacked σ)

def Authored.blank : Authored σ := ⟨0, none, none, .empty⟩

def Authored.describe (a : Authored σ) : String :=
  "UserInterfaceImpl \x7b rid: " ++ toString a.rid.toNat
    ++ ", class: " ++ CilType.describe? a.classType
    ++ ", interface: " ++ CilType.describe? a.interfaceType
    ++ ", custom_attributes: " ++ a.attributes.describe CustomAttribute.describe ++ " \x7d"

namespace InterfaceImpl

/-- The tag of interface implementations among the parents of custom attributes. -/
def attributeTag : UInt32 := 5

def blank : InterfaceImpl σ := .authored .blank

/-- An authored entity that links a class to an interface. -/
def ofTypes (classType interfaceType : CilType) : InterfaceImpl σ :=
  .authored { Authored.blank with classType := some classType, interfaceType := some interfaceType }

/-- The entity of a row of an owner. -/
def ofRow [Source σ] (build : Build) (mode : ValidationMode) (rid : UInt32) (owner : Option σ) :
    Except Error (InterfaceImpl σ) × Option σ :=
  let (r, owner') := RowBacked.bind build mode rid owner
  (r.map .rowBacked, owner')

def isRowBacked : InterfaceImpl σ → Bool
  | .authored _ => false
  | .rowBacked _ => true

def rid : InterfaceImpl σ → UInt32
  | .authored a => a.rid
  | .rowBacked r => r.rid

/-- The token of an entity. -/
def token (e : InterfaceImpl σ) : Token := Token.ofParts .interfaceImpl e.rid

/-- The stored value by which attribute rows point at an entity: its row number above the tag.  A row
number that does not fit into a token has none. -/
def attributeIndex? (e : InterfaceImpl σ) : Option UInt32 :=
  if maxRow < e.rid then none
  else some (e.rid <<< UInt32.ofNat CodedIndex.Kind.hasCustomAttribute.tagBits ||| attributeTag)

/-- Changes the row number of an authored entity; answers whether it was changed. -/
def setRid (rid : UInt32) : InterfaceImpl σ → Bool × InterfaceImpl σ
  | .authored a => (true, .authored { a with rid })
  | .rowBacked r => (false, .rowBacked r)

/-- The class that implements the interface. -/
def classType (e : InterfaceImpl σ) (owner : Option σ) :
    Outcome (Option CilType) × InterfaceImpl σ × Option σ :=
  match e with
  | .authored a => (.value a.classType, .authored a, owner)
  | .rowBacked r =>
    let (o, r', owner') := r.classType owner
    (o, .rowBacked r', owner')

/-- The interface that is implemented. -/
def interfaceType (e : InterfaceImpl σ) (owner : Option σ) :
    Outcome (Option CilType) × InterfaceImpl σ × Option σ :=
  match e with
  | .authored a => (.value a.interfaceType, .authored a, owner)
  | .rowBacked r =>
    let (o, r', owner') := r.interfaceType owner
    (o, .rowBacked r', owner')

def setClassType (t : Option CilType) : InterfaceImpl σ → InterfaceImpl σ
  | .authored a => .authored { a with classType := t }
  | .rowBacked r => .rowBacked (r.setClassType t)

def setInterfaceType (t : Option CilType) : InterfaceImpl σ → InterfaceImpl σ
  | .authored a => .authored { a with interfaceType := t }
  | .rowBacked r => .rowBacked (r.setInterfaceType t)

/-- Works on the list of custom attributes. -/
def editAttributes (change : AttributeList σ → Option σ → α × AttributeList σ × Option σ)
    (e : InterfaceImpl σ) (owner : Option σ) : Outcome α × InterfaceImpl σ × Option σ :=
  match e with
  | .authored a =>
    let (answer, attributes, owner') := change a.attributes owner
    (.value answer, .authored { a with attributes }, owner')
  | .rowBacked r =>
    let (o, r', owner') := r.editAttributes change owner
    (o, .rowBacked r', owner')

/-- The list of custom attributes, if it is there already. -/
def attributes? : InterfaceImpl σ → Option (AttributeList σ)
  | .authored a => some a.attributes
  | .rowBacked r => r.attributesCell.peek

def classState? : InterfaceImpl σ → Option Deferred.State
  | .authored _ => none
  | .rowBacked r => some r.classCell.state

def interfaceState? : InterfaceImpl σ → Option Deferred.State
  | .authored _ => none
  | .rowBacked r => some r.interfaceCell.state

/-- Whether the raw row of a row-backed entity was fetched. -/
def isRowLoaded? : InterfaceImpl σ → Option Bool
  | .authored _ => none
  | .rowBacked r => some r.isRowLoaded

def describe : InterfaceImpl σ → String
  | .authored a => "User(" ++ a.describe ++ ")"
  | .rowBacked r => "RowBacked(" ++ r.describe ++ ")"

/-! ### Requests -/

inductive Op where
  | rid | token | attributeIndex | describe
  | classState | interfaceState | isRowLoaded
  | setRid (rid : UInt32)
  | classType | interfaceType
  | setClassType (t : Option CilType) | setInterfaceType (t : Option CilType)
  /-- a request to the list of custom attributes -/
  | attributes (op : LazyList.Op CustomAttribute)

inductive Answer where
  | done
  | rid (rid : UInt32)
  | token (k : Token)
  | index (v : Option UInt32)
  | text (t : String)
  | state (s : Option Deferred.State)
  | rowLoaded (b : Option Bool)
  | changed (b : Bool)
  | type (o : Outcome (Option CilType))
  | attributes (o : Outcome (Except Error (LazyList.Answer CustomAttribute)))

def step : Op → InterfaceImpl σ × Option σ → Answer × InterfaceImpl σ × Option σ
  | .rid, (e, owner) => (.rid e.rid, e, owner)
  | .token, (e, owner) => (.token e.token, e, owner)
  | .attributeIndex, (e, owner) => (.index e.attributeIndex?, e, owner)
  | .describe, (e, owner) => (.text e.describe, e, owner)
  | .classState, (e, owner) => (.state e.classState?, e, owner)
  | .interfaceState, (e, owner) => (.state e.interfaceState?, e, owner)
  | .isRowLoaded, (e, owner) => (.rowLoaded e.isRowLoaded?, e, owner)
  | .setRid rid, (e, owner) =>
    let (b, e') := e.setRid rid
    (.changed b, e', owner)
  | .classType, (e, owner) =>
    let (o, e', owner') := e.classType owner
    (.type o, e', owner')
  | .interfaceType, (e, owner) =>
    let (o, e', owner') := e.interfaceType owner
    (.type o, e', owner')
  | .setClassType t, (e, owner) => (.done, e.setClassType t, owner)
  | .setInterfaceType t, (e, owner) => (.done, e.setInterfaceType t, owner)
  | .attributes op, (e, owner) =>
    let (o, e', owner') := e.editAttributes (fun l owner => LazyList.step op (l, owner)) owner
    (.attributes o, e', owner')

/-! ### Laws -/

/-- The tag of interface implementations is their place in the list of parents. -/
theorem tagOf?_interfaceImpl :
    CodedIndex.Kind.hasCustomAttribute.tagOf? .interfaceImpl = some attributeTag.toNat := rfl

/-- A row number that fits keeps all its bits above the tag. -/
theorem toNat_shiftLeft_or_attributeTag {rid : UInt32} (h : rid ≤ maxRow) :
    (rid <<< UInt32.ofNat CodedIndex.Kind.hasCustomAttribute.tagBits ||| attributeTag).toNat =
      rid.toNat <<< CodedIndex.Kind.hasCustomAttribute.tagBits ||| attributeTag.toNat := by
  have hrid : rid.toNat ≤ 0xFFFFFF := UInt32.le_iff_toNat_le.mp h
  have hbits : (UInt32.ofNat CodedIndex.Kind.hasCustomAttribute.tagBits).toNat % 32 = 5 := rfl
  have hfive : CodedIndex.Kind.hasCustomAttribute.tagBits = 5 := rfl
  rw [UInt32.toNat_or, UInt32.toNat_shiftLeft, hbits, hfive, Nat.shiftLeft_eq, Nat.mod_eq_of_lt]
  omega

theorem attributeIndex?_eq_encode? (e : InterfaceImpl σ) :
    e.attributeIndex? = CodedIndex.encode? .hasCustomAttribute ⟨.interfaceImpl, e.rid⟩ := by
  unfold attributeIndex? CodedIndex.encode?
  by_cases h : maxRow < e.rid
  · rw [if_pos h, if_pos h]
  · have hstored := CodedIndex.toNat_value h (CodedIndex.tagOf?_lt tagOf?_interfaceImpl)
    rw [if_neg h, if_neg h, tagOf?_interfaceImpl, Option.map_some, Option.some.injEq,
      ← UInt32.toNat_inj, toNat_shiftLeft_or_attributeTag (UInt32.not_lt.mp h), hstored,
      ← Nat.shiftLeft_add_eq_or_of_lt (by decide), Nat.shiftLeft_eq, CodedIndex.Kind.toNat_tagCount]

end InterfaceImpl
end CilMetadata

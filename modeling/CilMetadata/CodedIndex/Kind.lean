import CilMetadata.TableId

/-!
# Kinds of coded indexes

A coded index points into one of several tables.  Its kind lists the candidates; the position of a
candidate in that list is its tag, which takes the lowest bits of the stored value.

* `target?_eq_some_iff`: a tag and a table determine each other.
-/

namespace CilMetadata

-- the powers of the core library, also where another instance is in scope
attribute [local instance (2000)] instPowNat

/-- What a coded index may point at. -/
inductive CodedIndex.Kind where
  | typeDefOrRef | hasCustomAttribute | customAttributeType
  deriving DecidableEq, Repr

namespace CodedIndex.Kind

def all : List Kind := [.typeDefOrRef, .hasCustomAttribute, .customAttributeType]

def ordinal (k : Kind) : Nat := k.ctorIdx

def name : Kind → String
  | .typeDefOrRef => "TypeDefOrRef"
  | .hasCustomAttribute => "HasCustomAttribute"
  | .customAttributeType => "CustomAttributeType"

/-- The tables of a kind by tag; a reserved tag has none. -/
def targets : Kind → List (Option TableId)
  | .typeDefOrRef => [some .typeDef, some .typeRef, some .typeSpec]
  | .hasCustomAttribute =>
    [some .methodDef, some .field, some .typeRef, some .typeDef, some .param, some .interfaceImpl,
      some .memberRef, some .module, some .declSecurity, some .property, some .event,
      some .standAloneSig, some .moduleRef, some .typeSpec, some .assembly, some .assemblyRef,
      some .file, some .exportedType, some .manifestResource, some .genericParam,
      some .genericParamConstraint, some .methodSpec]
  | .customAttributeType => [none, none, some .methodDef, some .memberRef, none]

/-- The bits that the tag takes: enough to number all targets. -/
def tagBits (k : Kind) : Nat := (k.targets.length - 1).log2 + 1

/-- The number of tags that fit into the tag bits. -/
def tagCount (k : Kind) : UInt32 := UInt32.ofNat (2 ^ k.tagBits)

/-- The table of a tag, if the tag is assigned. -/
def target? (k : Kind) (tag : Nat) : Option TableId := (k.targets[tag]?).join

/-- The tag of a table, if the kind can point at it. -/
def tagOf? (k : Kind) (t : TableId) : Option Nat := k.targets.idxOf? (some t)

/-! ### Laws -/

theorem targets_length_le (k : Kind) : k.targets.length ≤ 2 ^ k.tagBits := by
  cases k <;> decide

theorem toNat_tagCount (k : Kind) : k.tagCount.toNat = 2 ^ k.tagBits := by
  cases k <;> decide

theorem target?_lt {k : Kind} {tag : Nat} {t : TableId} (h : k.target? tag = some t) :
    tag < k.targets.length :=
  (List.getElem?_eq_some_iff.mp (Option.join_eq_some_iff.mp h)).1

/-- **Tags.**  A table stands under its own tag and under no other. -/
theorem target?_eq_some_iff {k : Kind} {tag : Nat} {t : TableId} :
    k.target? tag = some t ↔ k.tagOf? t = some tag := by
  constructor
  · intro h
    have hlt := target?_lt h
    have key : ∀ n : Fin k.targets.length, ∀ u, k.target? n = some u → k.tagOf? u = some n.val := by
      cases k <;> decide
    exact key ⟨tag, hlt⟩ t h
  · intro h
    have key : (k.tagOf? t).all (fun n => k.target? n = some t) = true := by
      cases k <;> cases t <;> rfl
    rw [h] at key
    exact of_decide_eq_true key

end CodedIndex.Kind
end CilMetadata

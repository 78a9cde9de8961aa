/-!
# Metadata tables

`TableId` names the tables a module can have.  The tables are numbered `0x00` to `0x2C` without a
gap, in the order of the constructors; the number is the table byte of a token.

* `ofNumber?_eq_some_iff`: a table is found under its own number and under no other.
-/

namespace CilMetadata

/-- A metadata table, listed in the order of the table numbers. -/
inductive TableId where
  | module | typeRef | typeDef | fieldPtr | field | methodPtr | methodDef | paramPtr | param
  | interfaceImpl | memberRef | constant | customAttribute | fieldMarshal | declSecurity
  | classLayout | fieldLayout | standAloneSig | eventMap | eventPtr | event | propertyMap
  | propertyPtr | property | methodSemantics | methodImpl | moduleRef | typeSpec | implMap
  | fieldRva | encLog | encMap | assembly | assemblyProcessor | assemblyOs | assemblyRef
  | assemblyRefProcessor | assemblyRefOs | file | exportedType | manifestResource | nestedClass
  | genericParam | methodSpec | genericParamConstraint
  deriving DecidableEq, Repr

namespace TableId

/-- The number of a table: its position among the constructors. -/
def number (t : TableId) : Nat := t.ctorIdx

def all : List TableId :=
  [.module, .typeRef, .typeDef, .fieldPtr, .field, .methodPtr, .methodDef, .paramPtr, .param,
   .interfaceImpl, .memberRef, .constant, .customAttribute, .fieldMarshal, .declSecurity,
   .classLayout, .fieldLayout, .standAloneSig, .eventMap, .eventPtr, .event, .propertyMap,
   .propertyPtr, .property, .methodSemantics, .methodImpl, .moduleRef, .typeSpec, .implMap,
   .fieldRva, .encLog, .encMap, .assembly, .assemblyProcessor, .assemblyOs, .assemblyRef,
   .assemblyRefProcessor, .assemblyRefOs, .file, .exportedType, .manifestResource, .nestedClass,
   .genericParam, .methodSpec, .genericParamConstraint]

/-- The table of a number, if the number is assigned. -/
def ofNumber? (n : Nat) : Option TableId := all[n]?

def name : TableId → String
  | .module => "Module"
  | .typeRef => "TypeRef"
  | .typeDef => "TypeDef"
  | .fieldPtr => "FieldPtr"
  | .field => "Field"
  | .methodPtr => "MethodPtr"
  | .methodDef => "MethodDef"
  | .paramPtr => "ParamPtr"
  | .param => "Param"
  | .interfaceImpl => "InterfaceImpl"
  | .memberRef => "MemberRef"
  | .constant => "Constant"
  | .customAttribute => "CustomAttribute"
  | .fieldMarshal => "FieldMarshal"
  | .declSecurity => "DeclSecurity"
  | .classLayout => "ClassLayout"
  | .fieldLayout => "FieldLayout"
  | .standAloneSig => "StandAloneSig"
  | .eventMap => "EventMap"
  | .eventPtr => "EventPtr"
  | .event => "Event"
  | .propertyMap => "PropertyMap"
  | .propertyPtr => "PropertyPtr"
  | .property => "Property"
  | .methodSemantics => "MethodSemantics"
  | .methodImpl => "MethodImpl"
  | .moduleRef => "ModuleRef"
  | .typeSpec => "TypeSpec"
  | .implMap => "ImplMap"
  | .fieldRva => "FieldRVA"
  | .encLog => "EncLog"
  | .encMap => "EncMap"
  | .assembly => "Assembly"
  | .assemblyProcessor => "AssemblyProcessor"
  | .assemblyOs => "AssemblyOS"
  | .assemblyRef => "AssemblyRef"
  | .assemblyRefProcessor => "AssemblyRefProcessor"
  | .assemblyRefOs => "AssemblyRefOS"
  | .file => "File"
  | .exportedType => "ExportedType"
  | .manifestResource => "ManifestResource"
  | .nestedClass => "NestedClass"
  | .genericParam => "GenericParam"
  | .methodSpec => "MethodSpec"
  | .genericParamConstraint => "GenericParamConstraint"

theorem number_lt (t : TableId) : t.number < 45 := by
  cases t <;> decide

@[simp] theorem ofNumber?_number (t : TableId) : ofNumber? t.number = some t := by
  cases t <;> rfl

theorem number_injective {s t : TableId} (h : s.number = t.number) : s = t := by
  have hs := ofNumber?_number s
  rw [h, ofNumber?_number] at hs
  exact (Option.some.inj hs).symm

theorem number_of_ofNumber? {n : Nat} {t : TableId} (h : ofNumber? n = some t) : t.number = n := by
  have hn : n < 45 := (List.getElem?_eq_some_iff.mp h).1
  have key : ∀ m < 45, ∀ u, ofNumber? m = some u → u.number = m := by decide
  exact key n hn t h

/-- **Numbering.**  A table is found under its own number and under no other. -/
theorem ofNumber?_eq_some_iff {n : Nat} {t : TableId} : ofNumber? n = some t ↔ t.number = n :=
  ⟨number_of_ofNumber?, fun h => h ▸ ofNumber?_number t⟩

end TableId
end CilMetadata

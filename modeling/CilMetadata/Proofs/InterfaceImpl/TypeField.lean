import CilMetadata.InterfaceImpl

/-!
# The fields of an entity that lead to types

The class and the interface of an entity are read and written in the same way.  What holds of both is
said once, for a field: where its cell is, what its column asks the source for, and what a request
to it changes.

* `step_readOp`, `step_writeOp`: reads and writes of a row-backed entity.
-/

namespace CilMetadata

/-- The fields of an entity that lead to types. -/
inductive TypeField where
  | classType | interfaceType
  deriving DecidableEq

namespace TypeField

variable {σ : Type}

/-- How the column of a field asks a source for its type. -/
def ask [Source σ] : TypeField → InterfaceImplRow → σ → Except Error (Option CilType) × σ
  | .classType, row => Source.resolveTypeDef row.classIndex
  | .interfaceType, row => Source.resolveTypeDefOrRef row.interfaceIndex

/-- How a field of a row is found. -/
def find [Source σ] (f : TypeField) (rid : UInt32) :
    RowContext σ → Outcome (Option CilType) × RowContext σ :=
  RowContext.resolve rid f.ask

/-- The cell of a field. -/
def cell : TypeField → RowBacked σ → Deferred (RowContext σ) (Option CilType)
  | .classType, r => r.classCell
  | .interfaceType, r => r.interfaceCell

/-- Changes the cell of a field, and the raw row. -/
def put (row : Option InterfaceImplRow) (c : Deferred (RowContext σ) (Option CilType)) :
    TypeField → RowBacked σ → RowBacked σ
  | .classType, r => { r with row, classCell := c }
  | .interfaceType, r => { r with row, interfaceCell := c }

def get : TypeField → Authored σ → Option CilType
  | .classType, a => a.classType
  | .interfaceType, a => a.interfaceType

def set (t : Option CilType) : TypeField → Authored σ → Authored σ
  | .classType, a => { a with classType := t }
  | .interfaceType, a => { a with interfaceType := t }

def readOp : TypeField → InterfaceImpl.Op
  | .classType => .classType
  | .interfaceType => .interfaceType

def writeOp (t : Option CilType) : TypeField → InterfaceImpl.Op
  | .classType => .setClassType t
  | .interfaceType => .setInterfaceType t

theorem cell_unread [Source σ] (f : TypeField) (rid : UInt32) :
    f.cell (RowBacked.unread rid : RowBacked σ) = .unresolved (f.find rid) := by
  cases f <;> rfl

/-! ### Cells that were put -/

variable (f g : TypeField) (row : Option InterfaceImplRow)
  (c : Deferred (RowContext σ) (Option CilType)) (r : RowBacked σ)

@[simp] theorem rid_put : (f.put row c r).rid = r.rid := by
  cases f <;> rfl

@[simp] theorem row_put : (f.put row c r).row = row := by
  cases f <;> rfl

@[simp] theorem attributesCell_put : (f.put row c r).attributesCell = r.attributesCell := by
  cases f <;> rfl

theorem cell_attributesCell (l : Deferred (Option σ) (AttributeList σ)) :
    f.cell { r with attributesCell := l } = f.cell r := by
  cases f <;> rfl

theorem cell_put : g.cell (f.put row c r) = if g = f then c else g.cell r := by
  cases f <;> cases g <;> rfl

@[simp] theorem rid_set (t : Option CilType) (a : Authored σ) : (f.set t a).rid = a.rid := by
  cases f <;> rfl

@[simp] theorem attributes_set (t : Option CilType) (a : Authored σ) :
    (f.set t a).attributes = a.attributes := by
  cases f <;> rfl

theorem get_attributes (a : Authored σ) (l : AttributeList σ) :
    f.get { a with attributes := l } = f.get a := by
  cases f <;> rfl

theorem get_set (t : Option CilType) (a : Authored σ) :
    g.get (f.set t a) = if g = f then t else g.get a := by
  cases f <;> cases g <;> rfl

@[simp] theorem set_get (a : Authored σ) : f.set (f.get a) a = a := by
  cases f <;> rfl

/-! ### Requests -/

theorem step_readOp (owner : Option σ) :
    InterfaceImpl.step f.readOp (.rowBacked r, owner) =
      (.type ((f.cell r).read ⟨r.row, owner⟩).1,
        .rowBacked (f.put ((f.cell r).read ⟨r.row, owner⟩).2.2.row ((f.cell r).read ⟨r.row, owner⟩).2.1 r),
        ((f.cell r).read ⟨r.row, owner⟩).2.2.owner) := by
  cases f <;> rfl

theorem step_writeOp (t : Option CilType) (owner : Option σ) :
    InterfaceImpl.step (f.writeOp t) (.rowBacked r, owner) =
      (.done, .rowBacked (f.put r.row ((f.cell r).write t) r), owner) := by
  cases f <;> rfl

theorem step_readOp_authored (a : Authored σ) (owner : Option σ) :
    InterfaceImpl.step f.readOp (.authored a, owner) = (.type (.value (f.get a)), .authored a, owner) := by
  cases f <;> rfl

end TypeField

namespace InterfaceImpl

variable {σ : Type}

/-- **Requests.**  A request reads or writes a field, or works on the attributes, or leaves every
row-backed entity as it is. -/
@[elab_as_elim] theorem Op.byField {motive : Op → Prop} (read : ∀ f : TypeField, motive f.readOp)
    (write : ∀ (f : TypeField) t, motive (f.writeOp t)) (attributes : ∀ op, motive (.attributes op))
    (other : ∀ op, (∀ (σ : Type) (r : RowBacked σ) owner,
      (step op (.rowBacked r, owner)).2 = (.rowBacked r, owner)) → motive op) (op : Op) :
    motive op := by
  cases op with
  | classType => exact read .classType
  | interfaceType => exact read .interfaceType
  | setClassType t => exact write .classType t
  | setInterfaceType t => exact write .interfaceType t
  | attributes op => exact attributes op
  | _ => exact other _ fun _ _ _ => rfl

end InterfaceImpl

end CilMetadata

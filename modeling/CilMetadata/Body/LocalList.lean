import CilMetadata.Error
import CilMetadata.Run

/-!
# Local slots

The local variables of a method body.  Every slot carries its index, which the list sets to the
position when it puts slots in place; a slot that is overwritten as a whole keeps the index that it
came with until a change before it renumbers it.

* `index_renumber`: renumbered slots carry their position.
-/

namespace CilMetadata

/-- A local variable. -/
structure Local where
  index : Nat
  name : Option String
  typeToken : Option Token
  pinned : Bool
  deriving DecidableEq, Repr

def Local.plain : Local := ⟨0, none, none, false⟩

/-- The name of a local, or one made from its index. -/
def Local.text (l : Local) : String :=
  match l.name with
  | some name => name
  | none => "V_" ++ toString l.index

/-- The locals of a method body. -/
structure LocalList where
  slots : List Local
  deriving DecidableEq, Repr

namespace LocalList

/-- Sets the index of every slot from a position on. -/
def renumber (start : Nat) (slots : List Local) : List Local :=
  slots.mapIdx fun i l => if start ≤ i then { l with index := i } else l

def empty : LocalList := ⟨[]⟩

/-- The list of some locals, all renumbered. -/
def ofList (locals : List Local) : LocalList := ⟨renumber 0 locals⟩

def length (l : LocalList) : Nat := l.slots.length

def isEmpty (l : LocalList) : Bool := l.slots.isEmpty

/-- The slot at a position. -/
def get? (l : LocalList) (i : Nat) : Option Local := l.slots[i]?

/-- Overwrites the slot at a position, index included; answers the slot that was there. -/
def set (l : LocalList) (i : Nat) (x : Local) : Option Local × LocalList :=
  (l.slots[i]?, ⟨l.slots.set i x⟩)

/-- Puts a local at the end; answers its position. -/
def push (l : LocalList) (x : Local) : Nat × LocalList :=
  (l.slots.length, ⟨l.slots ++ [{ x with index := l.slots.length }]⟩)

/-- Puts a local before the one at a position, or at the end, and renumbers from there. -/
def insert (l : LocalList) (i : Nat) (x : Local) : Except Error Unit × LocalList :=
  if l.slots.length < i then (.error .outOfBounds, l)
  else (.ok (), ⟨renumber i (l.slots.insertIdx i x)⟩)

/-- Takes the local at a position out of the list and renumbers from there. -/
def remove (l : LocalList) (i : Nat) : Except Error Local × LocalList :=
  match l.slots[i]? with
  | none => (.error .outOfBounds, l)
  | some x => (.ok x, ⟨renumber i (l.slots.eraseIdx i)⟩)

/-! ### Requests -/

inductive Op where
  | push (x : Local) | insert (i : Nat) (x : Local) | remove (i : Nat)
  | get (i : Nat) | set (i : Nat) (x : Local) | clear | toList
  deriving DecidableEq, Repr

inductive Answer where
  | done
  | position (i : Nat)
  | slot (x : Local)
  | slot? (x : Option Local)
  | slots (xs : List Local)
  deriving DecidableEq, Repr

def step : Op → LocalList → Except Error Answer × LocalList
  | .push x, l =>
    let (i, l') := l.push x
    (.ok (.position i), l')
  | .insert i x, l =>
    let (r, l') := l.insert i x
    (r.map fun _ => .done, l')
  | .remove i, l =>
    let (r, l') := l.remove i
    (r.map .slot, l')
  | .get i, l => (.ok (.slot? (l.get? i)), l)
  | .set i x, l =>
    let (old, l') := l.set i x
    (.ok (.slot? old), l')
  | .clear, _ => (.ok .done, empty)
  | .toList, l => (.ok (.slots l.slots), l)

/-! ### Laws -/

theorem index_renumber {start i : Nat} {slots : List Local} {x : Local} (hi : start ≤ i)
    (h : (renumber start slots)[i]? = some x) : x.index = i := by
  rw [renumber, List.getElem?_mapIdx] at h
  obtain ⟨y, -, rfl⟩ := Option.map_eq_some_iff.mp h
  simp [hi]

theorem getElem?_renumber_of_lt {start i : Nat} (slots : List Local) (hi : i < start) :
    (renumber start slots)[i]? = slots[i]? := by
  rw [renumber, List.getElem?_mapIdx]
  cases slots[i]? with
  | none => rfl
  | some y => simp [Nat.not_le.mpr hi]

theorem index_ofList {locals : List Local} {i : Nat} {x : Local}
    (h : (ofList locals).get? i = some x) : x.index = i :=
  index_renumber (Nat.zero_le i) h

end LocalList
end CilMetadata

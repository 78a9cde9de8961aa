import CilMetadata.Error
import CilMetadata.Run

/-!
# Lazy lists

A list whose elements are read one by one, each when it is first asked for.  A slot of the list is
loaded or waits under the id that its reader is to be asked for; the reader reads and changes a
state `σ` that lies outside the list.

* `loadAll_of_ok`: after a successful `loadAll` every slot is loaded.
-/

namespace CilMetadata

/-- An element that waits to be read, or is there. -/
inductive LazyList.Slot (α : Type) where
  | pending (id : UInt32)
  | loaded (v : α)
  deriving DecidableEq, Repr

/-- A list whose elements are read when they are first asked for. -/
structure LazyList (σ α : Type) where
  slots : List (LazyList.Slot α)
  reader : Option (UInt32 → σ → Except Error α × σ)

namespace LazyList

variable {σ α : Type}

def Slot.value? : Slot α → Option α
  | .pending _ => none
  | .loaded v => some v

def Slot.isLoaded : Slot α → Bool
  | .pending _ => false
  | .loaded _ => true

def empty : LazyList σ α := ⟨[], none⟩

/-- The list of elements that are there already. -/
def ofList (items : List α) : LazyList σ α := ⟨items.map .loaded, none⟩

/-- The list of the elements that a reader has for some ids. -/
def ofIds (ids : List UInt32) (reader : UInt32 → σ → Except Error α × σ) : LazyList σ α :=
  ⟨ids.map .pending, some reader⟩

def length (l : LazyList σ α) : Nat := l.slots.length

def isEmpty (l : LazyList σ α) : Bool := l.slots.isEmpty

/-- Whether the element at a place is there and loaded. -/
def isLoaded (l : LazyList σ α) (i : Nat) : Bool := (l.slots[i]?).any Slot.isLoaded

/-- The elements that are loaded, in order. -/
def loadedItems (l : LazyList σ α) : List α := l.slots.filterMap Slot.value?

def readId (reader : Option (UInt32 → σ → Except Error α × σ)) (id : UInt32) (s : σ) :
    Except Error α × σ :=
  match reader with
  | some read => read id s
  | none => (.error (.malformed (.noReader id)), s)

/-- Loads the element at a place; answers whether there is one.  A failed read leaves it waiting. -/
def load (l : LazyList σ α) (i : Nat) (s : σ) : Except Error Bool × LazyList σ α × σ :=
  match l.slots[i]? with
  | none => (.ok false, l, s)
  | some (.loaded _) => (.ok true, l, s)
  | some (.pending id) =>
    match readId l.reader id s with
    | (.ok v, s') => (.ok true, { l with slots := l.slots.set i (.loaded v) }, s')
    | (.error e, s') => (.error e, l, s')

/-- The element at a place, loaded first. -/
def get (l : LazyList σ α) (i : Nat) (s : σ) : Except Error (Option α) × LazyList σ α × σ :=
  match l.load i s with
  | (.error e, l', s') => (.error e, l', s')
  | (.ok false, l', s') => (.ok none, l', s')
  | (.ok true, l', s') => (.ok ((l'.slots[i]?).bind Slot.value?), l', s')

/-- Puts an element in the place of another, which is loaded first and answered. -/
def set (l : LazyList σ α) (i : Nat) (v : α) (s : σ) : Except Error (Option α) × LazyList σ α × σ :=
  match l.get i s with
  | (.ok (some old), l', s') => (.ok (some old), { l' with slots := l'.slots.set i (.loaded v) }, s')
  | other => other

def push (l : LazyList σ α) (v : α) : LazyList σ α := { l with slots := l.slots ++ [.loaded v] }

/-- Puts an element before the one at a place, or at the end. -/
def insert (l : LazyList σ α) (i : Nat) (v : α) : Except Error Unit × LazyList σ α :=
  if l.slots.length < i then (.error .outOfBounds, l)
  else (.ok (), { l with slots := l.slots.insertIdx i (.loaded v) })

/-- Takes the element at a place out of the list, loaded first. -/
def remove (l : LazyList σ α) (i : Nat) (s : σ) : Except Error α × LazyList σ α × σ :=
  match l.load i s with
  | (.error e, l', s') => (.error e, l', s')
  | (.ok false, l', s') => (.error .outOfBounds, l', s')
  | (.ok true, l', s') =>
    match (l'.slots[i]?).bind Slot.value? with
    | some v => (.ok v, { l' with slots := l'.slots.eraseIdx i }, s')
    | none => (.error .outOfBounds, { l' with slots := l'.slots.eraseIdx i }, s')

def clear (l : LazyList σ α) : LazyList σ α := { l with slots := [] }

/-- Loads slots in order, up to the first read that fails. -/
def loadSlots (reader : Option (UInt32 → σ → Except Error α × σ)) :
    List (Slot α) → σ → Except Error Unit × List (Slot α) × σ
  | [], s => (.ok (), [], s)
  | .loaded v :: rest, s =>
    let (r, rest', s') := loadSlots reader rest s
    (r, .loaded v :: rest', s')
  | .pending id :: rest, s =>
    match readId reader id s with
    | (.error e, s') => (.error e, .pending id :: rest, s')
    | (.ok v, s') =>
      let (r, rest', s'') := loadSlots reader rest s'
      (r, .loaded v :: rest', s'')

/-- Loads all elements in order, up to the first read that fails. -/
def loadAll (l : LazyList σ α) (s : σ) : Except Error Unit × LazyList σ α × σ :=
  let (r, slots, s') := loadSlots l.reader l.slots s
  (r, { l with slots := slots }, s')

/-- All elements, loaded first. -/
def toList (l : LazyList σ α) (s : σ) : Except Error (List α) × LazyList σ α × σ :=
  match l.loadAll s with
  | (.ok _, l', s') => (.ok l'.loadedItems, l', s')
  | (.error e, l', s') => (.error e, l', s')

/-- The texts of the slots, given the text of an element. -/
def describe (text : α → String) (l : LazyList σ α) : String :=
  Text.bracketed <| l.slots.map fun
    | .loaded v => text v
    | .pending id => "<pending " ++ toString id.toNat ++ ">"

/-! ### Requests -/

inductive Op (α : Type) where
  | length | isEmpty | isLoaded (i : Nat)
  | get (i : Nat) | set (i : Nat) (v : α)
  | push (v : α) | insert (i : Nat) (v : α) | remove (i : Nat) | clear
  | loadAll | loadedItems | toList

inductive Answer (α : Type) where
  | done
  | count (n : Nat)
  | flag (b : Bool)
  | item (v : α)
  | item? (v : Option α)
  | items (vs : List α)
  deriving DecidableEq, Repr

def step : Op α → LazyList σ α × σ → Except Error (Answer α) × LazyList σ α × σ
  | .length, (l, s) => (.ok (.count l.length), l, s)
  | .isEmpty, (l, s) => (.ok (.flag l.isEmpty), l, s)
  | .isLoaded i, (l, s) => (.ok (.flag (l.isLoaded i)), l, s)
  | .get i, (l, s) =>
    let (r, l', s') := l.get i s
    (r.map .item?, l', s')
  | .set i v, (l, s) =>
    let (r, l', s') := l.set i v s
    (r.map .item?, l', s')
  | .push v, (l, s) => (.ok .done, l.push v, s)
  | .insert i v, (l, s) =>
    let (r, l') := l.insert i v
    (r.map fun _ => .done, l', s)
  | .remove i, (l, s) =>
    let (r, l', s') := l.remove i s
    (r.map .item, l', s')
  | .clear, (l, s) => (.ok .done, l.clear, s)
  | .loadAll, (l, s) =>
    let (r, l', s') := l.loadAll s
    (r.map fun _ => .done, l', s')
  | .loadedItems, (l, s) => (.ok (.items l.loadedItems), l, s)
  | .toList, (l, s) =>
    let (r, l', s') := l.toList s
    (r.map .items, l', s')

/-! ### Laws -/

theorem length_load (l : LazyList σ α) (i : Nat) (s : σ) : (l.load i s).2.1.length = l.length := by
  unfold load
  split
  · rfl
  · rfl
  · split <;> simp [length]

theorem loadSlots_of_ok {reader : Option (UInt32 → σ → Except Error α × σ)} {slots slots' : List (Slot α)}
    {s s' : σ} {u : Unit} (h : loadSlots reader slots s = (.ok u, slots', s')) :
    ∀ slot ∈ slots', slot.isLoaded := by
  induction slots generalizing slots' s s' with
  | nil =>
    cases h
    exact fun _ hs => nomatch hs
  | cons slot rest ih =>
    cases slot with
    | loaded v =>
      unfold loadSlots at h
      cases hr : loadSlots reader rest s with
      | mk r p =>
        simp only [hr, Prod.mk.injEq] at h
        obtain ⟨rfl, rfl, -⟩ := h
        intro x hx
        rcases List.mem_cons.mp hx with rfl | hx
        · rfl
        · exact ih hr x hx
    | pending id =>
      unfold loadSlots at h
      split at h
      · cases h
      · rename_i v s1 _
        cases hr : loadSlots reader rest s1 with
        | mk r p =>
          simp only [hr, Prod.mk.injEq] at h
          obtain ⟨rfl, rfl, -⟩ := h
          intro x hx
          rcases List.mem_cons.mp hx with rfl | hx
          · rfl
          · exact ih hr x hx

/-- **Loading.**  After a successful `loadAll` every slot is loaded. -/
theorem loadAll_of_ok {l l' : LazyList σ α} {s s' : σ} {u : Unit}
    (h : l.loadAll s = (.ok u, l', s')) : ∀ slot ∈ l'.slots, slot.isLoaded := by
  unfold loadAll at h
  cases hr : loadSlots l.reader l.slots s with
  | mk r p =>
    simp only [hr, Prod.mk.injEq] at h
    obtain ⟨rfl, rfl, -⟩ := h
    exact loadSlots_of_ok hr

end LazyList
end CilMetadata

import CilMetadata.Error

/-!
# Reading bytes

A `Reader` reads at a position of a buffer.  It answers a value or an error, and in both cases the
position where it stands afterwards: a read in several steps that fails keeps the steps before the
failure.

* `take_eq_ok`, `take_eq_error`: the next bytes are there exactly if the buffer is long enough, and
  a failed `take` does not move.
-/

namespace CilMetadata.Bytes

/-- A read at a position of a buffer. -/
def Reader (α : Type) : Type := List UInt8 → Nat → Except Error α × Nat

namespace Reader

variable {α β : Type}

def run (r : Reader α) (data : List UInt8) (offset : Nat) : Except Error α × Nat := r data offset

protected def pure (a : α) : Reader α := fun _ offset => (.ok a, offset)

/-- Reads on where the first read stopped, unless that failed. -/
protected def bind (r : Reader α) (f : α → Reader β) : Reader β := fun data offset =>
  match r data offset with
  | (.ok a, next) => f a data next
  | (.error e, next) => (.error e, next)

instance : Monad Reader where
  pure := Reader.pure
  bind := Reader.bind

/-- Answers what was computed before, without reading. -/
def ofExcept (x : Except Error α) : Reader α := fun _ offset => (x, offset)

/-- The position of the read. -/
def position : Reader Nat := fun _ offset => (.ok offset, offset)

/-- The next `n` bytes. -/
def take (n : Nat) : Reader (List UInt8) := fun data offset =>
  if offset + n ≤ data.length then (.ok ((data.drop offset).take n), offset + n)
  else (.error .outOfBounds, offset)

/-! ### Laws -/

@[simp] theorem run_pure (a : α) (data : List UInt8) (offset : Nat) :
    (pure a : Reader α).run data offset = (.ok a, offset) := rfl

theorem run_bind (r : Reader α) (f : α → Reader β) (data : List UInt8) (offset : Nat) :
    (r >>= f).run data offset =
      match r.run data offset with
      | (.ok a, next) => (f a).run data next
      | (.error e, next) => (.error e, next) := rfl

theorem run_bind_ok {r : Reader α} {data : List UInt8} {offset next : Nat} {a : α}
    (h : r.run data offset = (.ok a, next)) (f : α → Reader β) :
    (r >>= f).run data offset = (f a).run data next := by
  rw [run_bind, h]

theorem run_bind_error {r : Reader α} {data : List UInt8} {offset next : Nat} {e : Error}
    (h : r.run data offset = (.error e, next)) (f : α → Reader β) :
    (r >>= f).run data offset = (.error e, next) := by
  rw [run_bind, h]

@[simp] theorem run_ofExcept (x : Except Error α) (data : List UInt8) (offset : Nat) :
    (ofExcept x).run data offset = (x, offset) := rfl

@[simp] theorem run_position (data : List UInt8) (offset : Nat) :
    position.run data offset = (.ok offset, offset) := rfl

theorem take_eq_ok {n : Nat} {data : List UInt8} {offset : Nat} (h : offset + n ≤ data.length) :
    (take n).run data offset = (.ok ((data.drop offset).take n), offset + n) := if_pos h

theorem take_eq_error {n : Nat} {data : List UInt8} {offset : Nat} (h : data.length < offset + n) :
    (take n).run data offset = (.error .outOfBounds, offset) := if_neg (Nat.not_le.mpr h)

end Reader
end CilMetadata.Bytes

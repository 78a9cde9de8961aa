import CilMetadata.Bytes.Compressed
import CilMetadata.Run

/-!
# Cursors

A cursor walks over a buffer by reads of several kinds.
-/

namespace CilMetadata.Bytes

/-- A position in a buffer. -/
structure Cursor where
  data : List UInt8
  position : Nat

namespace Cursor

def start (data : List UInt8) : Cursor := ⟨data, 0⟩

def read {α : Type} (r : Reader α) (c : Cursor) : Except Error α × Cursor :=
  let (answer, position) := r.run c.data c.position
  (answer, ⟨c.data, position⟩)

inductive Op where
  /-- a compressed number -/
  | compressed
  /-- so many bytes -/
  | bytes (count : Nat)
  /-- an integer of a fixed width -/
  | int (format : IntFormat)
  deriving DecidableEq, Repr

inductive Datum where
  | number (n : Nat)
  | bytes (bs : List UInt8)
  | int (n : Int)
  deriving DecidableEq, Repr

def Op.reader : Op → Reader Datum
  | .compressed => do return .number (← Reader.compressed)
  | .bytes count => do return .bytes (← Reader.take count)
  | .int format => do return .int (← Reader.int format)

/-- Answers a request at the cursor and moves it. -/
def step (op : Op) (c : Cursor) : Except Error Datum × Cursor := c.read op.reader

end Cursor
end CilMetadata.Bytes

import CilMetadata.Bytes.Compressed

/-!
# The blob heap

A heap of byte strings.  Every entry is its length as a compressed number, then its bytes; the
first entry is the empty string, so a heap starts with the byte 0.

* `get_ofBlobs`: an entry of a written heap is found at the place where it was written.
-/

namespace CilMetadata

/-- A heap of byte strings. -/
structure BlobHeap where
  data : List UInt8
  head?_eq : data.head? = some 0

namespace BlobHeap

/-- The heap in some bytes, if they start with the empty entry. -/
def ofBytes (data : List UInt8) : Except Error BlobHeap :=
  if h : data.head? = some 0 then .ok ⟨data, h⟩ else .error (.malformed .blobHeap)

/-- The next entry: its length, then as many bytes. -/
def entry : Bytes.Reader (List UInt8) := do
  let length ← Bytes.Reader.compressed
  Bytes.Reader.take length

/-- The entry that starts at an index. -/
def get (heap : BlobHeap) (index : Nat) : Except Error (List UInt8) :=
  (entry.run heap.data index).1

/-- The written form of an entry. -/
def written (blob : List UInt8) : List UInt8 := Bytes.compress blob.length ++ blob

/-- The heap of some entries, in order after the empty one. -/
def ofBlobs (blobs : List (List UInt8)) : BlobHeap := ⟨0 :: blobs.flatMap written, rfl⟩

/-! ### Laws -/

/-- A written entry is read exactly, whatever stands around it. -/
theorem entry_written {blob : List UInt8} (h : blob.length < 0x20000000) (before rest : List UInt8) :
    entry.run (before ++ (written blob ++ rest)) before.length
      = (.ok blob, before.length + (written blob).length) := by
  have hc : Bytes.Reader.compressed.run (before ++ (written blob ++ rest)) before.length
      = (.ok blob.length, before.length + (Bytes.compress blob.length).length) := by
    rw [written, List.append_assoc]
    exact Bytes.compressed_compress h before (blob ++ rest)
  have hd : (before ++ (written blob ++ rest)).drop
      (before.length + (Bytes.compress blob.length).length) = blob ++ rest := by
    rw [written, ← List.length_append, ← List.append_assoc, ← List.append_assoc, List.append_assoc _ blob,
      List.drop_left' rfl]
  rw [entry, Bytes.Reader.run_bind_ok hc, Bytes.Reader.take_eq_ok (by simp [written]; omega), hd,
    List.take_left' rfl]
  simp [written]
  omega

/-- **Heap entries.**  An entry of a written heap is found where it was written. -/
theorem get_ofBlobs (front back : List (List UInt8)) {blob : List UInt8} (h : blob.length < 0x20000000) :
    (ofBlobs (front ++ blob :: back)).get (1 + (front.flatMap written).length) = .ok blob := by
  have hdata : (ofBlobs (front ++ blob :: back)).data
      = (0 :: front.flatMap written) ++ (written blob ++ back.flatMap written) := by
    simp [ofBlobs]
  have hlen : 1 + (front.flatMap written).length = (0 :: front.flatMap written).length := by
    simp only [List.length_cons]
    omega
  rw [get, hdata, hlen, entry_written h]

end BlobHeap
end CilMetadata

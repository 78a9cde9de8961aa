import CilMetadata.BlobHeap
import CilMetadata.Proofs.Bytes.Form

/-!
# The entries of a blob heap

An entry is found by its index: its length stands there in one of the forms of a compressed number,
and its bytes follow.  An index may lead anywhere into the heap, also between two entries; what is
found there is told by the bytes from the index on.

* `entryAt_or`: an index leads to an entry, to a byte that starts no length, or past the end;
* `get_entries`: a written heap gives its entries back, and what is found at any index of any heap.
-/

namespace CilMetadata.BlobHeap

open Bytes (Form Shortest slice)
open Bytes.Reader (run_bind_ok run_bind_error take_eq_ok take_eq_error)

variable {data : List UInt8} {index : Nat} {blob : List UInt8} {first : UInt8}

/-- The length of a blob stands at an index, and the blob follows. -/
def EntryAt (data : List UInt8) (index : Nat) (blob : List UInt8) : Prop :=
  ∃ f : Form, f.Spells blob.length (slice data index f.width) ∧
    slice data (index + f.width) blob.length = blob

/-- What should stand at an index runs past the end. -/
inductive PastEnd (data : List UInt8) (index : Nat) : Prop
  /-- the index -/
  | index (h : data.length ≤ index)
  /-- the length -/
  | length {f : Form} {first : UInt8} (hfirst : data[index]? = some first) (hf : f.Starts first)
    (h : data.length < index + f.width)
  /-- the bytes after the length -/
  | contents {f : Form} {n : Nat} (hf : f.Spells n (slice data index f.width))
    (h : data.length < index + f.width + n)

theorem run_entry_of_entryAt (h : EntryAt data index blob) : (entry.run data index).1 = .ok blob := by
  obtain ⟨f, hf, hblob⟩ := h
  have hle : index + f.width + blob.length ≤ data.length := by
    rcases Bytes.length_slice.mp (congrArg List.length hblob) with h0 | hle
    · rw [h0]
      exact hf.add_le
    · exact hle
  rw [entry, run_bind_ok (Bytes.Reader.compressed_of_spells hf), take_eq_ok hle]
  exact congrArg Except.ok hblob

theorem run_entry_of_marker (hfirst : data[index]? = some first) (h : 0xE0 ≤ first.toNat) :
    (entry.run data index).1 = .error (.malformed (.compressedMarker first)) := by
  rw [entry, run_bind_error (Bytes.Reader.compressed_marker hfirst h)]

theorem run_entry_of_pastEnd (h : PastEnd data index) :
    (entry.run data index).1 = .error .outOfBounds := by
  cases h with
  | index h =>
    rw [entry, run_bind_error (Bytes.Reader.compressed_end (List.getElem?_eq_none h))]
  | length hfirst hf h => rw [entry, run_bind_error (Bytes.Reader.compressed_cut hfirst hf h)]
  | contents hf h => rw [entry, run_bind_ok (Bytes.Reader.compressed_of_spells hf), take_eq_error h]

/-- An index leads to an entry, to a byte that starts no length, or past the end. -/
theorem entryAt_or (data : List UInt8) (index : Nat) :
    (∃ blob, EntryAt data index blob) ∨ (∃ first, data[index]? = some first ∧ 0xE0 ≤ first.toNat) ∨
      PastEnd data index := by
  rcases Bytes.Reader.compressed_cases data index with
    ⟨hnone, -⟩ | ⟨first, hfirst, ⟨hmarker, -⟩ | ⟨f, hf, ⟨hcut, -⟩ | ⟨n, hn, -⟩⟩⟩
  · exact .inr (.inr (.index (List.getElem?_eq_none_iff.mp hnone)))
  · exact .inr (.inl ⟨first, hfirst, hmarker⟩)
  · exact .inr (.inr (.length hfirst hf hcut))
  · rcases Nat.lt_or_ge data.length (index + f.width + n) with hcut | hle
    · exact .inr (.inr (.contents hn hcut))
    · have hlength : (slice data (index + f.width) n).length = n := Bytes.length_slice.mpr (.inr hle)
      exact .inl ⟨slice data (index + f.width) n, f, by rwa [hlength], by rw [hlength]⟩

section Get

variable (heap : BlobHeap)

/-- What a heap answers for an index, and why. -/
theorem get_cases (index : Nat) :
    (∃ blob, EntryAt heap.data index blob ∧ heap.get index = .ok blob) ∨
    (∃ first, (heap.data[index]? = some first ∧ 0xE0 ≤ first.toNat) ∧
      heap.get index = .error (.malformed (.compressedMarker first))) ∨
    (PastEnd heap.data index ∧ heap.get index = .error .outOfBounds) := by
  rcases entryAt_or heap.data index with ⟨blob, hblob⟩ | ⟨first, hfirst⟩ | hend
  · exact .inl ⟨blob, hblob, run_entry_of_entryAt hblob⟩
  · exact .inr (.inl ⟨first, hfirst, run_entry_of_marker hfirst.1 hfirst.2⟩)
  · exact .inr (.inr ⟨hend, run_entry_of_pastEnd hend⟩)

theorem get_eq_ok_iff : heap.get index = .ok blob ↔ EntryAt heap.data index blob := by
  refine ⟨fun h => ?_, run_entry_of_entryAt⟩
  rcases heap.get_cases index with ⟨found, hfound, hget⟩ | ⟨first, -, hget⟩ | ⟨-, hget⟩ <;>
    cases h.symm.trans hget
  exact hfound

theorem get_eq_malformed_iff : (∃ defect, heap.get index = .error (.malformed defect)) ↔
    ∃ first, heap.data[index]? = some first ∧ 0xE0 ≤ first.toNat := by
  constructor
  · rintro ⟨defect, h⟩
    rcases heap.get_cases index with ⟨found, -, hget⟩ | ⟨first, hfirst, hget⟩ | ⟨-, hget⟩ <;>
      cases h.symm.trans hget
    exact ⟨first, hfirst⟩
  · rintro ⟨first, hfirst, hmarker⟩
    exact ⟨_, run_entry_of_marker hfirst hmarker⟩

theorem get_eq_outOfBounds_iff : heap.get index = .error .outOfBounds ↔ PastEnd heap.data index := by
  refine ⟨fun h => ?_, run_entry_of_pastEnd⟩
  rcases heap.get_cases index with ⟨found, -, hget⟩ | ⟨first, -, hget⟩ | ⟨hend, hget⟩ <;>
    cases h.symm.trans hget
  exact hend

theorem get_error_cases {e : Error} (h : heap.get index = .error e) :
    (∃ first, e = .malformed (.compressedMarker first)) ∨ e = .outOfBounds := by
  rcases heap.get_cases index with ⟨found, -, hget⟩ | ⟨first, -, hget⟩ | ⟨-, hget⟩ <;>
    cases h.symm.trans hget
  · exact .inl ⟨first, rfl⟩
  · exact .inr rfl

theorem get_zero : heap.get 0 = .ok [] := by
  obtain ⟨rest, hrest⟩ := List.head?_eq_some_iff.mp heap.head?_eq
  have hentry := entry_written (show ([] : List UInt8).length < 0x20000000 by decide) [] rest
  rw [get, hrest]
  exact congrArg Prod.fst hentry

end Get

theorem data_of_ofBytes {heap : BlobHeap} (h : ofBytes data = .ok heap) : heap.data = data := by
  unfold ofBytes at h
  split at h
  · cases h
    rfl
  · cases h

def start (blobs : List (List UInt8)) (k : Nat) : Nat := 1 + ((blobs.take k).flatMap written).length

theorem get_start {blobs : List (List UInt8)} {k : Nat} (hblob : blobs[k]? = some blob)
    (h : blob.length < 0x20000000) : (ofBlobs blobs).get (start blobs k) = .ok blob := by
  obtain ⟨hk, hget⟩ := List.getElem?_eq_some_iff.mp hblob
  have hsplit : blobs.take k ++ blob :: blobs.drop (k + 1) = blobs := by
    rw [← hget, ← List.drop_eq_getElem_cons hk, List.take_append_drop]
  have hentry := get_ofBlobs (blobs.take k) (blobs.drop (k + 1)) h
  rwa [hsplit] at hentry

/-- **Entries.**  Blobs that are written with their lengths in the shortest form, after the empty entry,
are accepted as a heap, which gives each of them back at the index where it starts.  At any index of
any heap there is the blob whose length stands there and that follows it; the index is refused as
damaged if the byte there starts no length, and as out of bounds if the index, the length or the
blob runs past the end. -/
theorem get_entries :
    (∀ blobs : List (List UInt8), (∀ blob ∈ blobs, blob.length < 0x20000000) →
      (∀ blob ∈ blobs, ∀ length, written blob = length ++ blob ↔ Shortest blob.length length) ∧
      ∃ heap, ofBytes (0 :: blobs.flatMap written) = .ok heap ∧
        ∀ k blob, blobs[k]? = some blob → heap.get (start blobs k) = .ok blob) ∧
    ∀ data heap, ofBytes data = .ok heap → ∀ index,
      (∀ blob, heap.get index = .ok blob ↔ EntryAt data index blob) ∧
      ((∃ defect, heap.get index = .error (.malformed defect)) ↔
        ∃ first, data[index]? = some first ∧ 0xE0 ≤ first.toNat) ∧
      (heap.get index = .error .outOfBounds ↔ PastEnd data index) ∧
      ∀ e, heap.get index = .error e → (∃ defect, e = .malformed defect) ∨ e = .outOfBounds := by
  constructor
  · intro blobs hblobs
    refine ⟨fun blob hblob length => ?_, ofBlobs blobs, dif_pos rfl, fun k blob hblob => ?_⟩
    · rw [Bytes.shortest_iff (hblobs blob hblob), written, List.append_cancel_right_eq, eq_comm]
    · exact get_start hblob (hblobs blob (List.mem_of_getElem? hblob))
  · intro data heap hheap index
    rw [← data_of_ofBytes hheap]
    refine ⟨fun blob => heap.get_eq_ok_iff, heap.get_eq_malformed_iff, heap.get_eq_outOfBounds_iff,
      fun e he => ?_⟩
    rcases heap.get_cases index with ⟨found, -, hget⟩ | ⟨first, -, hget⟩ | ⟨-, hget⟩ <;>
      cases he.symm.trans hget
    · exact .inl ⟨_, rfl⟩
    · exact .inr rfl

/-- A blob of 130 bytes, whose length takes two bytes, and the one after it; and a blob that is cut
off. -/
theorem get_entries_sample :
    (∃ heap, ofBytes (0 :: [List.replicate 130 7, [5]].flatMap written) = .ok heap ∧
      heap.get 133 = .ok [5]) ∧
    ∃ heap, ofBytes [0, 5, 1] = .ok heap ∧ heap.get 1 = .error .outOfBounds := by
  constructor
  · obtain ⟨-, heap, hheap, hget⟩ := get_entries.1 [List.replicate 130 7, [5]] (by simp)
    have hstart : start [List.replicate 130 7, [5]] 1 = 133 := by simp [start, written, Bytes.compress]
    exact ⟨heap, hheap, hstart ▸ hget 1 [5] rfl⟩
  · refine ⟨⟨[0, 5, 1], rfl⟩, rfl, ?_⟩
    have hfound := get_entries.2 [0, 5, 1] ⟨[0, 5, 1], rfl⟩ rfl 1
    exact hfound.2.2.1.mpr (.contents (f := .one) (n := 5) (by decide) (by decide))

end CilMetadata.BlobHeap

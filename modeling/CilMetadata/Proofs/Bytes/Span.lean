import CilMetadata.Row.CustomAttribute
import CilMetadata.Row.InterfaceImpl

/-!
# Reads of a fixed span

A row takes as many bytes as its size says, and is told by these bytes alone.  Both are laws of
reads that are put together from parts of known size, so they are proved once for each part.

* `Spans.bind`: the span of two reads, one after the other;
* `LawfulRow`: the rows of both tables have the span of their size.
-/

namespace CilMetadata.Bytes

/-- The `w` bytes at a position. -/
def slice (data : List UInt8) (offset w : Nat) : List UInt8 := (data.drop offset).take w

theorem slice_add (data : List UInt8) (offset v w : Nat) :
    (slice data offset (v + w)).take v = slice data offset v ∧
      (slice data offset (v + w)).drop v = slice data (offset + v) w := by
  simp [slice, List.take_take, List.drop_take, List.drop_drop]

theorem slice_eq_left {data data' : List UInt8} {offset v w : Nat}
    (h : slice data offset (v + w) = slice data' offset (v + w)) :
    slice data offset v = slice data' offset v := by
  rw [← (slice_add data offset v w).1, h, (slice_add data' offset v w).1]

theorem slice_eq_right {data data' : List UInt8} {offset v w : Nat}
    (h : slice data offset (v + w) = slice data' offset (v + w)) :
    slice data (offset + v) w = slice data' (offset + v) w := by
  rw [← (slice_add data offset v w).2, h, (slice_add data' offset v w).2]

theorem slice_append (data : List UInt8) (offset v w : Nat) :
    slice data offset v ++ slice data (offset + v) w = slice data offset (v + w) := by
  obtain ⟨hleft, hright⟩ := slice_add data offset v w
  rw [← hleft, ← hright, List.take_append_drop]

theorem slice_succ {data : List UInt8} {offset w : Nat} {b : UInt8} (h : data[offset]? = some b) :
    slice data offset (w + 1) = b :: slice data (offset + 1) w := by
  obtain ⟨hlt, rfl⟩ := List.getElem?_eq_some_iff.mp h
  rw [slice, List.drop_eq_getElem_cons hlt, List.take_succ_cons, slice]

theorem length_slice {data : List UInt8} {offset w : Nat} :
    (slice data offset w).length = w ↔ w = 0 ∨ offset + w ≤ data.length := by
  rw [slice, List.length_take, List.length_drop]
  omega

namespace Reader

variable {α β : Type}

/-- A read of `w` bytes: a success moves over exactly these, and what is answered depends on no
others. -/
structure Spans (w : Nat) (r : Reader α) : Prop where
  advances : ∀ data offset a next, r.run data offset = (.ok a, next) → next = offset + w
  answer_eq : ∀ data data' offset, offset + w ≤ data.length → offset + w ≤ data'.length →
    slice data offset w = slice data' offset w → (r.run data offset).1 = (r.run data' offset).1

theorem spans_pure (a : α) : Spans 0 (pure a) where
  advances _ _ _ _ h := (Prod.mk.inj h).2.symm
  answer_eq _ _ _ _ _ _ := rfl

theorem spans_ofExcept (x : Except Error α) : Spans 0 (ofExcept x) where
  advances _ _ _ _ h := (Prod.mk.inj h).2.symm
  answer_eq _ _ _ _ _ _ := rfl

theorem spans_position : Spans 0 position where
  advances _ _ _ _ h := (Prod.mk.inj h).2.symm
  answer_eq _ _ _ _ _ _ := rfl

theorem spans_take (n : Nat) : Spans n (take n) where
  advances data offset a next h := by
    unfold run take at h
    split at h
    · exact (Prod.mk.inj h).2.symm
    · cases h
  answer_eq data data' offset hlen hlen' h := by
    rw [take_eq_ok hlen, take_eq_ok hlen']
    exact congrArg Except.ok h

theorem exists_of_bind_ok {r : Reader α} {f : α → Reader β} {data : List UInt8} {offset last : Nat}
    {b : β} (h : (r >>= f).run data offset = (.ok b, last)) :
    ∃ a next, r.run data offset = (.ok a, next) ∧ (f a).run data next = (.ok b, last) := by
  cases hr : r.run data offset with
  | mk x next =>
    cases x with
    | error e =>
      rw [run_bind_error hr] at h
      cases h
    | ok a =>
      rw [run_bind_ok hr] at h
      exact ⟨a, next, rfl, h⟩

/-- **Two reads.**  The second starts where the first has stopped. -/
theorem Spans.bind {r : Reader α} {f : α → Reader β} {v w : Nat} (hr : r.Spans v)
    (hf : ∀ a, (f a).Spans w) : (r >>= f).Spans (v + w) where
  advances data offset b last h := by
    obtain ⟨a, next, hfirst, hsecond⟩ := exists_of_bind_ok h
    rw [(hf a).advances data next b last hsecond, hr.advances data offset a next hfirst, Nat.add_assoc]
  answer_eq data data' offset hlen hlen' h := by
    have hfirst := hr.answer_eq data data' offset (by omega) (by omega) (slice_eq_left h)
    cases hrun : r.run data offset with
    | mk x next =>
      cases hrun' : r.run data' offset with
      | mk x' next' =>
        rw [hrun, hrun'] at hfirst
        cases hfirst
        cases x with
        | error e => rw [run_bind_error hrun, run_bind_error hrun']
        | ok a =>
          rw [run_bind_ok hrun, run_bind_ok hrun', hr.advances data offset a next hrun,
            hr.advances data' offset a next' hrun']
          exact (hf a).answer_eq data data' (offset + v) (by omega) (by omega) (slice_eq_right h)

theorem spans_column (large : Bool) : Spans (if large then 4 else 2) (column large) :=
  (spans_take _).bind fun _ => spans_pure _

theorem column_eq_ok {large : Bool} {data : List UInt8} {offset w : Nat}
    (hw : w = if large then 4 else 2) (h : offset + w ≤ data.length) :
    (column large).run data offset =
      (.ok (UInt32.ofNat (number ((data.drop offset).take w))), offset + w) := by
  subst hw
  rw [column, run_bind_ok (take_eq_ok h)]
  rfl

theorem int_eq_ok {format : IntFormat} {data : List UInt8} {offset : Nat}
    (h : offset + format.size ≤ data.length) :
    (int format).run data offset =
      (.ok (format.ofNumber (number (slice data offset format.size))), offset + format.size) := by
  rw [int, run_bind_ok (take_eq_ok h)]
  rfl

theorem int_eq_error {format : IntFormat} {data : List UInt8} {offset : Nat}
    (h : data.length < offset + format.size) :
    (int format).run data offset = (.error .outOfBounds, offset) := by
  rw [int, run_bind_error (take_eq_error h)]

end Reader
end CilMetadata.Bytes

namespace CilMetadata

open Bytes.Reader (spans_column spans_ofExcept spans_position spans_pure)

theorem TableInfo.codedBytes_eq_ite (info : TableInfo) (kind : CodedIndex.Kind) :
    info.codedBytes kind = if decide (16 < info.codedBits kind) then 4 else 2 := by
  simp only [codedBytes, columnBytes, decide_eq_true_eq]

theorem CodedIndex.spans_read (info : TableInfo) (kind : Kind) :
    (read info kind).Spans (info.codedBytes kind) := by
  rw [info.codedBytes_eq_ite]
  exact (spans_column _).bind fun _ => spans_ofExcept _

theorem CodedIndex.read_eq {info : TableInfo} {kind : Kind} {data : List UInt8} {offset : Nat}
    (h : offset + info.codedBytes kind ≤ data.length) :
    (read info kind).run data offset =
      (decode kind (UInt32.ofNat (Bytes.number ((data.drop offset).take (info.codedBytes kind)))),
        offset + info.codedBytes kind) := by
  rw [read, Bytes.Reader.run_bind_ok (Bytes.Reader.column_eq_ok (info.codedBytes_eq_ite kind) h)]
  rfl

theorem CodedIndex.malformed_of_decode {kind : Kind} {v : UInt32} {e : Error}
    (h : decode kind v = .error e) : ∃ d, e = .malformed d := by
  simp only [decode] at h
  split at h
  · cases h
    exact ⟨_, rfl⟩
  · split at h
    · cases h
    · cases h
      exact ⟨_, rfl⟩

/-- Rows that are read from as many bytes as their size says. -/
class LawfulRow (ρ : Type) [Row ρ] : Prop where
  spans_read : ∀ info rid, (Row.read info rid : Bytes.Reader ρ).Spans (Row.size ρ info)

instance : LawfulRow InterfaceImplRow where
  spans_read info rid := by
    have hclass := spans_column (info.isLarge .typeDef)
    rw [← info.indexBytes_eq] at hclass
    have h := spans_position.bind fun offset => hclass.bind fun c =>
      (CodedIndex.spans_read info .typeDefOrRef).bind fun i =>
        spans_pure (⟨rid, offset, c, i⟩ : InterfaceImplRow)
    rwa [Nat.zero_add] at h

instance : LawfulRow CustomAttributeRow where
  spans_read info rid := by
    have h := spans_position.bind fun offset =>
      (CodedIndex.spans_read info .hasCustomAttribute).bind fun parent =>
        (CodedIndex.spans_read info .customAttributeType).bind fun constructor =>
          (spans_column info.largeBlob).bind fun value =>
            spans_pure (⟨rid, offset, parent, constructor, value⟩ : CustomAttributeRow)
    rwa [Nat.zero_add, ← Nat.add_assoc] at h

end CilMetadata

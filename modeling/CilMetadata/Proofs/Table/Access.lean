import CilMetadata.Proofs.Bytes.Span
import CilMetadata.Table

/-!
# Rows by number

A row that is asked for by number is looked up at a multiple of the row size.

* `row_of_le`: the place that a row is read from;
* `row_eq_of_slice`: tables that hold the same bytes there have the same row.
-/

namespace CilMetadata.Table

variable {ρ : Type} [Row ρ]

theorem toNat_ofNat_succ {count : UInt32} {i : Nat} (hi : i < count.toNat) :
    (UInt32.ofNat (i + 1)).toNat = i + 1 := by
  have hlt : i + 1 < UInt32.size := Nat.lt_of_le_of_lt hi count.toNat_lt
  exact UInt32.toNat_ofNat_of_lt' hlt

theorem range_ofNat_succ {count : UInt32} {i : Nat} (hi : i < count.toNat) :
    UInt32.ofNat (i + 1) ≠ 0 ∧ UInt32.ofNat (i + 1) ≤ count := by
  rw [UInt32.le_iff_toNat_le, ne_eq, ← UInt32.toNat_inj, toNat_ofNat_succ hi]
  exact ⟨Nat.succ_ne_zero i, hi⟩

theorem place_lt {count rid : UInt32} (h0 : rid ≠ 0) (h : rid ≤ count) :
    rid.toNat - 1 < count.toNat := by
  have hne : rid.toNat ≠ 0 := fun hz => h0 (UInt32.toNat_inj.mp hz)
  have hle : rid.toNat ≤ count.toNat := UInt32.le_iff_toNat_le.mp h
  omega

theorem offset_add_le (t : Table ρ) {i : Nat} (hi : i < t.rowCount.toNat) :
    i * Row.size ρ t.info + Row.size ρ t.info ≤ t.data.length := by
  calc i * Row.size ρ t.info + Row.size ρ t.info = (i + 1) * Row.size ρ t.info := by
        rw [Nat.succ_mul]
    _ ≤ t.rowCount.toNat * Row.size ρ t.info := Nat.mul_le_mul_right _ hi
    _ ≤ t.data.length := t.size_le

theorem counted_iff {count rid : UInt32} : rid ≠ 0 ∧ rid ≤ count ↔ ¬ (rid = 0 ∨ count < rid) := by
  rw [not_or, UInt32.not_lt]

theorem row_of_le {t : Table ρ} {rid : UInt32} (h0 : rid ≠ 0) (h : rid ≤ t.rowCount) :
    t.row rid = ((Row.read t.info rid).run t.data ((rid.toNat - 1) * t.rowSize)).1 :=
  if_neg (counted_iff.mp ⟨h0, h⟩)

theorem row?_eq_some_iff {t : Table ρ} {rid : UInt32} {r : ρ} : t.row? rid = some r ↔ t.row rid = .ok r := by
  unfold row?
  cases t.row rid <;> simp [Except.toOption]

theorem range_of_row {t : Table ρ} {rid : UInt32} {r : ρ} (h : t.row rid = .ok r) :
    rid ≠ 0 ∧ rid ≤ t.rowCount := by
  unfold row at h
  split at h
  · cases h
  · rename_i hrange
    exact counted_iff.mpr hrange

theorem place_add_le {t : Table ρ} {rid : UInt32} (h0 : rid ≠ 0) (h : rid ≤ t.rowCount) :
    (rid.toNat - 1) * t.rowSize + t.rowSize ≤ t.data.length :=
  t.offset_add_le (place_lt h0 h)

/-- A row is told by its own bytes, whatever the rest of the table holds. -/
theorem row_eq_of_slice [LawfulRow ρ] {t t' : Table ρ} (hinfo : t'.info = t.info) {rid : UInt32}
    (h0 : rid ≠ 0) (h : rid ≤ t.rowCount) (h' : rid ≤ t'.rowCount)
    (hbytes : Bytes.slice t.data ((rid.toNat - 1) * t.rowSize) t.rowSize =
      Bytes.slice t'.data ((rid.toNat - 1) * t.rowSize) t.rowSize) : t.row rid = t'.row rid := by
  have hsize : t'.rowSize = t.rowSize := by rw [rowSize, rowSize, hinfo]
  have hfits' := place_add_le h0 h'
  rw [row_of_le h0 h, row_of_le h0 h', hsize, hinfo]
  rw [hsize] at hfits'
  exact (LawfulRow.spans_read t.info rid).answer_eq _ _ _ (place_add_le h0 h) hfits' hbytes

end CilMetadata.Table

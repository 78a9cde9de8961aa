import CilMetadata.Proofs.Table.Layout
import CilMetadata.Run

/-!
# Rows in sequence

A walk over a table carries a position along, which every row moves on; a row that is asked for by
number is looked up at a multiple of the row size.  Both read the same bytes, because a row takes
exactly as many bytes as its size says.

* `next_at`: what a walk answers that is past some rows, and where it goes;
* `accessAgrees`: walks and numbers lead to the same rows, for both kinds of rows.
-/

namespace CilMetadata.Table

variable {ρ : Type}

/-- Answers up to the first error, which is the last one. -/
def untilError {α : Type} : List (Except Error α) → List (Except Error α)
  | [] => []
  | .ok a :: rest => .ok a :: untilError rest
  | .error e :: _ => [.error e]

variable [Row ρ]

/-- The rows of the numbers `i + 1` to the last, whether they decode or not. -/
def rowsFrom (t : Table ρ) (i : Nat) : List (Except Error ρ) :=
  (List.range' i (t.rowCount.toNat - i)).map fun j => t.row (UInt32.ofNat (j + 1))

def iterAt (t : Table ρ) (i : Nat) : Iter ρ := ⟨t, i, i * t.rowSize⟩

def Iter.answers (it : Iter ρ) (k : Nat) : List (Option (Except Error ρ)) :=
  (run (fun (_ : Unit) => Iter.next) (List.replicate k ()) it).1

/-! ### The rows ahead -/

theorem row_ofNat_succ {t : Table ρ} {i : Nat} (hi : i < t.rowCount.toNat) :
    t.row (UInt32.ofNat (i + 1)) =
      ((Row.read t.info (UInt32.ofNat (i + 1))).run t.data (i * t.rowSize)).1 := by
  obtain ⟨h0, hle⟩ := range_ofNat_succ hi
  rw [row_of_le h0 hle, toNat_ofNat_succ hi, Nat.add_sub_cancel]

theorem rowsFrom_of_lt {t : Table ρ} {i : Nat} (hi : i < t.rowCount.toNat) :
    t.rowsFrom i = t.row (UInt32.ofNat (i + 1)) :: t.rowsFrom (i + 1) := by
  obtain ⟨n, hn⟩ : ∃ n, t.rowCount.toNat - i = n + 1 := ⟨t.rowCount.toNat - i - 1, by omega⟩
  have hn' : t.rowCount.toNat - (i + 1) = n := by omega
  rw [rowsFrom, rowsFrom, hn, hn', List.range'_succ, List.map_cons]

theorem rowsFrom_of_le {t : Table ρ} {i : Nat} (hi : t.rowCount.toNat ≤ i) : t.rowsFrom i = [] := by
  rw [rowsFrom, Nat.sub_eq_zero_of_le hi]
  rfl

/-! ### Walks -/

/-- What a walk answers next that is past some rows: the row of the next number, if there is one.  A
row that does not decode is the last. -/
theorem next_at [LawfulRow ρ] {t : Table ρ} {i : Nat} (hi : i < t.rowCount.toNat) :
    (∃ r, t.row (UInt32.ofNat (i + 1)) = .ok r ∧
      (t.iterAt i).next = (some (.ok r), t.iterAt (i + 1))) ∨
    ∃ e it, t.row (UInt32.ofNat (i + 1)) = .error e ∧ (t.iterAt i).next = (some (.error e), it) ∧
      it.table.rowCount.toNat ≤ it.done := by
  have hrow := row_ofNat_succ hi
  have hnext : ¬ t.rowCount.toNat ≤ i := by omega
  cases hread : (Row.read t.info (UInt32.ofNat (i + 1)) : Bytes.Reader ρ).run t.data (i * t.rowSize) with
  | mk x offset =>
    rw [hread] at hrow
    cases x with
    | ok r =>
      have hoffset : offset = i * t.rowSize + t.rowSize :=
        (LawfulRow.spans_read t.info _).advances _ _ _ _ hread
      refine .inl ⟨r, hrow, ?_⟩
      simp only [Iter.next, iterAt, if_neg hnext, hread, hoffset, Nat.succ_mul]
    | error e =>
      refine .inr ⟨e, ⟨t, t.rowCount.toNat, offset⟩, hrow, ?_, Nat.le_refl _⟩
      simp only [Iter.next, iterAt, if_neg hnext, hread]

theorem next_of_le {it : Iter ρ} (h : it.table.rowCount.toNat ≤ it.done) : it.next = (none, it) :=
  if_pos h

theorem Iter.answers_succ (it : Iter ρ) (k : Nat) :
    it.answers (k + 1) = it.next.1 :: it.next.2.answers k := by
  rw [Iter.answers, List.replicate_succ, run_cons]
  rfl

theorem answers_of_le {it : Iter ρ} (h : it.table.rowCount.toNat ≤ it.done) (k : Nat) :
    it.answers k = (List.range k).map fun _ => none := by
  induction k with
  | zero => rfl
  | succ k ih =>
    rw [Iter.answers_succ, next_of_le h, ih, List.range_succ_eq_map, List.map_cons, List.map_map]
    rfl

/-- **Walks.**  A walk answers the rows of the next numbers up to the first that does not decode, and
nothing more. -/
theorem answers_at [LawfulRow ρ] (t : Table ρ) (i k : Nat) :
    (t.iterAt i).answers k = (List.range k).map fun j => (untilError (t.rowsFrom i))[j]? := by
  induction k generalizing i with
  | zero => rfl
  | succ k ih =>
    rw [Iter.answers_succ, List.range_succ_eq_map, List.map_cons, List.map_map]
    rcases Nat.lt_or_ge i t.rowCount.toNat with hi | hi
    · rw [rowsFrom_of_lt hi]
      rcases next_at hi with ⟨r, hr, hn⟩ | ⟨e, it, hr, hn, hdone⟩
      · rw [hn, hr, ih]
        rfl
      · rw [hn, hr, answers_of_le hdone]
        rfl
    · have hdone : (t.iterAt i).table.rowCount.toNat ≤ (t.iterAt i).done := hi
      rw [next_of_le hdone, answers_of_le hdone, rowsFrom_of_le hi]
      rfl

theorem take_at [LawfulRow ρ] (t : Table ρ) (i k : Nat) :
    ((t.iterAt i).take k).1 = (untilError (t.rowsFrom i)).take k := by
  induction k generalizing i with
  | zero => rfl
  | succ k ih =>
    rcases Nat.lt_or_ge i t.rowCount.toNat with hi | hi
    · rw [rowsFrom_of_lt hi]
      rcases next_at hi with ⟨r, hr, hn⟩ | ⟨e, it, hr, hn, hdone⟩
      · simp only [Iter.take, hn, hr, untilError, List.take_succ_cons, ih]
      · have hlast : (it.take k).1 = [] := by
          cases k with
          | zero => rfl
          | succ k => simp only [Iter.take, next_of_le hdone]
        simp only [Iter.take, hn, hr, untilError, List.take_succ_cons, hlast, List.take_nil]
    · have hdone : (t.iterAt i).table.rowCount.toNat ≤ (t.iterAt i).done := hi
      simp only [Iter.take, next_of_le hdone, rowsFrom_of_le hi, untilError, List.take_nil]

theorem length_untilError_le {α : Type} (xs : List (Except Error α)) :
    (untilError xs).length ≤ xs.length := by
  induction xs with
  | nil => exact Nat.le_refl _
  | cons x xs ih =>
    cases x with
    | ok a => exact Nat.succ_le_succ ih
    | error e => exact Nat.succ_le_succ (Nat.zero_le _)

theorem rows_eq [LawfulRow ρ] (t : Table ρ) : t.rows = untilError (t.rowsFrom 0) := by
  have hlen := length_untilError_le (t.rowsFrom 0)
  have hstart : t.iter = t.iterAt 0 := by rw [iter, iterAt, Nat.zero_mul]
  rw [rows, Iter.toList, hstart, take_at]
  refine List.take_of_length_le (Nat.le_trans hlen ?_)
  rw [rowsFrom, List.length_map, List.length_range']
  exact Nat.le_refl _

theorem getElem?_untilError_of_error {α : Type} {xs : List (Except Error α)} {i : Nat} {e : Error}
    (h : xs[i]? = some (.error e)) : ∀ j > i, (untilError xs)[j]? = none := by
  induction xs generalizing i with
  | nil => cases h
  | cons x xs ih =>
    intro j hj
    obtain ⟨j, rfl⟩ : ∃ n, j = n + 1 := ⟨j - 1, by omega⟩
    cases x with
    | error e' => rfl
    | ok a =>
      cases i with
      | zero => cases h
      | succ i => exact ih h j (Nat.lt_of_succ_lt_succ hj)

theorem row_decodes_iff [Columnar ρ] [LawfulRow ρ] {t : Table ρ} {rid : UInt32} {cells : List Cell}
    (h0 : rid ≠ 0) (h : rid ≤ t.rowCount) :
    (∃ r, t.row rid = .ok r ∧ Columnar.cells r = cells) ↔
      Column.fields t.info (Columnar.columns ρ)
        (Bytes.slice t.data ((rid.toNat - 1) * t.rowSize) t.rowSize) = .ok cells := by
  rw [← layoutAgrees_of_columnar.row_eq t rid h0 h]
  cases t.row rid with
  | ok r => simp [Except.map]
  | error e => simp [Except.map]

/-- Walks over a table and numbers of rows lead to the same rows. -/
structure AccessAgrees [Columnar ρ] (t : Table ρ) : Prop where
  /-- a walk answers row 1, row 2, … up to the first that does not decode, and then nothing -/
  answers : ∀ k, t.iter.answers k =
    (List.range k).map fun j => (untilError (t.rowsFrom 0))[j]?
  /-- the first row that does not decode is the last that a walk answers -/
  stops : ∀ i e, t.row (UInt32.ofNat (i + 1)) = .error e → i < t.rowCount.toNat →
    ∀ j > i, (untilError (t.rowsFrom 0))[j]? = none
  /-- a row is there if it can be read -/
  row? : ∀ rid r, t.row? rid = some r ↔ t.row rid = .ok r
  /-- a row that the table has can be read exactly if its own columns decode, whatever the rows before
  it hold -/
  decodes_iff : ∀ rid cells, rid ≠ 0 → rid ≤ t.rowCount →
    ((∃ r, t.row rid = .ok r ∧ Columnar.cells r = cells) ↔
      Column.fields t.info (Columnar.columns ρ)
        (Bytes.slice t.data ((rid.toNat - 1) * t.rowSize) t.rowSize) = .ok cells)
  /-- tables that hold the same bytes at the place of a row have the same row -/
  row_eq : ∀ t' : Table ρ, t'.info = t.info → ∀ rid, rid ≠ 0 → rid ≤ t.rowCount → rid ≤ t'.rowCount →
    Bytes.slice t.data ((rid.toNat - 1) * t.rowSize) t.rowSize =
      Bytes.slice t'.data ((rid.toNat - 1) * t.rowSize) t.rowSize → t.row rid = t'.row rid

theorem accessAgrees_of_lawful [Columnar ρ] [LawfulRow ρ] (t : Table ρ) : t.AccessAgrees where
  answers k := by
    have hstart : t.iter = t.iterAt 0 := by rw [iter, iterAt, Nat.zero_mul]
    rw [hstart]
    exact answers_at t 0 k
  stops i e he hi := by
    refine getElem?_untilError_of_error (e := e) ?_
    rw [rowsFrom, List.getElem?_map, List.getElem?_range' (by omega), Option.map_some, Nat.zero_add,
      Nat.one_mul, he]
  row? _ _ := row?_eq_some_iff
  decodes_iff _ _ h0 h := row_decodes_iff h0 h
  row_eq _ hinfo _ h0 h h' hbytes := row_eq_of_slice hinfo h0 h h' hbytes

/-- **Access.**  In every table of either kind of rows, walks and numbers lead to the same rows. -/
theorem accessAgrees :
    (∀ t : Table InterfaceImplRow, t.AccessAgrees) ∧ ∀ t : Table CustomAttributeRow, t.AccessAgrees :=
  ⟨accessAgrees_of_lawful, accessAgrees_of_lawful⟩

/-- Two rows, of which the first has a tag that names no table. -/
example :
    let t : Table InterfaceImplRow :=
      ⟨.ofList [(.interfaceImpl, 2), (.typeDef, 2)] false, [1, 0, 3, 0, 2, 0, 5, 0], 2, by decide⟩
    t.rows.length = 1 ∧ t.row 2 = .ok ⟨2, 4, 2, ⟨.typeRef, 1⟩⟩ := ⟨rfl, rfl⟩

end CilMetadata.Table

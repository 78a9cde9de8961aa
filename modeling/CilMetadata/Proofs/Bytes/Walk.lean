import CilMetadata.Bytes.Cursor
import CilMetadata.Proofs.Bytes.Form

/-!
# Walks of a cursor

A cursor that starts in front of some data never leaves them and never goes back.  What a request answers
is told by the bytes that it moves over alone, and these follow one another from the front of the data to
where the cursor stands.

* `step_of_spells`: bytes that spell an answer are read as it, wherever they stand;
* `step_cases`: all that a request can do inside the data;
* `lawful_step`, `walk_of_run`: one request, and whole runs.
-/

namespace CilMetadata.Bytes.Cursor

open Reader (run_bind_ok run_bind_error take_eq_ok take_eq_error int_eq_ok int_eq_error)

/-- The cursor stands in its data, or right behind them. -/
def Within (c : Cursor) : Prop := c.position ≤ c.data.length

/-- What a request answers, and the bytes that tell it. -/
inductive Op.Spells : Op → Datum → List UInt8 → Prop
  | compressed {f : Form} {n : Nat} {bytes : List UInt8} (h : f.Spells n bytes) :
    Spells .compressed (.number n) bytes
  | bytes (bytes : List UInt8) : Spells (.bytes bytes.length) (.bytes bytes) bytes
  | int {format : IntFormat} {bytes : List UInt8} (h : bytes.length = format.size) :
    Spells (.int format) (.int (format.ofNumber (number bytes))) bytes

/-! ### One request -/

variable {c : Cursor} {op : Op} {d : Datum} {bytes : List UInt8}

theorem step_of_run {x : Except Error Datum} {next : Nat}
    (h : op.reader.run c.data c.position = (x, next)) : step op c = (x, ⟨c.data, next⟩) := by
  rw [step, read, h]

theorem add_length_le (hc : c.Within) (hb : slice c.data c.position bytes.length = bytes) :
    c.position + bytes.length ≤ c.data.length := by
  unfold Within at hc
  rcases length_slice.mp (congrArg List.length hb) with h0 | hle
  · omega
  · exact hle

/-- **Reading bytes.**  Bytes that spell an answer are read as it, wherever they stand. -/
theorem step_of_spells (h : op.Spells d bytes) (hc : c.Within)
    (hb : slice c.data c.position bytes.length = bytes) :
    step op c = (.ok d, ⟨c.data, c.position + bytes.length⟩) := by
  have hle := add_length_le hc hb
  apply step_of_run
  cases h with
  | compressed h =>
    have hlen := h.length_eq
    rw [← hb, hlen] at h
    rw [Op.reader, run_bind_ok (Reader.compressed_of_spells h), Reader.run_pure, hlen]
  | bytes bytes =>
    rw [Op.reader, run_bind_ok (take_eq_ok hle), Reader.run_pure]
    exact congrArg (fun bs => (Except.ok (Datum.bytes bs), c.position + bytes.length)) hb
  | int hlen =>
    rw [hlen] at hle hb ⊢
    rw [Op.reader, run_bind_ok (int_eq_ok hle), Reader.run_pure, hb]

/-- **One request.**  It reads bytes that spell its answer, or fails and moves by a part of a compressed
number at most. -/
theorem step_cases (op : Op) (hc : c.Within) :
    (∃ d bytes, op.Spells d bytes ∧ slice c.data c.position bytes.length = bytes ∧
      step op c = (.ok d, ⟨c.data, c.position + bytes.length⟩)) ∨
    ∃ e last, c.position ≤ last ∧ last ≤ c.data.length ∧ (op ≠ .compressed → last = c.position) ∧
      step op c = (.error e, ⟨c.data, last⟩) := by
  have hread : ∀ {d bytes}, op.Spells d bytes → slice c.data c.position bytes.length = bytes →
      ∃ d bytes, op.Spells d bytes ∧ slice c.data c.position bytes.length = bytes ∧
        step op c = (.ok d, ⟨c.data, c.position + bytes.length⟩) := by
    intro d bytes h hb
    exact ⟨d, bytes, h, hb, step_of_spells h hc hb⟩
  have hlength : ∀ {count}, c.position + count ≤ c.data.length →
      (slice c.data c.position count).length = count := by
    intro count hle
    exact length_slice.mpr (.inr hle)
  cases op with
  | compressed =>
    rcases Reader.compressed_cases c.data c.position with
      ⟨-, h⟩ | ⟨first, hfirst, ⟨-, h⟩ | ⟨f, -, ⟨-, h⟩ | ⟨n, hn, -⟩⟩⟩
    · exact .inr ⟨_, _, Nat.le_refl _, hc, fun _ => rfl, step_of_run (run_bind_error h _)⟩
    · have hlt : c.position < c.data.length := (List.getElem?_eq_some_iff.mp hfirst).1
      exact .inr ⟨_, _, Nat.le_succ _, hlt, fun h => absurd rfl h, step_of_run (run_bind_error h _)⟩
    · exact .inr ⟨_, _, hc, Nat.le_refl _, fun h => absurd rfl h, step_of_run (run_bind_error h _)⟩
    · exact .inl (hread (.compressed hn) (by rw [hn.length_eq]))
  | bytes count =>
    by_cases hle : c.position + count ≤ c.data.length
    · have h := Op.Spells.bytes (slice c.data c.position count)
      rw [hlength hle] at h
      exact .inl (hread h (by rw [hlength hle]))
    · have h := take_eq_error (Nat.lt_of_not_le hle)
      exact .inr ⟨_, _, Nat.le_refl _, hc, fun _ => rfl, step_of_run (run_bind_error h _)⟩
  | int format =>
    by_cases hle : c.position + format.size ≤ c.data.length
    · exact .inl (hread (.int (hlength hle)) (by rw [hlength hle]))
    · have h := int_eq_error (Nat.lt_of_not_le hle)
      exact .inr ⟨_, _, Nat.le_refl _, hc, fun _ => rfl, step_of_run (run_bind_error h _)⟩

/-! ### Moves -/

/-- One request of a run, with the positions before and after it. -/
structure Move where
  op : Op
  first : Nat
  last : Nat
  answer : Except Error Datum

namespace Move

/-- The bytes that a request moved over. -/
def span (data : List UInt8) (m : Move) : List UInt8 := slice data m.first (m.last - m.first)

/-- How a request moves in some data. -/
structure Lawful (data : List UInt8) (m : Move) : Prop where
  forward : m.first ≤ m.last
  within : m.last ≤ data.length
  stays : m.op ≠ .compressed → ∀ e, m.answer = .error e → m.last = m.first
  told : ∀ d, m.answer = .ok d → m.op.Spells d (m.span data)
  alone : ∀ d, m.answer = .ok d → ∀ before rest,
    step m.op ⟨before ++ (m.span data ++ rest), before.length⟩ =
      (.ok d, ⟨before ++ (m.span data ++ rest), before.length + (m.span data).length⟩)

end Move

/-- Moves that follow one another from a position to another. -/
def Adjoining : Nat → List Move → Nat → Prop
  | p, [], q => p = q
  | p, m :: ms, q => m.first = p ∧ Adjoining m.last ms q

/-- The moves of a run. -/
def walk : List Op → Cursor → List Move
  | [], _ => []
  | op :: ops, c =>
    ⟨op, c.position, (step op c).2.position, (step op c).1⟩ :: walk ops (step op c).2

theorem slice_middle (before bytes rest : List UInt8) :
    slice (before ++ (bytes ++ rest)) before.length bytes.length = bytes := by
  rw [slice, List.drop_left, List.take_left]

theorem step_between (h : op.Spells d bytes) (before rest : List UInt8) :
    step op ⟨before ++ (bytes ++ rest), before.length⟩ =
      (.ok d, ⟨before ++ (bytes ++ rest), before.length + bytes.length⟩) := by
  refine step_of_spells h ?_ (slice_middle before bytes rest)
  simp [Within]

theorem lawful_step (op : Op) (hc : c.Within) :
    Move.Lawful c.data ⟨op, c.position, (step op c).2.position, (step op c).1⟩ := by
  rcases step_cases op hc with ⟨d, bytes, h, hb, hstep⟩ | ⟨e, last, hfirst, hlast, hstays, hstep⟩
  · have hbytes : slice c.data c.position (c.position + bytes.length - c.position) = bytes := by
      rw [Nat.add_sub_cancel_left, hb]
    rw [hstep]
    refine ⟨Nat.le_add_right _ _, add_length_le hc hb, fun _ e he => (nomatch he), ?_, ?_⟩
    · rintro d' ⟨⟩
      rwa [Move.span, hbytes]
    · rintro d' ⟨⟩ before rest
      rw [Move.span, hbytes]
      exact step_between h before rest
  · rw [hstep]
    exact ⟨hfirst, hlast, fun h _ _ => hstays h, fun d hd => (nomatch hd), fun d hd => (nomatch hd)⟩

/-! ### Runs -/

theorem walk_moves (ops : List Op) (c : Cursor) :
    (walk ops c).map Move.op = ops ∧ (walk ops c).map Move.answer = (run step ops c).1 := by
  induction ops generalizing c with
  | nil => exact ⟨rfl, rfl⟩
  | cons op ops ih =>
    obtain ⟨hops, hanswers⟩ := ih (step op c).2
    exact ⟨congrArg (op :: ·) hops, congrArg ((step op c).1 :: ·) hanswers⟩

theorem adjoining_walk (ops : List Op) (c : Cursor) :
    Adjoining c.position (walk ops c) (run step ops c).2.position := by
  induction ops generalizing c with
  | nil => rfl
  | cons op ops ih => exact ⟨rfl, ih (step op c).2⟩

theorem lawful_walk (ops : List Op) (hc : c.Within) :
    (∀ m ∈ walk ops c, m.Lawful c.data) ∧ (run step ops c).2.data = c.data ∧
      (run step ops c).2.Within := by
  induction ops generalizing c with
  | nil => exact ⟨fun m hm => (nomatch hm), rfl, hc⟩
  | cons op ops ih =>
    have hstep := lawful_step op hc
    obtain ⟨hrest, hdata, hend⟩ := ih (c := (step op c).2) hstep.within
    refine ⟨?_, hdata, hend⟩
    intro m hm
    rcases List.mem_cons.mp hm with rfl | hm
    · exact hstep
    · exact hrest m hm

/-- The bytes of moves that follow one another are the bytes between their ends. -/
theorem flatMap_span {data : List UInt8} {p q : Nat} {ms : List Move}
    (hms : ∀ m ∈ ms, m.Lawful data) (h : Adjoining p ms q) :
    p ≤ q ∧ ms.flatMap (Move.span data) = slice data p (q - p) := by
  induction ms generalizing p with
  | nil =>
    cases h
    simp [slice]
  | cons m ms ih =>
    obtain ⟨rfl, hrest⟩ := h
    rw [List.forall_mem_cons] at hms
    obtain ⟨hle, hbytes⟩ := ih hms.2 hrest
    have hforward := hms.1.forward
    have hsplit := slice_append data m.first (m.last - m.first) (q - m.last)
    have hlast : m.first + (m.last - m.first) = m.last := by omega
    have hwhole : m.last - m.first + (q - m.last) = q - m.first := by omega
    rw [hlast, hwhole] at hsplit
    refine ⟨by omega, ?_⟩
    rw [List.flatMap_cons, hbytes]
    exact hsplit

/-- **Walks.**  In every run each request moves forward inside the data, if at all; one that fails stays
where it was, unless it reads a compressed number; and one that succeeds answers what the bytes spell
that it moves over, as it does wherever these bytes stand.  The moves follow one another from the front
of the data, and their bytes together are the data in front of the cursor. -/
theorem walk_of_run (data : List UInt8) (ops : List Op) :
    let c := (run step ops (start data)).2
    ((walk ops (start data)).map Move.op = ops ∧
      (walk ops (start data)).map Move.answer = (run step ops (start data)).1) ∧
    (c.data = data ∧ c.position ≤ data.length) ∧
    (∀ m ∈ walk ops (start data), m.Lawful data) ∧
    Adjoining 0 (walk ops (start data)) c.position ∧
    (walk ops (start data)).flatMap (Move.span data) = data.take c.position := by
  have hstart : (start data).Within := Nat.zero_le _
  obtain ⟨hlawful, hdata, hwithin⟩ := lawful_walk ops hstart
  have hadjoining := adjoining_walk ops (start data)
  have hposition : (run step ops (start data)).2.position ≤ data.length := by
    unfold Within at hwithin
    rwa [hdata] at hwithin
  exact ⟨walk_moves ops (start data), ⟨hdata, hposition⟩, hlawful, hadjoining,
    (flatMap_span hlawful hadjoining).2⟩

/-- Reads of every kind, one of bytes that are not there, and a number that is cut off. -/
theorem walk_of_run_mixed :
    let data : List UInt8 := [3, 1, 2, 3, 0x34, 0x12, 0x80]
    let ops : List Op := [.compressed, .bytes 3, .int .u16, .bytes 2, .compressed]
    (⟨.int .u16, 4, 6, .ok (.int 0x1234)⟩ ∈ walk ops (start data) ∧
      Op.Spells (.int .u16) (.int 0x1234) [0x34, 0x12]) ∧
    (⟨.bytes 2, 6, 6, .error .outOfBounds⟩ ∈ walk ops (start data) ∧
      (run step ops (start data)).2.position = 7 ∧
      (walk ops (start data)).flatMap (Move.span data) = data) := by
  intro data ops
  obtain ⟨-, -, hlawful, -, hspan⟩ := walk_of_run data ops
  have hint : ⟨.int .u16, 4, 6, .ok (.int 0x1234)⟩ ∈ walk ops (start data) :=
    List.mem_of_getElem? (i := 2) rfl
  have hbytes : ⟨.bytes 2, 6, 6, .error .outOfBounds⟩ ∈ walk ops (start data) :=
    List.mem_of_getElem? (i := 3) rfl
  exact ⟨⟨hint, (hlawful _ hint).told _ rfl⟩, hbytes, rfl, hspan⟩

end CilMetadata.Bytes.Cursor

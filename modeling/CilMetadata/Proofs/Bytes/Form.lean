import CilMetadata.Bytes.Compressed
import CilMetadata.Proofs.Bytes.Span

/-!
# The forms of a compressed number

A compressed number stands in one of three forms.  Its bytes, most significant first, are the marker
of the form and then the bits of the number: 7 bits in one byte, 14 in two or 29 in four.

* `compressed_of_spells`: a number is read from its bytes, in any form;
* `compressed_cases`: all that a read can answer, and where it stops;
* `shortest_iff`: the written form of a number is its shortest;
* `compressed_grammar`: which bytes are read, as what, and where a read stops.
-/

namespace CilMetadata.Bytes

-- the powers of the core library, also where another instance is in scope
attribute [local instance (2000)] instPowNat

/-- A form of a compressed number. -/
inductive Form where
  | one | two | four
  deriving DecidableEq, Repr

namespace Form

def width : Form → Nat
  | .one => 1
  | .two => 2
  | .four => 4

/-- The numbers that the bits of a form can tell apart. -/
def limit : Form → Nat
  | .one => 0x80
  | .two => 0x4000
  | .four => 0x20000000

/-- The highest bits of a form. -/
def marker : Form → Nat
  | .one => 0b0
  | .two => 0b10
  | .four => 0b110

/-- The first bytes with the same highest bits. -/
def firsts : Form → Nat
  | .one => 0x80
  | .two => 0x40
  | .four => 0x20

/-- A first byte with the marker of a form in its highest bits. -/
def Starts (f : Form) (first : UInt8) : Prop := first.toNat / f.firsts = f.marker

/-- The bytes of a number in a form: the marker and then the bits of the number, most significant
byte first. -/
structure Spells (f : Form) (n : Nat) (bytes : List UInt8) : Prop where
  length_eq : bytes.length = f.width
  lt : n < f.limit
  number_eq : number bytes.reverse = f.marker * f.limit + n

instance (f : Form) (first : UInt8) : Decidable (f.Starts first) := inferInstanceAs (Decidable (_ = _))

instance (f : Form) (n : Nat) (bytes : List UInt8) : Decidable (f.Spells n bytes) :=
  decidable_of_iff (bytes.length = f.width ∧ n < f.limit ∧
      number bytes.reverse = f.marker * f.limit + n)
    ⟨fun ⟨hlen, hlt, heq⟩ => ⟨hlen, hlt, heq⟩, fun ⟨hlen, hlt, heq⟩ => ⟨hlen, hlt, heq⟩⟩

/-! ### One form -/

variable {n : Nat} {bytes : List UInt8} {first : UInt8}

theorem starts_one : one.Starts first ↔ first.toNat < 0x80 := by
  simp only [Starts, firsts, marker]
  omega

theorem starts_two : two.Starts first ↔ 0x80 ≤ first.toNat ∧ first.toNat < 0xC0 := by
  simp only [Starts, firsts, marker]
  omega

theorem starts_four : four.Starts first ↔ 0xC0 ≤ first.toNat ∧ first.toNat < 0xE0 := by
  simp only [Starts, firsts, marker]
  omega

theorem exists_starts (h : first.toNat < 0xE0) : ∃ f : Form, f.Starts first := by
  rcases Nat.lt_or_ge first.toNat 0x80 with h1 | h1
  · exact ⟨.one, starts_one.mpr h1⟩
  rcases Nat.lt_or_ge first.toNat 0xC0 with h2 | h2
  · exact ⟨.two, starts_two.mpr ⟨h1, h2⟩⟩
  · exact ⟨.four, starts_four.mpr ⟨h2, h⟩⟩

theorem number_append_singleton (bs : List UInt8) (a : UInt8) :
    number (bs ++ [a]) = a.toNat * 0x100 ^ bs.length + number bs := by
  induction bs with
  | nil => simp [number]
  | cons b bs ih =>
    rw [List.cons_append, number, number, ih, List.length_cons, Nat.pow_succ]
    have hassoc := Nat.mul_assoc a.toNat (0x100 ^ bs.length) 0x100
    omega

theorem spells_cons {f : Form} {rest : List UInt8} :
    f.Spells n (first :: rest) ↔ f.Starts first ∧ rest.length + 1 = f.width ∧
      n = first.toNat % f.firsts * 0x100 ^ rest.length + number rest.reverse := by
  have hrest : number rest.reverse < 0x100 ^ rest.length := by
    have h := number_lt rest.reverse
    rwa [List.length_reverse] at h
  have hnumber : number (first :: rest).reverse =
      first.toNat * 0x100 ^ rest.length + number rest.reverse := by
    rw [List.reverse_cons, number_append_singleton, List.length_reverse]
  have hsum : rest.length + 1 = f.width →
      (number (first :: rest).reverse = f.marker * f.limit + n ∧ n < f.limit ↔
        f.Starts first ∧ n = first.toNat % f.firsts * 0x100 ^ rest.length + number rest.reverse) := by
    intro hlen
    rw [hnumber]
    rw [Nat.eq_sub_of_add_eq hlen] at hrest ⊢
    cases f <;> simp only [width, Nat.reduceSub, Nat.reducePow] at hrest ⊢ <;>
      simp only [Starts, marker, limit, firsts] <;> omega
  constructor
  · rintro ⟨hlen, hlt, heq⟩
    obtain ⟨hstart, hn⟩ := (hsum hlen).mp ⟨heq, hlt⟩
    exact ⟨hstart, hlen, hn⟩
  · rintro ⟨hstart, hlen, hn⟩
    obtain ⟨heq, hlt⟩ := (hsum hlen).mpr ⟨hstart, hn⟩
    exact ⟨hlen, hlt, heq⟩

theorem Spells.add_le {f : Form} {data : List UInt8} {offset : Nat}
    (h : f.Spells n (slice data offset f.width)) :
    offset + f.width ≤ data.length := by
  rcases length_slice.mp h.length_eq with h0 | hle
  · cases f <;> cases h0
  · exact hle

/-- A form is complete at a position of some data. -/
def Complete (f : Form) (data : List UInt8) (offset : Nat) : Prop :=
  (∃ first, data[offset]? = some first ∧ f.Starts first) ∧ offset + f.width ≤ data.length

/-- A number is spelled exactly where a form is complete. -/
theorem exists_spells_iff {f : Form} {data : List UInt8} {offset : Nat} :
    (∃ n, f.Spells n (slice data offset f.width)) ↔ f.Complete data offset := by
  have hwidth : f.width - 1 + 1 = f.width := by cases f <;> rfl
  have hslice : ∀ first, data[offset]? = some first →
      slice data offset f.width = first :: slice data (offset + 1) (f.width - 1) := by
    intro first hfirst
    rw [← slice_succ hfirst, hwidth]
  constructor
  · rintro ⟨n, hn⟩
    have hle := hn.add_le
    have hlt : offset < data.length := by omega
    have hfirst := List.getElem?_eq_getElem hlt
    rw [hslice _ hfirst, spells_cons] at hn
    exact ⟨⟨_, hfirst, hn.1⟩, hle⟩
  · rintro ⟨⟨first, hfirst, hf⟩, hle⟩
    have hlength : (slice data (offset + 1) (f.width - 1)).length = f.width - 1 :=
      length_slice.mpr (.inr (by omega))
    rw [hslice first hfirst]
    exact ⟨_, spells_cons.mpr ⟨hf, by rw [hlength, hwidth], rfl⟩⟩

theorem width_injective {f g : Form} (h : f.width = g.width) : f = g := by
  cases f <;> cases g <;> first | rfl | cases h

theorem limit_le (f : Form) : f.limit ≤ 0x20000000 := by
  cases f <;> decide

/-- The bytes of a number are told by how many they are. -/
theorem Spells.unique {f g : Form} {bytes' : List UInt8} (hf : f.Spells n bytes)
    (hg : g.Spells n bytes') (hlen : bytes.length = bytes'.length) : bytes = bytes' := by
  have hform : f = g := width_injective (by rw [← hf.length_eq, ← hg.length_eq, hlen])
  subst hform
  have hspell := spell_number bytes.reverse
  rw [hf.number_eq, ← hg.number_eq, List.length_reverse, hlen, ← List.length_reverse, spell_number]
    at hspell
  exact (List.reverse_inj.mp hspell).symm

end Form

/-! ### The written form -/

/-- The bytes of a number in a form that takes no more bytes than any other form of it. -/
def Shortest (n : Nat) (bytes : List UInt8) : Prop :=
  (∃ f : Form, f.Spells n bytes) ∧ ∀ (f : Form) bytes', f.Spells n bytes' → bytes.length ≤ bytes'.length

theorem exists_spells_compress {n : Nat} (hn : n < 0x20000000) :
    ∃ f : Form, f.Spells n (compress n) ∧ ∀ g : Form, n < g.limit → f.width ≤ g.width := by
  unfold compress
  split
  · rename_i hlt
    refine ⟨.one, Form.spells_cons.mpr ⟨?_, rfl, ?_⟩, fun g _ => by cases g <;> decide⟩
    · rw [Form.starts_one, UInt8.toNat_ofNat']
      omega
    · simp only [Form.firsts, number, List.reverse_nil, List.length_nil, UInt8.toNat_ofNat']
      omega
  split
  · rename_i hge hlt
    refine ⟨.two, Form.spells_cons.mpr ⟨?_, rfl, ?_⟩, fun g hg => ?_⟩
    · rw [Form.starts_two, UInt8.toNat_ofNat']
      omega
    · simp only [Form.firsts, number, List.reverse_cons, List.reverse_nil, List.nil_append,
        List.length_cons, List.length_nil, UInt8.toNat_ofNat']
      omega
    · cases g with
      | one => exact absurd hg hge
      | two => decide
      | four => decide
  · rename_i hge
    refine ⟨.four, Form.spells_cons.mpr ⟨?_, rfl, ?_⟩, fun g hg => ?_⟩
    · rw [Form.starts_four, UInt8.toNat_ofNat']
      omega
    · simp only [Form.firsts, number, List.reverse_cons, List.reverse_nil, List.nil_append,
        List.cons_append, List.length_cons, List.length_nil, UInt8.toNat_ofNat']
      omega
    · cases g with
      | one => exact absurd (show n < 0x80 from hg) (by omega)
      | two => exact absurd hg hge
      | four => decide

/-- **Written form.**  A number is written in its shortest form, and this is told by its length. -/
theorem shortest_iff {n : Nat} (hn : n < 0x20000000) {bytes : List UInt8} :
    Shortest n bytes ↔ bytes = compress n := by
  obtain ⟨f, hf, hleast⟩ := exists_spells_compress hn
  have hle : ∀ (g : Form) bytes', g.Spells n bytes' → (compress n).length ≤ bytes'.length := by
    intro g bytes' hg
    rw [hf.length_eq, hg.length_eq]
    exact hleast g hg.lt
  constructor
  · rintro ⟨⟨g, hg⟩, hshort⟩
    exact hg.unique hf (Nat.le_antisymm (hshort f _ hf) (hle g bytes hg))
  · rintro rfl
    exact ⟨⟨f, hf⟩, hle⟩

/-! ### Reads -/

namespace Reader

open Form

variable {data : List UInt8} {offset n : Nat} {first : UInt8} {f : Form}

theorem exists_getElem? (data : List UInt8) (i : Nat) (h : i < data.length) : ∃ b, data[i]? = some b :=
  ⟨_, List.getElem?_eq_getElem h⟩

/-- **Reading a form.**  A number is read from its bytes in any form, and the read moves over exactly
these. -/
theorem compressed_of_spells (h : f.Spells n (slice data offset f.width)) :
    compressed.run data offset = (.ok n, offset + f.width) := by
  have hle := h.add_le
  cases f with
  | one =>
    change offset + 1 ≤ data.length at hle
    obtain ⟨a, ha⟩ := exists_getElem? data offset (by omega)
    rw [width, slice_succ ha, spells_cons, starts_one] at h
    obtain ⟨hstart, -, rfl⟩ := h
    rw [compressed_one ha hstart]
    simp [firsts, slice, number, width, Nat.mod_eq_of_lt hstart]
  | two =>
    change offset + 2 ≤ data.length at hle
    obtain ⟨a, ha⟩ := exists_getElem? data offset (by omega)
    obtain ⟨b, hb⟩ := exists_getElem? data (offset + 1) (by omega)
    rw [width, slice_succ ha, slice_succ hb, spells_cons, starts_two] at h
    obtain ⟨hstart, -, rfl⟩ := h
    rw [compressed_two ha hb hstart.1 hstart.2]
    simp [firsts, slice, number, width]
  | four =>
    change offset + 4 ≤ data.length at hle
    obtain ⟨a, ha⟩ := exists_getElem? data offset (by omega)
    obtain ⟨b, hb⟩ := exists_getElem? data (offset + 1) (by omega)
    obtain ⟨c, hc⟩ := exists_getElem? data (offset + 2) (by omega)
    obtain ⟨d, hd⟩ := exists_getElem? data (offset + 3) (by omega)
    rw [width, slice_succ ha, slice_succ hb, slice_succ hc, slice_succ hd, spells_cons, starts_four] at h
    obtain ⟨hstart, -, rfl⟩ := h
    rw [compressed_four ha hb hc hd hstart.1 hstart.2]
    simp [firsts, slice, number, width]
    omega

theorem compressed_end (h : data[offset]? = none) :
    compressed.run data offset = (.error .outOfBounds, offset) := by
  rw [compressed, run_bind_error (byte_eq_error h)]

/-- A form that is cut off uses up the data. -/
theorem compressed_cut (ha : data[offset]? = some first) (hf : f.Starts first)
    (hcut : data.length < offset + f.width) :
    compressed.run data offset = (.error .outOfBounds, data.length) := by
  have hlt : offset < data.length := (List.getElem?_eq_some_iff.mp ha).1
  have hfirst : ∀ c : UInt8, c.toNat ≤ first.toNat → ¬ first < c := fun c hc h =>
    Nat.not_lt.mpr hc (UInt8.lt_iff_toNat_lt.mp h)
  have hpast : ∀ i, data.length = i → byte.run data i = (.error .outOfBounds, data.length) := by
    rintro i rfl
    exact byte_eq_error (List.getElem?_eq_none (Nat.le_refl _))
  cases f with
  | one =>
    change data.length < offset + 1 at hcut
    omega
  | two =>
    change data.length < offset + 2 at hcut
    rw [starts_two] at hf
    rw [compressed, run_bind_ok (byte_eq_ok ha), if_neg (hfirst 0x80 hf.1),
      if_pos (UInt8.lt_iff_toNat_lt.mpr hf.2), run_bind_error (hpast _ (by omega))]
  | four =>
    change data.length < offset + 4 at hcut
    rw [starts_four] at hf
    rw [compressed, run_bind_ok (byte_eq_ok ha), if_neg (hfirst 0x80 (Nat.le_trans (by decide) hf.1)),
      if_neg (hfirst 0xC0 hf.1), if_pos (UInt8.lt_iff_toNat_lt.mpr hf.2)]
    -- the first of the other bytes that is not there ends the read
    rcases Nat.lt_or_ge (offset + 1) data.length with h1 | h1
    · obtain ⟨b, hb⟩ := exists_getElem? data (offset + 1) h1
      rw [run_bind_ok (byte_eq_ok hb)]
      rcases Nat.lt_or_ge (offset + 2) data.length with h2 | h2
      · obtain ⟨c, hc⟩ := exists_getElem? data (offset + 2) h2
        rw [run_bind_ok (byte_eq_ok hc), run_bind_error (hpast _ (by omega))]
      · rw [run_bind_error (hpast _ (by omega))]
    · rw [run_bind_error (hpast _ (by omega))]

/-- **Reading.**  There is no byte to read; or the first byte starts no form, and it alone is used up;
or the form that it starts is cut off, and the data are used up; or the number of the form is read. -/
theorem compressed_cases (data : List UInt8) (offset : Nat) :
    (data[offset]? = none ∧ compressed.run data offset = (.error .outOfBounds, offset)) ∨
    ∃ first, data[offset]? = some first ∧
      ((0xE0 ≤ first.toNat ∧
        compressed.run data offset = (.error (.malformed (.compressedMarker first)), offset + 1)) ∨
      ∃ f : Form, f.Starts first ∧
        ((data.length < offset + f.width ∧
          compressed.run data offset = (.error .outOfBounds, data.length)) ∨
        ∃ n, f.Spells n (slice data offset f.width) ∧
          compressed.run data offset = (.ok n, offset + f.width))) := by
  cases ha : data[offset]? with
  | none => exact .inl ⟨rfl, compressed_end ha⟩
  | some first =>
    refine .inr ⟨first, rfl, ?_⟩
    rcases Nat.lt_or_ge first.toNat 0xE0 with hlt | hge
    · obtain ⟨f, hf⟩ := exists_starts hlt
      refine .inr ⟨f, hf, ?_⟩
      rcases Nat.lt_or_ge data.length (offset + f.width) with hcut | hle
      · exact .inl ⟨hcut, compressed_cut ha hf hcut⟩
      · obtain ⟨n, hn⟩ := exists_spells_iff.mpr ⟨⟨first, ha, hf⟩, hle⟩
        exact .inr ⟨n, hn, compressed_of_spells hn⟩
    · exact .inl ⟨hge, compressed_marker ha hge⟩

theorem compressed_eq_ok_iff {next : Nat} : compressed.run data offset = (.ok n, next) ↔
    ∃ f : Form, f.Spells n (slice data offset f.width) ∧ next = offset + f.width := by
  constructor
  · intro h
    rcases compressed_cases data offset with
      ⟨-, hrun⟩ | ⟨first, -, ⟨-, hrun⟩ | ⟨f, -, ⟨-, hrun⟩ | ⟨m, hm, hrun⟩⟩⟩ <;> rw [h] at hrun <;> cases hrun
    exact ⟨f, hm, rfl⟩
  · rintro ⟨f, hf, rfl⟩
    exact compressed_of_spells hf

end Reader

/-- How a compressed number is read at a position. -/
structure ReadsForms (data : List UInt8) (offset : Nat) : Prop where
  succeeds_iff : (∃ n next, Reader.compressed.run data offset = (.ok n, next)) ↔
    ∃ f : Form, f.Complete data offset
  ok_iff : ∀ n next, Reader.compressed.run data offset = (.ok n, next) ↔
    ∃ f : Form, f.Spells n (slice data offset f.width) ∧ next = offset + f.width
  lt : ∀ n next, Reader.compressed.run data offset = (.ok n, next) → n < 0x20000000
  marker : ∀ first, data[offset]? = some first → first.toNat / 0x20 = 0b111 →
    Reader.compressed.run data offset = (.error (.malformed (.compressedMarker first)), offset + 1)
  nothing : data.length ≤ offset → Reader.compressed.run data offset = (.error .outOfBounds, offset)
  cut : ∀ (f : Form) first, data[offset]? = some first → f.Starts first →
    data.length < offset + f.width →
    Reader.compressed.run data offset = (.error .outOfBounds, data.length)

theorem readsForms (data : List UInt8) (offset : Nat) : ReadsForms data offset where
  succeeds_iff := by
    constructor
    · rintro ⟨n, next, h⟩
      obtain ⟨f, hf, -⟩ := Reader.compressed_eq_ok_iff.mp h
      exact ⟨f, Form.exists_spells_iff.mp ⟨n, hf⟩⟩
    · rintro ⟨f, hf⟩
      obtain ⟨n, hn⟩ := Form.exists_spells_iff.mpr hf
      exact ⟨n, _, Reader.compressed_of_spells hn⟩
  ok_iff _ _ := Reader.compressed_eq_ok_iff
  lt n next h := by
    obtain ⟨f, hf, -⟩ := Reader.compressed_eq_ok_iff.mp h
    exact Nat.lt_of_lt_of_le hf.lt f.limit_le
  marker first hfirst h := Reader.compressed_marker hfirst (by omega)
  nothing h := Reader.compressed_end (List.getElem?_eq_none h)
  cut _ _ hfirst hf h := Reader.compressed_cut hfirst hf h

/-- **Grammar.**  A read succeeds exactly where a form is complete.  It answers the number that the bits
after the marker spell, which is below `2 ^ 29`, and moves over the bytes of the form; where it fails it
stays, moves over the byte that starts no form, or uses up the data.  The shortest form of a number is
read exactly, whatever stands around it. -/
theorem compressed_grammar :
    (∀ data offset, ReadsForms data offset) ∧
    ∀ n, n < 0x20000000 → (∀ bytes, Shortest n bytes ↔ bytes = compress n) ∧
      ∀ before rest, Reader.compressed.run (before ++ (compress n ++ rest)) before.length =
        (.ok n, before.length + (compress n).length) := by
  refine ⟨readsForms, fun n hn => ⟨fun bytes => shortest_iff hn, fun before rest => ?_⟩⟩
  exact compressed_compress hn before rest

/-- The first number of four bytes between two others, and the first byte of two alone. -/
theorem compressed_grammar_sample :
    (0x4000 < 0x20000000 ∧
      Reader.compressed.run ([7] ++ (compress 0x4000 ++ [9])) 1 = (.ok 0x4000, 5)) ∧
    (Form.two.Starts 0x80 ∧ Reader.compressed.run [0x80] 0 = (.error .outOfBounds, 1)) := by
  have hstart : Form.two.Starts 0x80 := by decide
  refine ⟨⟨by decide, (compressed_grammar.2 0x4000 (by decide)).2 [7] [9]⟩, hstart, ?_⟩
  exact (compressed_grammar.1 [0x80] 0).cut .two 0x80 rfl hstart (by decide)

end CilMetadata.Bytes

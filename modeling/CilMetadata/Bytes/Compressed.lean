import CilMetadata.Bytes.LittleEndian

/-!
# Compressed numbers

A number below `2 ^ 29` is stored in one, two or four bytes, most significant byte first.  The
highest bits of the first byte tell the form: `0` one byte, `10` two bytes, `110` four bytes.

* `compressed_compress`: the shortest form of a number reads back, whatever stands around it.
-/

namespace CilMetadata.Bytes

/-- The next compressed number, read byte by byte: a form that is cut off uses up the buffer, and a
first byte that starts no form is used up too. -/
def Reader.compressed : Reader Nat := do
  let first ← byte
  if first < 0x80 then
    return first.toNat
  else if first < 0xC0 then
    let second ← byte
    return first.toNat % 0x40 * 0x100 + second.toNat
  else if first < 0xE0 then
    let second ← byte
    let third ← byte
    let fourth ← byte
    return first.toNat % 0x20 * 0x1000000 + second.toNat * 0x10000 + third.toNat * 0x100
      + fourth.toNat
  else
    ofExcept (.error (.malformed (.compressedMarker first)))

/-- The shortest form of a number below `2 ^ 29`. -/
def compress (n : Nat) : List UInt8 :=
  if n < 0x80 then [UInt8.ofNat n]
  else if n < 0x4000 then [UInt8.ofNat (0x80 + n / 0x100), UInt8.ofNat (n % 0x100)]
  else [UInt8.ofNat (0xC0 + n / 0x1000000), UInt8.ofNat (n / 0x10000 % 0x100),
    UInt8.ofNat (n / 0x100 % 0x100), UInt8.ofNat (n % 0x100)]

/-! ### Laws -/

namespace Reader

variable {data : List UInt8} {offset : Nat} {a b c d : UInt8}

theorem compressed_one (h : data[offset]? = some a) (ha : a.toNat < 0x80) :
    compressed.run data offset = (.ok a.toNat, offset + 1) := by
  rw [compressed, run_bind_ok (byte_eq_ok h), if_pos (UInt8.lt_iff_toNat_lt.mpr ha), run_pure]

theorem compressed_two (h : data[offset]? = some a) (hb : data[offset + 1]? = some b)
    (hge : 0x80 ≤ a.toNat) (hlt : a.toNat < 0xC0) :
    compressed.run data offset = (.ok (a.toNat % 0x40 * 0x100 + b.toNat), offset + 2) := by
  rw [compressed, run_bind_ok (byte_eq_ok h),
    if_neg (fun hc => Nat.not_lt.mpr hge (UInt8.lt_iff_toNat_lt.mp hc)),
    if_pos (UInt8.lt_iff_toNat_lt.mpr hlt), run_bind_ok (byte_eq_ok hb), run_pure]

theorem compressed_four (h : data[offset]? = some a) (hb : data[offset + 1]? = some b)
    (hc : data[offset + 2]? = some c) (hd : data[offset + 3]? = some d)
    (hge : 0xC0 ≤ a.toNat) (hlt : a.toNat < 0xE0) :
    compressed.run data offset
      = (.ok (a.toNat % 0x20 * 0x1000000 + b.toNat * 0x10000 + c.toNat * 0x100 + d.toNat),
        offset + 4) := by
  rw [compressed, run_bind_ok (byte_eq_ok h),
    if_neg (fun hc => Nat.not_lt.mpr (Nat.le_trans (by decide) hge) (UInt8.lt_iff_toNat_lt.mp hc)),
    if_neg (fun hc => Nat.not_lt.mpr hge (UInt8.lt_iff_toNat_lt.mp hc)),
    if_pos (UInt8.lt_iff_toNat_lt.mpr hlt), run_bind_ok (byte_eq_ok hb),
    run_bind_ok (byte_eq_ok hc), run_bind_ok (byte_eq_ok hd), run_pure]

theorem compressed_marker (h : data[offset]? = some a) (hge : 0xE0 ≤ a.toNat) :
    compressed.run data offset = (.error (.malformed (.compressedMarker a)), offset + 1) := by
  rw [compressed, run_bind_ok (byte_eq_ok h),
    if_neg (fun hc => Nat.not_lt.mpr (Nat.le_trans (by decide) hge) (UInt8.lt_iff_toNat_lt.mp hc)),
    if_neg (fun hc => Nat.not_lt.mpr (Nat.le_trans (by decide) hge) (UInt8.lt_iff_toNat_lt.mp hc)),
    if_neg (fun hc => Nat.not_lt.mpr hge (UInt8.lt_iff_toNat_lt.mp hc)), run_ofExcept]

end Reader

open Reader

/-- **Reading back.**  The shortest form of a number is read exactly, whatever stands around it. -/
theorem compressed_compress {n : Nat} (hn : n < 0x20000000) (before rest : List UInt8) :
    compressed.run (before ++ (compress n ++ rest)) before.length
      = (.ok n, before.length + (compress n).length) := by
  unfold compress
  split
  · have ha : (UInt8.ofNat n).toNat = n := by rw [UInt8.toNat_ofNat']; omega
    rw [compressed_one (a := UInt8.ofNat n) (by simp) (by omega), ha]
    rfl
  · split
    · have ha : (UInt8.ofNat (0x80 + n / 0x100)).toNat = 0x80 + n / 0x100 := by
        rw [UInt8.toNat_ofNat']; omega
      have hb : (UInt8.ofNat (n % 0x100)).toNat = n % 0x100 := by rw [UInt8.toNat_ofNat']; omega
      rw [compressed_two (a := UInt8.ofNat (0x80 + n / 0x100)) (b := UInt8.ofNat (n % 0x100))
        (by simp) (by simp) (by omega) (by omega), ha, hb]
      simp only [List.length_cons, List.length_nil, Prod.mk.injEq, Except.ok.injEq, and_true]
      omega
    · have ha : (UInt8.ofNat (0xC0 + n / 0x1000000)).toNat = 0xC0 + n / 0x1000000 := by
        rw [UInt8.toNat_ofNat']; omega
      have hb : (UInt8.ofNat (n / 0x10000 % 0x100)).toNat = n / 0x10000 % 0x100 := by
        rw [UInt8.toNat_ofNat']; omega
      have hc : (UInt8.ofNat (n / 0x100 % 0x100)).toNat = n / 0x100 % 0x100 := by
        rw [UInt8.toNat_ofNat']; omega
      have hd : (UInt8.ofNat (n % 0x100)).toNat = n % 0x100 := by rw [UInt8.toNat_ofNat']; omega
      rw [compressed_four (a := UInt8.ofNat (0xC0 + n / 0x1000000))
        (b := UInt8.ofNat (n / 0x10000 % 0x100)) (c := UInt8.ofNat (n / 0x100 % 0x100))
        (d := UInt8.ofNat (n % 0x100)) (by simp) (by simp) (by simp) (by simp) (by omega)
        (by omega), ha, hb, hc, hd]
      simp only [List.length_cons, List.length_nil, Prod.mk.injEq, Except.ok.injEq, and_true]
      omega

end CilMetadata.Bytes

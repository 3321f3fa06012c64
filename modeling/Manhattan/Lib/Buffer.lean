import Mathlib.Data.List.GetD

/-!
# Buffers that are filled only in part

A receive call writes as many bytes as it got into the caller's buffer and leaves
the rest of it alone. Memory is a function from offsets to bytes, total because a
C program may read past the end of its buffer as well; `overlay bs m` is `m` after
the bytes `bs` were written at its start. What lies behind them is whatever was
there before, and `overlay_lt`, `overlay_ge` say exactly where the one ends and
the other begins.

The reading functions follow the C types of a little-endian machine (`u32le`,
`i32le`) and network order (`u16be`); `slice` is `memcpy`. Each comes with the
lemma that it looks at its own bytes only.
-/

namespace Manhattan.Lib

abbrev Mem := Nat → UInt8

/-- `m` after the bytes `bs` were written at offset 0. -/
def overlay (bs : List UInt8) (m : Mem) : Mem := fun i => bs.getD i (m i)

/-- Inside the written bytes the old content does not matter. -/
theorem overlay_lt {bs : List UInt8} {i : Nat} (h : i < bs.length) (m : Mem) :
    overlay bs m i = bs.getD i 0 := by
  unfold overlay
  rw [List.getD_eq_getElem _ _ h, List.getD_eq_getElem _ _ h]

theorem overlay_ge {bs : List UInt8} {i : Nat} (h : bs.length ≤ i) (m : Mem) :
    overlay bs m i = m i := by
  unfold overlay
  rw [List.getD_eq_default _ _ h]

/-- The bytes `bs` alone, in a memory of zeros. -/
def bytes (bs : List UInt8) : Mem := overlay bs fun _ => 0

theorem overlay_eq_bytes {bs : List UInt8} {i : Nat} (h : i < bs.length) (m : Mem) :
    overlay bs m i = bytes bs i := by
  unfold bytes
  rw [overlay_lt h, overlay_lt h]

/-- `len` bytes from offset `off` on. -/
def slice (m : Mem) (off len : Nat) : List UInt8 := (List.range len).map fun i => m (off + i)

theorem slice_length (m : Mem) (off len : Nat) : (slice m off len).length = len := by
  unfold slice
  rw [List.length_map, List.length_range]

theorem slice_congr {m m' : Mem} {o len : Nat}
    (h : ∀ i, o ≤ i → i < o + len → m i = m' i) : slice m o len = slice m' o len := by
  unfold slice
  refine List.map_congr_left fun i hi => ?_
  have := List.mem_range.mp hi
  exact h _ (by omega) (by omega)

theorem slice_getElem? (m : Mem) {off len i : Nat} (h : i < len) :
    (slice m off len)[i]? = some (m (off + i)) := by
  unfold slice
  rw [List.getElem?_map, List.getElem?_range h]
  rfl

/-- A slice of the written bytes. -/
theorem slice_overlay {bs : List UInt8} {off len : Nat} (h : off + len ≤ bs.length) (m : Mem) :
    slice (overlay bs m) off len = (bs.drop off).take len := by
  refine List.ext_getElem? fun i => ?_
  by_cases hi : i < len
  · rw [slice_getElem? _ hi, overlay_lt (by omega), List.getElem?_take_of_lt hi, List.getElem?_drop,
      List.getD_eq_getElem _ _ (by omega), List.getElem?_eq_getElem]
  · rw [List.getElem?_eq_none (by rw [slice_length]; omega),
      List.getElem?_eq_none (by rw [List.length_take]; omega)]

/-- Two slices side by side. -/
theorem slice_append (m : Mem) (off n k : Nat) :
    slice m off n ++ slice m (off + n) k = slice m off (n + k) := by
  unfold slice
  rw [List.range_add, List.map_append, List.map_map]
  congr 1
  refine List.map_congr_left fun i _ => ?_
  rw [Function.comp_apply, Nat.add_assoc]

theorem slice_take (m : Mem) (off : Nat) {n len : Nat} (h : n ≤ len) :
    slice m off n <+: slice m off len := by
  refine ⟨slice m (off + n) (len - n), ?_⟩
  rw [slice_append, Nat.add_sub_cancel' h]

/-- The first part of known bytes. -/
theorem slice_left {m : Mem} {off : Nat} {b c : List UInt8}
    (h : slice m off (b.length + c.length) = b ++ c) : slice m off b.length = b := by
  rw [← slice_append] at h
  exact List.append_inj_left h (slice_length m off b.length)

/-- `m` after the bytes `bs` were written from offset `off` on. -/
def writeAt (off : Nat) (bs : List UInt8) (m : Mem) : Mem :=
  fun i => if i < off then m i else bs.getD (i - off) (m i)

theorem writeAt_outside {off i : Nat} {bs : List UInt8} (h : i < off ∨ off + bs.length ≤ i)
    (m : Mem) : writeAt off bs m i = m i := by
  unfold writeAt
  by_cases hi : i < off
  · rw [if_pos hi]
  · rw [if_neg hi, List.getD_eq_default _ _ (by omega)]

theorem writeAt_inside {off i : Nat} {bs : List UInt8} (h : i < bs.length) (m : Mem) :
    writeAt off bs m (off + i) = bs.getD i 0 := by
  unfold writeAt
  rw [if_neg (by omega), Nat.add_sub_cancel_left, List.getD_eq_getElem _ _ h,
    List.getD_eq_getElem _ _ h]

theorem slice_writeAt (off : Nat) (bs : List UInt8) (m : Mem) :
    slice (writeAt off bs m) off bs.length = bs := by
  refine List.ext_getElem? fun i => ?_
  by_cases hi : i < bs.length
  · rw [slice_getElem? _ hi, writeAt_inside hi, List.getD_eq_getElem _ _ hi,
      List.getElem?_eq_getElem hi]
  · rw [List.getElem?_eq_none (by rw [slice_length]; omega), List.getElem?_eq_none (by omega)]

/-- A 32-bit unsigned integer, least significant byte first. -/
def u32le (m : Mem) (off : Nat) : Nat :=
  (m off).toNat + 256 * (m (off + 1)).toNat + 65536 * (m (off + 2)).toNat +
    16777216 * (m (off + 3)).toNat

/-- The same bytes as a two's complement integer. -/
def i32le (m : Mem) (off : Nat) : Int :=
  if u32le m off < 2147483648 then u32le m off else (u32le m off : Int) - 4294967296

/-- A 16-bit unsigned integer in network order. -/
def u16be (m : Mem) (off : Nat) : Nat := 256 * (m off).toNat + (m (off + 1)).toNat

theorem u32le_congr {m m' : Mem} {off : Nat} (h : ∀ i, off ≤ i → i < off + 4 → m i = m' i) :
    u32le m off = u32le m' off := by
  unfold u32le
  rw [h off (by omega) (by omega), h (off + 1) (by omega) (by omega),
    h (off + 2) (by omega) (by omega), h (off + 3) (by omega) (by omega)]

theorem i32le_congr {m m' : Mem} {off : Nat} (h : ∀ i, off ≤ i → i < off + 4 → m i = m' i) :
    i32le m off = i32le m' off := by
  unfold i32le
  rw [u32le_congr h]

/-- The most significant byte can be read back. -/
theorem u32le_top (m : Mem) (off : Nat) : u32le m off / 16777216 = (m (off + 3)).toNat := by
  have h₀ := (m off).toNat_lt
  have h₁ := (m (off + 1)).toNat_lt
  have h₂ := (m (off + 2)).toNat_lt
  unfold u32le
  omega

theorem u32le_lt (m : Mem) (off : Nat) : u32le m off < 4294967296 := by
  have h₀ := (m off).toNat_lt
  have h₁ := (m (off + 1)).toNat_lt
  have h₂ := (m (off + 2)).toNat_lt
  have h₃ := (m (off + 3)).toNat_lt
  unfold u32le
  omega

/-- Equal signed integers have equal bit patterns. -/
theorem u32le_of_i32le {m m' : Mem} {off : Nat} (h : i32le m off = i32le m' off) :
    u32le m off = u32le m' off := by
  have hm := u32le_lt m off
  have hm' := u32le_lt m' off
  unfold i32le at h
  split at h <;> split at h <;> omega

theorem u16be_congr {m m' : Mem} {off : Nat} (h : ∀ i, off ≤ i → i < off + 2 → m i = m' i) :
    u16be m off = u16be m' off := by
  unfold u16be
  rw [h off (by omega) (by omega), h (off + 1) (by omega) (by omega)]

end Manhattan.Lib

import Mathlib.Data.List.Basic
import Mathlib.Tactic.Ring

/-!
# Bytes at Offsets

A reader of a byte array keeps an offset. `At bytes offset rest` says what is still to be read
there, so that what a reader does can be said of the front of `rest`, without offsets.

Numbers of several bytes are little-endian: `littleEndian` reads them and `spell` writes them.
-/

namespace Bytes

variable {k n position start stop : ℕ} {fields : List (ℕ × ℕ)} {widths : List ℕ}
variable {b : UInt8}

/-- The number that the bytes spell, the lowest first. -/
def littleEndian : List UInt8 → ℕ
  | [] => 0
  | b :: bs => b.toNat + 256 * littleEndian bs

/-- The lowest bytes of a number. -/
def spell : ℕ → ℕ → List UInt8
  | 0, _ => []
  | k + 1, n => UInt8.ofNat n :: spell k (n / 256)

theorem toNat_ofNat (n : ℕ) : (UInt8.ofNat n).toNat = n % 256 := UInt8.toNat_ofNat'

theorem littleEndian_lt (bs : List UInt8) : littleEndian bs < 256 ^ bs.length := by
  induction bs with
  | nil => exact Nat.one_pos
  | cons b bs ih =>
    have hb := b.toNat_lt
    rw [littleEndian, List.length_cons, pow_succ]
    omega

@[simp] theorem length_spell (k n : ℕ) : (spell k n).length = k := by
  induction k generalizing n with
  | zero => rfl
  | succ k ih => rw [spell, List.length_cons, ih]

theorem littleEndian_spell (h : n < 256 ^ k) : littleEndian (spell k n) = n := by
  induction k generalizing n with
  | zero =>
    rw [pow_zero, Nat.lt_one_iff] at h
    rw [h]
    rfl
  | succ k ih =>
    rw [pow_succ] at h
    rw [spell, littleEndian, toNat_ofNat, ih (Nat.div_lt_of_lt_mul (by rwa [mul_comm] at h))]
    omega

theorem spell_littleEndian (bs : List UInt8) : spell bs.length (littleEndian bs) = bs := by
  induction bs with
  | nil => rfl
  | cons b bs ih =>
    have hb := b.toNat_lt
    rw [List.length_cons, spell, littleEndian]
    congr 1
    · rw [← UInt8.toNat_inj, toNat_ofNat]
      omega
    · rw [show (b.toNat + 256 * littleEndian bs) / 256 = littleEndian bs by omega, ih]

theorem littleEndian_concat (bs : List UInt8) (b : UInt8) :
    littleEndian (bs ++ [b]) = littleEndian bs + b.toNat * 256 ^ bs.length := by
  induction bs with
  | nil => simp [littleEndian]
  | cons c bs ih =>
    rw [List.cons_append, littleEndian, littleEndian, ih, List.length_cons]
    ring

/-! ### What is at an offset -/

/-- `bytes.subarray(start, stop)` -/
def slice (bytes : List UInt8) (start stop : ℕ) : List UInt8 := (bytes.take stop).drop start

/-- The number of two bytes at the offset. -/
def uint16 (bytes : List UInt8) (offset : ℕ) : ℕ := littleEndian (slice bytes offset (offset + 2))

/-- The number of four bytes at the offset. -/
def uint32 (bytes : List UInt8) (offset : ℕ) : ℕ := littleEndian (slice bytes offset (offset + 4))

/-- Numbers one after the other, each with its width. -/
def layout (fields : List (ℕ × ℕ)) : List UInt8 := fields.flatMap fun field => spell field.1 field.2

/-- How many bytes the numbers take. -/
def width (fields : List (ℕ × ℕ)) : ℕ := (fields.map Prod.fst).sum

theorem length_layout (fields : List (ℕ × ℕ)) : (layout fields).length = width fields := by
  induction fields with
  | nil => rfl
  | cons field fields ih =>
    rw [layout, List.flatMap_cons, List.length_append, length_spell]
    exact congrArg (field.1 + ·) ih

/-- What is to be read from the offset on. -/
structure At (bytes : List UInt8) (offset : ℕ) (rest : List UInt8) : Prop where
  le : offset ≤ bytes.length
  drop : bytes.drop offset = rest

variable {bytes xs rest : List UInt8} {offset : ℕ}

theorem at_zero (bytes : List UInt8) : At bytes 0 bytes := ⟨Nat.zero_le _, rfl⟩

theorem at_append (front rest : List UInt8) : At (front ++ rest) front.length rest :=
  ⟨by rw [List.length_append]; exact Nat.le_add_right _ _, List.drop_left⟩

theorem exists_at (h : offset ≤ bytes.length) : ∃ rest, At bytes offset rest := ⟨_, h, rfl⟩

namespace At

theorem length (h : At bytes offset rest) : offset + rest.length = bytes.length := by
  rw [← h.drop, List.length_drop]
  have := h.le
  omega

/-- The offset after what is at the front. -/
theorem skip (h : At bytes offset (xs ++ rest)) : At bytes (offset + xs.length) rest := by
  have hlength := h.length
  rw [List.length_append] at hlength
  refine ⟨by omega, ?_⟩
  rw [← List.drop_drop, h.drop, List.drop_left]

theorem skip_one (h : At bytes offset (b :: rest)) : At bytes (offset + 1) rest :=
  (show At bytes offset ([b] ++ rest) from h).skip

/-- An offset from an offset. -/
theorem trans {tail : List UInt8} (h : At bytes offset tail) (htail : At tail k rest) :
    At bytes (offset + k) rest := by
  have hlength := h.length
  have hle := htail.le
  exact ⟨by omega, by rw [← List.drop_drop, h.drop, htail.drop]⟩

/-- The bytes at the front. -/
theorem slice (h : At bytes offset (xs ++ rest)) :
    slice bytes offset (offset + xs.length) = xs := by
  rw [Bytes.slice, List.drop_take, h.drop, Nat.add_sub_cancel_left, List.take_left]

theorem head (h : At bytes offset (b :: rest)) : bytes[offset]? = some b := by
  have hhead : (bytes.drop offset)[0]? = bytes[offset + 0]? := List.getElem?_drop
  rw [h.drop, Nat.add_zero] at hhead
  exact hhead.symm

section

variable (h : At bytes offset rest)
include h

theorem nil_iff : rest = [] ↔ bytes.length ≤ offset := by
  have := h.length
  rw [← List.length_eq_zero_iff]
  omega

/-- As many bytes as there are. -/
theorem exists_front (hn : offset + n ≤ bytes.length) :
    ∃ xs rest', rest = xs ++ rest' ∧ xs.length = n := by
  have := h.length
  exact ⟨rest.take n, rest.drop n, (List.take_append_drop n rest).symm,
    List.length_take_of_le (by omega)⟩

/-- A byte, where there is one. -/
theorem exists_head (hn : offset < bytes.length) : ∃ b rest', rest = b :: rest' := by
  have := h.length
  exact List.exists_cons_of_length_pos (by omega)

/-- A slice of what is at the offset. -/
theorem slice_add (i j : ℕ) :
    Bytes.slice bytes (offset + i) (offset + j) = Bytes.slice rest i j := by
  rw [Bytes.slice, Bytes.slice, ← h.drop, List.take_drop, List.drop_drop]

theorem uint32_add (k : ℕ) : Bytes.uint32 bytes (offset + k) = Bytes.uint32 rest k := by
  rw [Bytes.uint32, Nat.add_assoc, h.slice_add]
  rfl

end

/-- A number among others. -/
theorem field (h : At bytes offset (layout fields ++ rest)) (hwidths : fields.map Prod.fst = widths)
    (i : ℕ) (hfield : fields[i]? = some (k, n)) (hposition : (widths.take i).sum = position) :
    ∃ rest', At bytes (offset + position) (spell k n ++ rest') := by
  obtain ⟨hi, hget⟩ := List.getElem?_eq_some_iff.mp hfield
  have hsplit : layout fields =
      layout (fields.take i) ++ (spell k n ++ layout (fields.drop (i + 1))) := by
    conv_lhs => rw [← List.take_append_drop i fields, List.drop_eq_getElem_cons hi, hget]
    simp only [layout, List.flatMap_append, List.flatMap_cons]
  rw [hsplit, List.append_assoc, List.append_assoc] at h
  have hskip := h.skip
  rw [length_layout, width, List.map_take, hwidths, hposition] at hskip
  exact ⟨_, hskip⟩

theorem uint16_front (h : At bytes offset (xs ++ rest)) (hxs : xs.length = 2) :
    Bytes.uint16 bytes offset = littleEndian xs := by
  rw [Bytes.uint16, ← hxs, h.slice]

theorem uint32_front (h : At bytes offset (xs ++ rest)) (hxs : xs.length = 4) :
    Bytes.uint32 bytes offset = littleEndian xs := by
  rw [Bytes.uint32, ← hxs, h.slice]

section

variable (h : At bytes offset (layout fields ++ rest)) (hwidths : fields.map Prod.fst = widths)
  (i : ℕ)
include h hwidths i

/-- A number of two bytes among others. -/
theorem field16 (hfield : fields[i]? = some (2, n)) (hposition : (widths.take i).sum = position)
    (hn : n < 2 ^ 16) : Bytes.uint16 bytes (offset + position) = n := by
  obtain ⟨_, hat⟩ := h.field hwidths i hfield hposition
  rw [hat.uint16_front (length_spell 2 n), littleEndian_spell hn]

/-- A number of four bytes among others. -/
theorem field32 (hfield : fields[i]? = some (4, n)) (hposition : (widths.take i).sum = position)
    (hn : n < 2 ^ 32) : Bytes.uint32 bytes (offset + position) = n := by
  obtain ⟨_, hat⟩ := h.field hwidths i hfield hposition
  rw [hat.uint32_front (length_spell 4 n), littleEndian_spell hn]

end

end At

/-- A slice of a slice. -/
theorem slice_slice {i j : ℕ} (hj : start + j ≤ stop) :
    slice (slice bytes start stop) i j = slice bytes (start + i) (start + j) := by
  rw [slice, slice, slice, List.take_drop, List.take_take, Nat.min_eq_left hj, List.drop_drop]

/-- Slices that touch. -/
theorem slice_append {middle : ℕ} (hstart : start ≤ middle) (hstop : middle ≤ stop) :
    slice bytes start middle ++ slice bytes middle stop = slice bytes start stop := by
  have hfront : slice bytes start middle = (slice bytes start stop).take (middle - start) := by
    rw [slice, slice, List.take_drop, List.take_take, Nat.add_sub_cancel' hstart,
      Nat.min_eq_left hstop]
  have hback : slice bytes middle stop = (slice bytes start stop).drop (middle - start) := by
    rw [slice, slice, List.drop_drop, Nat.add_sub_cancel' hstart]
  rw [hfront, hback, List.take_append_drop]

theorem take_slice (h : start ≤ stop) :
    bytes.take start ++ slice bytes start stop = bytes.take stop := slice_append (Nat.zero_le _) h

theorem slice_self (bytes : List UInt8) (offset : ℕ) : slice bytes offset offset = [] := by
  rw [slice, List.drop_take, Nat.sub_self, List.take_zero]

theorem length_slice (h : stop ≤ bytes.length) :
    (slice bytes start stop).length = stop - start := by
  rw [slice, List.length_drop, List.length_take, Nat.min_eq_left h]

end Bytes

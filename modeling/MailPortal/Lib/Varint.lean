import MailPortal.Lib.Bytes

/-!
# Varints

A number as bytes of seven bits each, the lowest first, every byte but the last with its high bit
set. One number has spellings of many lengths: those that are longer than need be end in zeros.
-/

/-- The bytes spell the number. -/
inductive Varint.Spells : List UInt8 → ℕ → Prop
  | last (b : UInt8) (h : b.toNat < 128) : Spells [b] b.toNat
  | more (b : UInt8) (h : 128 ≤ b.toNat) {bs : List UInt8} {n : ℕ} (hbs : Spells bs n) :
      Spells (b :: bs) (b.toNat - 128 + 128 * n)

/-- A spelling of a number. -/
structure Varint where
  bytes : List UInt8
  value : ℕ
  spells : Varint.Spells bytes value

namespace Varint

variable {bs : List UInt8} {n : ℕ}

theorem Spells.length_pos (h : Spells bs n) : 0 < bs.length := by
  cases h <;> exact Nat.succ_pos _

theorem length_pos (v : Varint) : 0 < v.bytes.length := v.spells.length_pos

/-- The spelling of a length. -/
def spelling : ℕ → ℕ → List UInt8
  | 0, n => [UInt8.ofNat n]
  | k + 1, n => UInt8.ofNat (n % 128 + 128) :: spelling k (n / 128)

theorem spells_spelling {k n : ℕ} (h : n < 128 ^ (k + 1)) : Spells (spelling k n) n := by
  induction k generalizing n with
  | zero =>
    rw [zero_add, pow_one] at h
    have hb : (UInt8.ofNat n).toNat = n := by
      rw [Bytes.toNat_ofNat]
      omega
    have hlast := Spells.last (UInt8.ofNat n) (by rw [hb]; exact h)
    rwa [hb] at hlast
  | succ k ih =>
    have hb : (UInt8.ofNat (n % 128 + 128)).toNat = n % 128 + 128 := by
      rw [Bytes.toNat_ofNat]
      omega
    rw [pow_succ] at h
    have hrest := ih (Nat.div_lt_of_lt_mul (by rwa [mul_comm] at h))
    have hmore := Spells.more (UInt8.ofNat (n % 128 + 128)) (by rw [hb]; omega) hrest
    rw [hb] at hmore
    rwa [show n % 128 + 128 - 128 + 128 * (n / 128) = n by omega] at hmore

/-- The number, as a varint of `k + 1` bytes. -/
def ofLength (k n : ℕ) (h : n < 128 ^ (k + 1)) : Varint := ⟨spelling k n, n, spells_spelling h⟩

end Varint

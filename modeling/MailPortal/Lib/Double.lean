import Mathlib.Data.Int.Log
import Mathlib.Data.Nat.Digits.Defs
import Mathlib.Data.Nat.Prime.Basic
import Mathlib.Data.Rat.Floor

/-!
# Doubles as Rationals

A finite number of binary64 is a rational. `nearest` rounds a rational to it: to a multiple of a
power of two with at most 53 bits, ties to even, and to none when it is too large. The sign of
zero is not kept.

Main results:

* `nearest_isDouble` : what a rational is rounded to, is rounded to itself.
* `isDouble_intCast` : integers with at most 53 bits are doubles.
* `IsDouble.den` : the denominator of a double is a power of two.
-/

namespace Double

variable {q : ℚ} {n : ℤ}

/-- The nearest integer, ties to even. -/
def roundHalfEven (q : ℚ) : ℤ :=
  if q - ⌊q⌋ < 1 / 2 then ⌊q⌋
  else if 1 / 2 < q - ⌊q⌋ then ⌊q⌋ + 1
  else if ⌊q⌋ % 2 = 0 then ⌊q⌋ else ⌊q⌋ + 1

/-- The exponent of the last bit. -/
def exponent (q : ℚ) : ℤ := max (Int.log 2 |q| - 52) (-1074)

/-- The rounded value, whatever its size. -/
def rounded (q : ℚ) : ℚ := roundHalfEven (q / 2 ^ exponent q) * 2 ^ exponent q

/-- The nearest double, `none` when it is not finite. -/
def nearest (q : ℚ) : Option ℚ := if |rounded q| < 2 ^ 1024 then some (rounded q) else none

/-- A finite number of binary64. -/
def IsDouble (q : ℚ) : Prop := nearest q = some q

instance (q : ℚ) : Decidable (IsDouble q) := inferInstanceAs (Decidable (nearest q = some q))

theorem roundHalfEven_intCast (n : ℤ) : roundHalfEven n = n := by
  rw [roundHalfEven, Int.floor_intCast, sub_self, if_pos (by norm_num)]

/-- Rounding moves up by at most one, and not below the floor. -/
theorem roundHalfEven_cases (q : ℚ) : roundHalfEven q = ⌊q⌋ ∨ roundHalfEven q = ⌊q⌋ + 1 := by
  rw [roundHalfEven]
  split
  · exact .inl rfl
  · split
    · exact .inr rfl
    · split
      · exact .inl rfl
      · exact .inr rfl

/-- Rounding does not leave an interval between integers. -/
theorem abs_roundHalfEven_le (h : |q| < n) : |roundHalfEven q| ≤ n := by
  obtain ⟨hlow, hhigh⟩ := abs_lt.mp h
  have hfloor : ⌊q⌋ < n := Int.floor_lt.mpr hhigh
  have hbelow : -n ≤ ⌊q⌋ := Int.le_floor.mpr (by push_cast; linarith)
  rw [abs_le]
  rcases roundHalfEven_cases q with h | h <;> omega

theorem rounded_of_multiple (h : q = n * 2 ^ exponent q) : rounded q = q := by
  have hpos : (2 : ℚ) ^ exponent q ≠ 0 := zpow_ne_zero _ two_ne_zero
  have hdiv : q / 2 ^ exponent q = n := by
    rw [div_eq_iff hpos]
    exact h
  rw [rounded, hdiv, roundHalfEven_intCast]
  exact h.symm

/-- The number of bits is bounded. -/
theorem abs_roundHalfEven_scaled (q : ℚ) :
    |roundHalfEven (q / 2 ^ exponent q)| ≤ 2 ^ 53 := by
  have hpos : (0 : ℚ) < 2 ^ exponent q := zpow_pos two_pos _
  refine abs_roundHalfEven_le ?_
  rw [abs_div, abs_of_pos hpos, div_lt_iff₀ hpos]
  have hlog : |q| < (2 : ℚ) ^ (Int.log 2 |q| + 1) := by
    exact_mod_cast Int.lt_zpow_succ_log_self (b := 2) one_lt_two |q|
  have hexp : Int.log 2 |q| + 1 ≤ 53 + exponent q := by
    rw [exponent]
    omega
  have hbits : (((2 ^ 53 : ℤ) : ℚ)) = 2 ^ (53 : ℤ) := by norm_num
  rw [hbits, ← zpow_add₀ two_ne_zero]
  exact hlog.trans_le (zpow_le_zpow_right₀ one_le_two hexp)

/-- A multiple of a power of two that has at most 53 bits is not rounded. -/
theorem rounded_scaled {m e : ℤ} (hbits : |m| < 2 ^ 53) (hlow : -1074 ≤ e) :
    rounded ((m : ℚ) * 2 ^ e) = m * 2 ^ e := by
  by_cases hm : m = 0
  · rw [hm]
    exact rounded_of_multiple (n := 0) (by simp)
  have hpos : (0 : ℚ) < 2 ^ e := zpow_pos two_pos _
  have habs : |(m : ℚ) * 2 ^ e| = (|m| : ℤ) * 2 ^ e := by
    rw [abs_mul, abs_of_pos hpos, Int.cast_abs]
  have hne : 0 < |(m : ℚ) * 2 ^ e| :=
    abs_pos.mpr (mul_ne_zero (Int.cast_ne_zero.mpr hm) hpos.ne')
  have hlog : Int.log 2 |(m : ℚ) * 2 ^ e| < e + 53 := by
    rw [← Int.lt_zpow_iff_log_lt one_lt_two hne, habs]
    have hcast : ((|m| : ℤ) : ℚ) < 2 ^ (53 : ℤ) := by exact_mod_cast hbits
    push_cast
    rw [zpow_add₀ two_ne_zero, mul_comm ((2 : ℚ) ^ e)]
    exact mul_lt_mul_of_pos_right (by exact_mod_cast hbits) hpos
  have hexp : exponent ((m : ℚ) * 2 ^ e) ≤ e := by
    rw [exponent]
    omega
  obtain ⟨k, hk⟩ := Int.le.dest hexp
  refine rounded_of_multiple (n := m * 2 ^ k) ?_
  push_cast
  rw [mul_assoc, ← zpow_natCast, ← zpow_add₀ two_ne_zero, add_comm (k : ℤ), hk]

/-- **What is rounded is rounded to itself.** Its last bit is not below the last bit of the
rounding; only when rounding carries over into a new bit it is one above. -/
theorem rounded_rounded (q : ℚ) : rounded (rounded q) = rounded q := by
  have hbits := abs_roundHalfEven_scaled q
  have hrounded : rounded q = roundHalfEven (q / 2 ^ exponent q) * 2 ^ exponent q := rfl
  rw [hrounded]
  generalize roundHalfEven (q / 2 ^ exponent q) = m at hbits ⊢
  have hlow : -1074 ≤ exponent q := le_max_right _ _
  generalize exponent q = e at hlow ⊢
  rcases hbits.lt_or_eq with hbits | hbits
  · exact rounded_scaled hbits hlow
  have hpos : (0 : ℚ) < 2 ^ e := zpow_pos two_pos _
  have habs : |(m : ℚ) * 2 ^ e| = (|m| : ℤ) * 2 ^ e := by
    rw [abs_mul, abs_of_pos hpos, Int.cast_abs]
  have hlog : Int.log 2 |(m : ℚ) * 2 ^ e| = e + 53 := by
    have hcast : ((|m| : ℤ) : ℚ) = 2 ^ (53 : ℤ) := by
      rw [hbits]
      norm_num
    have hpower := Int.log_zpow (R := ℚ) one_lt_two (e + 53)
    rw [habs, hcast, ← zpow_add₀ two_ne_zero, add_comm]
    exact hpower
  have hexp : exponent ((m : ℚ) * 2 ^ e) = e + 1 := by
    rw [exponent, hlog]
    omega
  obtain ⟨n, rfl⟩ : ∃ n, m = n * 2 := by
    rcases abs_eq (by norm_num : (0 : ℤ) ≤ 2 ^ 53) |>.mp hbits with rfl | rfl
    · exact ⟨2 ^ 52, by norm_num⟩
    · exact ⟨-2 ^ 52, by norm_num⟩
  refine rounded_of_multiple (n := n) ?_
  rw [hexp, zpow_add_one₀ two_ne_zero]
  push_cast
  ring

/-- **What a rational is rounded to is a double.** -/
theorem nearest_isDouble {r : ℚ} (h : nearest q = some r) : IsDouble r := by
  rw [nearest] at h
  split at h
  · rename_i hsize
    cases h
    rw [IsDouble, nearest, rounded_rounded, if_pos hsize]
  · cases h

/-- **An integer with at most 53 bits is a double.** -/
theorem isDouble_intCast (h : |n| < 2 ^ 53) : IsDouble n := by
  have hrounded : rounded (n : ℚ) = n := by
    have hscaled := rounded_scaled h (by norm_num : (-1074 : ℤ) ≤ 0)
    rwa [zpow_zero, mul_one] at hscaled
  have hsize : |(n : ℚ)| < 2 ^ 1024 := by
    have hcast : |(n : ℚ)| < 2 ^ 53 := by exact_mod_cast h
    exact hcast.trans (pow_lt_pow_right₀ one_lt_two (by norm_num))
  rw [IsDouble, nearest, hrounded, if_pos hsize]

theorem isDouble_rounded (h : IsDouble q) : rounded q = q := by
  rw [IsDouble, nearest] at h
  split at h
  · exact Option.some.inj h
  · cases h

/-- **The denominator of a double is a power of two.** -/
theorem IsDouble.den (h : IsDouble q) : ∃ k : ℕ, q.den = 2 ^ k := by
  have hq : q = roundHalfEven (q / 2 ^ exponent q) * 2 ^ exponent q := (isDouble_rounded h).symm
  generalize roundHalfEven (q / 2 ^ exponent q) = m at hq
  generalize exponent q = e at hq
  obtain ⟨n, hn⟩ : ∃ n : ℕ, 0 ≤ e + n := ⟨e.natAbs, by omega⟩
  obtain ⟨k, hk⟩ := Int.eq_ofNat_of_zero_le hn
  have hpos : (2 : ℚ) ^ n ≠ 0 := pow_ne_zero _ two_ne_zero
  have hfraction : q = Rat.divInt (m * 2 ^ k) (2 ^ n) := by
    rw [Rat.divInt_eq_div]
    push_cast
    rw [eq_div_iff hpos, hq, mul_assoc, ← zpow_natCast, ← zpow_natCast, ← zpow_add₀ two_ne_zero, hk]
  have hdvd : (q.den : ℤ) ∣ 2 ^ n := by
    rw [hfraction]
    exact Rat.den_dvd _ _
  obtain ⟨k, -, hk⟩ := (Nat.dvd_prime_pow Nat.prime_two).mp (by exact_mod_cast hdvd)
  exact ⟨k, hk⟩

end Double

import Mathlib.Data.Nat.Bitwise
import MailPortal.Documents.Reading
import MailPortal.Lib.Varint

/-!
# The Varint Reader

`readVarint` is shared by all decoders of a Numbers document. It reads eight bytes at most and no
number beyond the safe integers. A varint is `Readable` when it stays within both limits, and the
reader accepts just these.
-/

namespace MailPortal.Documents

open Bytes Failure

variable {result : ℕ × ℕ}

/-- The `for` loop of `readVarint`, with the number of its passes that are left. -/
def readVarintFrom (bytes : List UInt8) : ℕ → ℕ → ℕ → ℕ → Reader (ℕ × ℕ)
  | 0, _, _, _ => failure .invalid_container
  | passes + 1, offset, value, multiplier =>
    if offset < bytes.length then do
      let byte ← byteAt bytes offset
      let value := value + (byte &&& 0x7f) * multiplier
      failIf (¬value ≤ MAX_SAFE_INTEGER) .invalid_container
      if byte &&& 0x80 = 0 then return (value, offset + 1)
      readVarintFrom bytes passes (offset + 1) value (multiplier * 128)
    else failure .invalid_container

/-- The value, and the offset after it. -/
def readVarint (bytes : List UInt8) (start : ℕ) : Reader (ℕ × ℕ) := readVarintFrom bytes 8 start 0 1

/-- The varint is within the limits of the reader. -/
def Readable (v : Varint) : Prop := v.bytes.length ≤ 8 ∧ v.value ≤ MAX_SAFE_INTEGER

instance (v : Varint) : Decidable (Readable v) := inferInstanceAs (Decidable (_ ∧ _))

/-! ### The bits of a byte -/

theorem low_bits (b : UInt8) : b.toNat &&& 0x7f = b.toNat % 128 :=
  Nat.and_two_pow_sub_one_eq_mod b.toNat 7

theorem high_bit (b : UInt8) : b.toNat &&& 0x80 = 0 ↔ b.toNat < 128 := by
  have hb := b.toNat_lt
  have hand : b.toNat &&& 0x80 = (b.toNat.testBit 7).toNat * 2 ^ 7 := Nat.and_two_pow b.toNat 7
  rw [hand, Nat.testBit_eq_decide_div_mod_eq]
  by_cases hbit : b.toNat / 2 ^ 7 % 2 = 1
  · rw [decide_eq_true hbit]
    exact ⟨nofun, fun h => by omega⟩
  · rw [decide_eq_false hbit]
    exact ⟨fun _ => by omega, fun _ => rfl⟩

/-! ### What is read -/

variable {bytes rest : List UInt8} {passes start offset value multiplier : ℕ}

/-- A pass of the loop at a byte. -/
theorem readVarintFrom_cons {b : UInt8} (h : At bytes offset (b :: rest)) :
    readVarintFrom bytes (passes + 1) offset value multiplier =
      if value + b.toNat % 128 * multiplier ≤ MAX_SAFE_INTEGER then
        if b.toNat < 128 then .ok (value + b.toNat % 128 * multiplier, offset + 1)
        else readVarintFrom bytes passes (offset + 1) (value + b.toNat % 128 * multiplier)
          (multiplier * 128)
      else failure .invalid_container := by
  have hlength := h.length
  rw [List.length_cons] at hlength
  rw [readVarintFrom, if_pos (by omega), byteAt_head h, ok_bind]
  simp only [low_bits, high_bit]
  by_cases hsafe : value + b.toNat % 128 * multiplier ≤ MAX_SAFE_INTEGER
  · rw [if_pos hsafe, failIf_bind (not_not_intro hsafe)]
    rfl
  · rw [if_neg hsafe, failIf_bind_of hsafe]

/-- A varint is read just if it ends within the passes and the value is safe. -/
theorem readVarintFrom_spells {bs : List UInt8} {n : ℕ} (hspells : Varint.Spells bs n)
    (h : At bytes offset (bs ++ rest)) : readVarintFrom bytes passes offset value multiplier =
      if bs.length ≤ passes ∧ value + n * multiplier ≤ MAX_SAFE_INTEGER then
        .ok (value + n * multiplier, offset + bs.length)
      else failure .invalid_container := by
  induction hspells generalizing passes offset value multiplier with
  | last b hb =>
    cases passes with
    | zero => exact (if_neg fun hlength => absurd hlength.1 (by simp)).symm
    | succ passes =>
      rw [readVarintFrom_cons h, Nat.mod_eq_of_lt hb, if_pos hb, List.length_singleton]
      simp only [Nat.le_add_left, true_and]
  | @more b hb bs n hbs ih =>
    cases passes with
    | zero => exact (if_neg fun hlength => absurd hlength.1 (by simp)).symm
    | succ passes =>
      have hlow : b.toNat % 128 = b.toNat - 128 := by
        have := b.toNat_lt
        omega
      have hvalue : value + (b.toNat - 128) * multiplier + n * (multiplier * 128) =
          value + (b.toNat - 128 + 128 * n) * multiplier := by ring
      rw [readVarintFrom_cons h, ih h.skip_one, hlow, if_neg (Nat.not_lt.mpr hb), hvalue,
        List.length_cons, Nat.add_assoc offset, Nat.add_comm 1]
      simp only [Nat.add_le_add_iff_right]
      by_cases hsafe : value + (b.toNat - 128) * multiplier ≤ MAX_SAFE_INTEGER
      · rw [if_pos hsafe]
      · -- The value only grows.
        have hgrows : ¬value + (b.toNat - 128 + 128 * n) * multiplier ≤ MAX_SAFE_INTEGER := by
          rw [← hvalue]
          omega
        rw [if_neg hsafe, if_neg fun hall => hgrows hall.2]

/-- **A varint is read** just if it is within the limits. -/
theorem readVarint_eq (v : Varint) (h : At bytes start (v.bytes ++ rest)) :
    readVarint bytes start = if Readable v then .ok (v.value, start + v.bytes.length)
      else failure .invalid_container := by
  rw [readVarint, readVarintFrom_spells v.spells h, Nat.zero_add, Nat.mul_one]
  rfl

/-- What the loop reads is a varint. -/
theorem readVarintFrom_eq_ok (h : At bytes offset rest)
    (hread : readVarintFrom bytes passes offset value multiplier = .ok result) :
    ∃ bs n rest', rest = bs ++ rest' ∧ Varint.Spells bs n := by
  induction passes generalizing offset value multiplier rest with
  | zero => exact absurd hread nofun
  | succ passes ih =>
    by_cases hlt : offset < bytes.length
    · obtain ⟨b, rest, rfl⟩ := h.exists_head hlt
      rw [readVarintFrom_cons h] at hread
      split at hread
      · split at hread
        · exact ⟨[b], b.toNat, rest, rfl, .last b ‹_›⟩
        · obtain ⟨bs, n, rest', rfl, hspells⟩ := ih h.skip_one hread
          exact ⟨b :: bs, _, rest', rfl, .more b (Nat.not_lt.mp ‹_›) hspells⟩
      · exact absurd hread nofun
    · rw [readVarintFrom, if_neg hlt] at hread
      exact absurd hread nofun

/-- Every reading is of a varint within the limits. -/
theorem readVarint_eq_ok (h : At bytes start rest) (hread : readVarint bytes start = .ok result) :
    ∃ (v : Varint) (rest' : List UInt8),
      rest = v.bytes ++ rest' ∧ Readable v ∧ result = (v.value, start + v.bytes.length) := by
  obtain ⟨bs, n, rest', rfl, hspells⟩ := readVarintFrom_eq_ok h hread
  have heq := readVarint_eq ⟨bs, n, hspells⟩ h
  rw [hread] at heq
  split at heq
  · exact ⟨⟨bs, n, hspells⟩, rest', rfl, ‹_›, Except.ok.inj heq⟩
  · exact absurd heq nofun

theorem contained_readVarintFrom :
    Contained (readVarintFrom bytes passes offset value multiplier) := by
  induction passes generalizing offset value multiplier with
  | zero => exact contained_failure
  | succ passes ih =>
    refine contained_ite (fun hlt => ?_) fun _ => contained_failure
    refine contained_bind (contained_byteAt hlt) fun byte _ => ?_
    refine contained_bind contained_failIf fun _ _ => ?_
    exact contained_ite (fun _ => contained_ok _) fun _ => ih

theorem contained_readVarint : Contained (readVarint bytes start) := contained_readVarintFrom

end MailPortal.Documents

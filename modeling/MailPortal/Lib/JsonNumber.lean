import Mathlib.Data.Nat.Digits.Lemmas
import MailPortal.Lib.Double

/-!
# Numbers in JSON Texts

The text of a double, in full, and the reader of numbers by the grammar of JSON. A double is a
fraction over a power of two, so that it has as many decimals as that power.

Main result:

* `readNumber_numberText` : the text of a double reads back as the double.
-/

namespace Json

def isDigit (c : Char) : Bool := '0' ≤ c && c ≤ '9'

def digitChar (d : ℕ) : Char := Char.ofNat (0x30 + d % 10)

/-- The number that digits say. -/
def digitsValue (cs : List Char) : ℕ := cs.foldl (fun n c => 10 * n + (c.toNat - 0x30)) 0

/-- The digits of a number. -/
def natText (n : ℕ) : List Char :=
  if n = 0 then ['0'] else ((Nat.digits 10 n).map digitChar).reverse

/-- The last `k` digits of a number. -/
def lastDigits : (k n : ℕ) → List Char
  | 0, _ => []
  | k + 1, n => lastDigits k (n / 10) ++ [digitChar n]

/-- How many decimals a number has when its denominator is a power of two. -/
def decimals (q : ℚ) : ℕ := Nat.log 2 q.den

/-- The text of a number. -/
def numberText (q : ℚ) : List Char :=
  let scaled := ⌊|q| * 10 ^ decimals q⌋₊
  (if q < 0 then ['-'] else []) ++ natText (scaled / 10 ^ decimals q) ++
    if decimals q = 0 then [] else '.' :: lastDigits (decimals q) scaled

/-- The digits after the point, and what follows. -/
def takeFraction : List Char → Option (List Char × List Char)
  | '.' :: cs =>
      let fraction := cs.takeWhile isDigit
      if fraction = [] then none else some (fraction, cs.dropWhile isDigit)
  | cs => some ([], cs)

/-- The exponent, to the end of the text. -/
def readExponent : List Char → Option ℤ
  | [] => some 0
  | e :: cs =>
      let digits := match cs with
        | '+' :: ds => ds
        | '-' :: ds => ds
        | ds => ds
      if (e = 'e' || e = 'E') && digits ≠ [] && digits.all isDigit then
        some (if cs.head? = some '-' then -(digitsValue digits : ℤ) else digitsValue digits)
      else none

/-- A number without its sign. -/
def readUnsigned (cs : List Char) : Option ℚ := do
  let whole := cs.takeWhile isDigit
  if whole = [] || whole.head? = some '0' && whole.length ≠ 1 then none
  else do
    let (fraction, rest) ← takeFraction (cs.dropWhile isDigit)
    let exponent ← readExponent rest
    some (((digitsValue whole : ℚ) + digitsValue fraction / 10 ^ fraction.length) * 10 ^ exponent)

/-- A number, by the grammar of JSON. -/
def readNumber : List Char → Option ℚ
  | '-' :: cs => (readUnsigned cs).map (-·)
  | cs => readUnsigned cs

theorem isDigit_digitChar (d : ℕ) : isDigit (digitChar d) = true := by
  have h : ∀ d < 10, isDigit (Char.ofNat (0x30 + d)) = true := by decide
  exact h (d % 10) (Nat.mod_lt d (by decide))

theorem digitChar_value (d : ℕ) : (digitChar d).toNat - 0x30 = d % 10 := by
  have h : ∀ d < 10, (Char.ofNat (0x30 + d)).toNat - 0x30 = d := by decide
  exact h (d % 10) (Nat.mod_lt d (by decide))

theorem digitsValue_concat (cs : List Char) (c : Char) :
    digitsValue (cs ++ [c]) = 10 * digitsValue cs + (c.toNat - 0x30) := by
  rw [digitsValue, List.foldl_append]
  rfl

theorem natText_digits (n : ℕ) : ∀ c ∈ natText n, isDigit c = true := by
  intro c hc
  rw [natText] at hc
  split at hc
  · rw [List.mem_singleton.mp hc]
    decide
  · obtain ⟨d, -, rfl⟩ := List.mem_map.mp (List.mem_reverse.mp hc)
    exact isDigit_digitChar d

theorem natText_value (n : ℕ) : digitsValue (natText n) = n := by
  have hdigits : ∀ ds : List ℕ, (∀ d ∈ ds, d < 10) →
      digitsValue (ds.map digitChar).reverse = Nat.ofDigits 10 ds := by
    intro ds
    induction ds with
    | nil => exact fun _ => rfl
    | cons d ds ih =>
        intro hds
        rw [List.map_cons, List.reverse_cons, digitsValue_concat, digitChar_value,
          ih fun d' hd' => hds d' (List.mem_cons_of_mem d hd'), Nat.ofDigits_cons,
          Nat.mod_eq_of_lt (hds d List.mem_cons_self), Nat.add_comm]
  rw [natText]
  split
  · rename_i h
    rw [h]
    rfl
  · rw [hdigits _ fun d hd => Nat.digits_lt_base (by decide) hd, Nat.ofDigits_digits]

theorem natText_ne_nil (n : ℕ) : natText n ≠ [] := by
  rw [natText]
  split
  · exact List.cons_ne_nil _ _
  · rename_i h
    intro hnil
    exact Nat.digits_ne_nil_iff_ne_zero.mpr h
      (List.map_eq_nil_iff.mp (List.reverse_eq_nil_iff.mp hnil))

/-- No number but zero begins with the digit 0. -/
theorem natText_head (n : ℕ) (h : (natText n).head? = some '0') : (natText n).length = 1 := by
  rw [natText] at h ⊢
  split
  · rfl
  · rename_i hn
    rw [if_neg hn, List.head?_reverse, List.getLast?_map] at h
    obtain ⟨d, hd, hzero⟩ := Option.map_eq_some_iff.mp h
    have hne := Nat.digits_ne_nil_iff_ne_zero (b := 10).mpr hn
    have hlast : d ≠ 0 := by
      rw [List.getLast?_eq_some_getLast hne] at hd
      exact Option.some.inj hd ▸ Nat.getLast_digit_ne_zero 10 hn
    have hlt : d < 10 :=
      Nat.digits_lt_base (by decide) (List.mem_of_getLast? hd)
    have hvalue := digitChar_value d
    rw [hzero, Nat.mod_eq_of_lt hlt] at hvalue
    exact absurd hvalue.symm hlast

theorem lastDigits_length (k n : ℕ) : (lastDigits k n).length = k := by
  induction k generalizing n with
  | zero => rfl
  | succ k ih => rw [lastDigits, List.length_append, ih, List.length_singleton]

theorem lastDigits_digits (k n : ℕ) : ∀ c ∈ lastDigits k n, isDigit c = true := by
  induction k generalizing n with
  | zero => exact nofun
  | succ k ih =>
      intro c hc
      rcases List.mem_append.mp hc with hc | hc
      · exact ih (n / 10) c hc
      · rw [List.mem_singleton.mp hc]
        exact isDigit_digitChar n

theorem lastDigits_value (k n : ℕ) : digitsValue (lastDigits k n) = n % 10 ^ k := by
  induction k generalizing n with
  | zero => rw [pow_zero, Nat.mod_one]; rfl
  | succ k ih =>
      rw [lastDigits, digitsValue_concat, ih, digitChar_value, pow_succ, Nat.mul_comm (10 ^ k),
        Nat.mod_mul]
      omega

/-- What a number is made of. -/
def isNumberChar (c : Char) : Bool :=
  isDigit c || c = '-' || c = '+' || c = '.' || c = 'e' || c = 'E'

theorem isNumberChar_of_digit {c : Char} (h : isDigit c = true) : isNumberChar c = true := by
  rw [isNumberChar, h]
  rfl

theorem numberText_chars (q : ℚ) : ∀ c ∈ numberText q, isNumberChar c = true := by
  intro c hc
  rw [numberText] at hc
  rcases List.mem_append.mp hc with hc | hc
  · rcases List.mem_append.mp hc with hc | hc
    · split at hc
      · rw [List.mem_singleton.mp hc]
        decide
      · cases hc
    · exact isNumberChar_of_digit (natText_digits _ c hc)
  · split at hc
    · cases hc
    · rcases List.mem_cons.mp hc with rfl | hc
      · decide
      · exact isNumberChar_of_digit (lastDigits_digits _ _ c hc)

/-- How the text of a number begins. -/
theorem numberText_head (q : ℚ) :
    ∃ c cs, numberText q = c :: cs ∧ (decide (c = '-') || isDigit c) = true := by
  rw [numberText]
  split
  · exact ⟨_, _, rfl, rfl⟩
  · obtain ⟨c, cs, htext⟩ := List.exists_cons_of_ne_nil
      (natText_ne_nil (⌊|q| * 10 ^ decimals q⌋₊ / 10 ^ decimals q))
    have hdigit : isDigit c = true := natText_digits _ c (htext ▸ List.mem_cons_self)
    rw [htext]
    exact ⟨c, _, rfl, by rw [hdigit, Bool.or_true]⟩

/-- Digits are taken up to what is no digit. -/
theorem takeWhile_digits {ds rest : List Char} (hds : ∀ c ∈ ds, isDigit c = true)
    (hrest : ∀ c ∈ rest.head?, isDigit c = false) :
    (ds ++ rest).takeWhile isDigit = ds ∧ (ds ++ rest).dropWhile isDigit = rest := by
  induction ds with
  | nil =>
      cases rest with
      | nil => exact ⟨rfl, rfl⟩
      | cons c rest =>
          have hc := hrest c rfl
          rw [List.nil_append, List.takeWhile_cons_of_neg (by simp [hc]),
            List.dropWhile_cons_of_neg (by simp [hc])]
          exact ⟨rfl, rfl⟩
  | cons d ds ih =>
      have hd := hds d List.mem_cons_self
      obtain ⟨htake, hdrop⟩ := ih fun c hc => hds c (List.mem_cons_of_mem d hc)
      rw [List.cons_append, List.takeWhile_cons_of_pos hd, List.dropWhile_cons_of_pos hd, htake]
      exact ⟨rfl, hdrop⟩

/-- Decimals are enough to write a number out in full. -/
theorem decimals_exact {q : ℚ} (h : Double.IsDouble q) :
    ((⌊|q| * 10 ^ decimals q⌋₊ : ℕ) : ℚ) = |q| * 10 ^ decimals q := by
  obtain ⟨k, hk⟩ := h.den
  have hdecimals : decimals q = k := by
    rw [decimals, hk]
    exact Nat.log_pow (by decide) k
  have hinteger : |q| * 10 ^ k = ((q.num.natAbs * 5 ^ k : ℕ) : ℚ) := by
    have hq : |q| = (q.num.natAbs : ℚ) / 2 ^ k := by
      conv_lhs => rw [← Rat.num_div_den q]
      rw [abs_div, Nat.abs_cast, Nat.cast_natAbs, Int.cast_abs, hk]
      push_cast
      rfl
    rw [hq]
    push_cast
    rw [show (10 : ℚ) = 2 * 5 by norm_num, mul_pow]
    field_simp
  rw [hdecimals, hinteger, Nat.floor_natCast]

/-- A number without its sign reads back. -/
theorem readUnsigned_text (k scaled : ℕ) :
    readUnsigned (natText (scaled / 10 ^ k) ++
        if k = 0 then [] else '.' :: lastDigits k scaled) =
      some ((scaled : ℚ) / 10 ^ k) := by
  have hpoint : ∀ c ∈ (if k = 0 then [] else '.' :: lastDigits k scaled).head?,
      isDigit c = false := by
    intro c hc
    split at hc
    · cases hc
    · cases hc
      decide
  obtain ⟨htake, hdrop⟩ := takeWhile_digits (natText_digits (scaled / 10 ^ k)) hpoint
  have hgrammar : (decide (natText (scaled / 10 ^ k) = []) ||
      decide ((natText (scaled / 10 ^ k)).head? = some '0') &&
        decide ((natText (scaled / 10 ^ k)).length ≠ 1)) = false := by
    rw [decide_eq_false (natText_ne_nil _), Bool.false_or, Bool.and_eq_false_iff]
    by_cases hhead : (natText (scaled / 10 ^ k)).head? = some '0'
    · exact .inr (decide_eq_false fun hlength => hlength (natText_head _ hhead))
    · exact .inl (decide_eq_false hhead)
  rw [readUnsigned, htake, hdrop, hgrammar]
  have hpos : (10 : ℚ) ^ k ≠ 0 := pow_ne_zero _ (by norm_num)
  by_cases hk : k = 0
  · subst hk
    have hzero : digitsValue [] = 0 := rfl
    simp [takeFraction, readExponent, natText_value, hzero]
  · obtain ⟨htake, hdrop⟩ := @takeWhile_digits _ [] (lastDigits_digits k scaled)
      fun c hc => by cases hc
    rw [List.append_nil] at htake hdrop
    have hne : lastDigits k scaled ≠ [] := by
      intro hnil
      exact hk (by rw [← lastDigits_length k scaled, hnil]; rfl)
    have hvalue : (scaled : ℚ) = (scaled / 10 ^ k : ℕ) * 10 ^ k + (scaled % 10 ^ k : ℕ) := by
      exact_mod_cast (Nat.div_add_mod' scaled (10 ^ k)).symm
    simp only [hk, if_false, takeFraction, htake, hdrop, hne, readExponent, natText_value,
      lastDigits_value, lastDigits_length, Option.bind_eq_bind, Option.bind_some,
      Bool.false_eq_true, zpow_zero, mul_one]
    rw [Option.some.injEq, eq_div_iff hpos, add_mul, div_mul_cancel₀ _ hpos]
    exact hvalue.symm

/-- **A number reads back.** -/
theorem readNumber_numberText {q : ℚ} (h : Double.IsDouble q) :
    readNumber (numberText q) = some q := by
  have hunsigned : readUnsigned (natText (⌊|q| * 10 ^ decimals q⌋₊ / 10 ^ decimals q) ++
      if decimals q = 0 then [] else '.' :: lastDigits (decimals q) ⌊|q| * 10 ^ decimals q⌋₊) =
        some |q| := by
    rw [readUnsigned_text, decimals_exact h,
      mul_div_cancel_right₀ _ (pow_ne_zero _ (by norm_num : (10 : ℚ) ≠ 0))]
  rw [numberText]
  by_cases hneg : q < 0
  · rw [if_pos hneg, List.append_assoc, List.singleton_append, readNumber, hunsigned,
      abs_of_neg hneg]
    simp
  · obtain ⟨c, cs, htext⟩ := List.exists_cons_of_ne_nil
      (natText_ne_nil (⌊|q| * 10 ^ decimals q⌋₊ / 10 ^ decimals q))
    have hdigit : isDigit c = true := natText_digits _ c (htext ▸ List.mem_cons_self)
    rw [if_neg hneg, List.nil_append]
    rw [htext, List.cons_append] at hunsigned ⊢
    have hsign : c ≠ '-' := by
      rintro rfl
      cases hdigit
    rw [readNumber, hunsigned, abs_of_nonneg (not_lt.mp hneg)]
    exact fun cs' hcs' => hsign (List.cons.inj hcs').1

end Json

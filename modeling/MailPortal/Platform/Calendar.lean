import MailPortal.Platform.JavaScript

/-!
# The Calendar

Calendar dates and day numbers are the same thing in two forms. An era is 400 years; the year of a
day in it is found by a quotient that counts leap days.

Main results:

* `yearOfEra_spec`: the day is in the year that is found.
* `daysFromCivil_civilFromDays`: a day number is the day number of its date.
* `hundred_le_year`, `year_two_digits`: the days from 0100-01-01 on, and those before.
* `toISOString_inj`: a time value is told by its text.
-/

namespace MailPortal

variable {days : ℤ}
variable {a b month day : ℕ}

/-- The year in the era of a day of the era, both from 0 on. -/
def yearOfEra (doe : ℕ) : ℕ := (doe - doe / 1460 + doe / 36524 - doe / 146096) / 365

/-- The first day of a year of the era. -/
def firstDay (year : ℕ) : ℕ := 365 * year + year / 4 - year / 100

theorem yearOfEra_mono (h : a ≤ b) (hb : b < 146097) : yearOfEra a ≤ yearOfEra b := by
  refine Nat.div_le_div_right ?_
  by_cases hlast : b = 146096
  · rw [hlast]
    omega
  · omega

/-- The first and the last day of each year, but for the leap day that ends the era. -/
theorem yearOfEra_ends : ∀ year < 400, yearOfEra (firstDay year) = year ∧
    yearOfEra (firstDay (year + 1) - 1) = year := by
  decide +kernel

/-- **A day is in the year that is found.** -/
theorem yearOfEra_spec {doe : ℕ} (h : doe < 146097) :
    yearOfEra doe ≤ 399 ∧ firstDay (yearOfEra doe) ≤ doe ∧
      doe - firstDay (yearOfEra doe) ≤ 365 := by
  have hlast : yearOfEra doe ≤ 399 := yearOfEra_mono (Nat.le_of_lt_succ h) (by decide)
  refine ⟨hlast, ?_, ?_⟩
  · by_contra hlow
    cases hyear : yearOfEra doe with
    | zero => simp [hyear, firstDay] at hlow
    | succ year =>
      have hend := (yearOfEra_ends year (by omega)).2
      rw [hyear] at hlow
      have hmono := yearOfEra_mono (show doe ≤ firstDay (year + 1) - 1 by omega)
        (by unfold firstDay; omega)
      omega
  · by_contra hhigh
    have hnext : firstDay (yearOfEra doe + 1) ≤ doe := by
      unfold firstDay at hhigh ⊢
      omega
    by_cases hyear : yearOfEra doe = 399
    · rw [hyear] at hhigh
      unfold firstDay at hhigh
      omega
    · have hstart := (yearOfEra_ends (yearOfEra doe + 1) (by omega)).1
      have hmono := yearOfEra_mono hnext h
      omega

/-- A day number in its era, year and month. -/
theorem civilFromDays_eq (days : ℤ) :
    ∃ era : ℤ, ∃ yoe doy mp : ℕ, yoe ≤ 399 ∧ doy ≤ 365 ∧ mp = (5 * doy + 2) / 153 ∧
      days + 719468 = era * 146097 + (firstDay yoe + doy : ℕ) ∧
      civilFromDays days =
        ((yoe : ℤ) + era * 400 + (if (if mp < 10 then mp + 3 else mp - 9) ≤ 2 then 1 else 0),
          if mp < 10 then mp + 3 else mp - 9, doy - (153 * mp + 2) / 5 + 1) := by
  have hfdiv : (days + 719468).fdiv 146097 = (days + 719468) / 146097 :=
    Int.fdiv_eq_ediv_of_nonneg _ (by decide)
  obtain ⟨doe, hdoe⟩ : ∃ doe : ℕ,
      (doe : ℤ) = days + 719468 - (days + 719468) / 146097 * 146097 :=
    Int.eq_ofNat_of_zero_le (by omega) |>.imp fun _ h => h.symm
  have hlt : doe < 146097 := by omega
  obtain ⟨hyear, hfirst, hday⟩ := yearOfEra_spec hlt
  refine ⟨(days + 719468) / 146097, yearOfEra doe, doe - firstDay (yearOfEra doe),
    (5 * (doe - firstDay (yearOfEra doe)) + 2) / 153, hyear, hday, rfl, ?_, ?_⟩
  · omega
  · rw [civilFromDays, hfdiv, ← hdoe]
    rfl

/-- **A day number is the day number of its date.** -/
theorem daysFromCivil_civilFromDays (days : ℤ) :
    daysFromCivil (civilFromDays days).1 (civilFromDays days).2.1 (civilFromDays days).2.2 =
      days := by
  obtain ⟨era, yoe, doy, mp, hyoe, hdoy, hmp, hdays, hcivil⟩ := civilFromDays_eq days
  have hera : ((yoe : ℤ) + era * 400).fdiv 400 = era := by
    rw [Int.fdiv_eq_ediv_of_nonneg _ (by decide)]
    omega
  have hyear : ((yoe : ℤ) + era * 400 - era * 400).toNat = yoe := by omega
  rw [hcivil, daysFromCivil]
  unfold firstDay at hdays
  by_cases hten : mp < 10
  · have hmarch : ¬mp + 3 ≤ 2 := by omega
    have hlater : 2 < mp + 3 := by omega
    simp only [if_pos hten, if_neg hmarch, if_pos hlater, Int.add_zero, hera, hyear]
    omega
  · have hjanuary : mp - 9 ≤ 2 := by omega
    have hearlier : ¬2 < mp - 9 := by omega
    simp only [if_neg hten, if_pos hjanuary, if_neg hearlier, Int.add_sub_cancel, hera]
    omega

theorem month_range (days : ℤ) :
    1 ≤ (civilFromDays days).2.1 ∧ (civilFromDays days).2.1 ≤ 12 := by
  obtain ⟨era, yoe, doy, mp, -, hdoy, hmp, -, hcivil⟩ := civilFromDays_eq days
  rw [hcivil]
  dsimp only
  split <;> omega

/-- **The days from 0100-01-01 on** have years from 100 on. -/
theorem hundred_le_year (h : -683003 ≤ days) : 100 ≤ (civilFromDays days).1 := by
  obtain ⟨era, yoe, doy, mp, hyoe, hdoy, hmp, hdays, hcivil⟩ := civilFromDays_eq days
  rw [hcivil]
  dsimp only
  unfold firstDay at hdays
  rcases Int.lt_trichotomy era 0 with hera | rfl | hera
  · omega
  · by_cases hten : mp < 10
    · rw [if_pos hten, if_neg (by omega)]
      omega
    · rw [if_neg hten, if_pos (by omega)]
      omega
  · split <;> split <;> omega

/-- **The days before them**, from 0000-01-01 on, have years of two digits. -/
theorem year_two_digits (hlow : -719528 ≤ days) (hhigh : days < -683003) :
    0 ≤ (civilFromDays days).1 ∧ (civilFromDays days).1 ≤ 99 := by
  obtain ⟨era, yoe, doy, mp, hyoe, hdoy, hmp, hdays, hcivil⟩ := civilFromDays_eq days
  rw [hcivil]
  dsimp only
  unfold firstDay at hdays
  have hera : era = -1 ∨ era = 0 := by omega
  rcases hera with rfl | rfl
  · -- the last two months of the era that ends with the year 0
    have hten : ¬mp < 10 := by omega
    rw [if_neg hten, if_pos (by omega)]
    omega
  · by_cases hten : mp < 10
    · rw [if_pos hten, if_neg (by omega)]
      omega
    · rw [if_neg hten, if_pos (by omega)]
      omega

theorem day_range (days : ℤ) : (civilFromDays days).2.2 ≤ 31 := by
  obtain ⟨era, yoe, doy, mp, -, hdoy, hmp, -, hcivil⟩ := civilFromDays_eq days
  rw [hcivil]
  dsimp only
  omega

/-- The day numbers of the twentieth century, roughly. -/
theorem daysFromCivil_1900 {year : ℤ} (hyear : 0 ≤ year ∧ year ≤ 99)
    (hmonth : 1 ≤ month ∧ month ≤ 12) (hday : day ≤ 31) :
    -30000 ≤ daysFromCivil (1900 + year) month day ∧
      daysFromCivil (1900 + year) month day ≤ 20000 := by
  have hera : ∀ y : ℤ, 1899 ≤ y → y ≤ 1999 → y.fdiv 400 = 4 := by
    intro y hlow hhigh
    rw [Int.fdiv_eq_ediv_of_nonneg _ (by decide)]
    omega
  rw [daysFromCivil]
  by_cases hjanuary : month ≤ 2
  · rw [if_pos hjanuary, if_neg (by omega), hera _ (by omega) (by omega)]
    omega
  · rw [if_neg hjanuary, if_pos (by omega), hera _ (by omega) (by omega)]
    omega

/-- The years of the time values have six digits. -/
theorem year_range (h : days.natAbs ≤ 100000000) : (civilFromDays days).1.natAbs < 1000000 := by
  obtain ⟨era, yoe, doy, mp, hyoe, hdoy, hmp, hdays, hcivil⟩ := civilFromDays_eq days
  rw [hcivil]
  dsimp only
  unfold firstDay at hdays
  split <;> omega

/-! ### The text of a time value -/

theorem digitChar_inj (h : digitChar a = digitChar b) : a % 10 = b % 10 := by
  have hall : ∀ x < 10, ∀ y < 10, Char.ofNat (0x30 + x) = Char.ofNat (0x30 + y) → x = y := by
    decide
  exact hall _ (Nat.mod_lt a (by decide)) _ (Nat.mod_lt b (by decide)) h

theorem length_padded (w n : ℕ) : (padded w n).length = w := by
  induction w generalizing n with
  | zero => rfl
  | succ w ih => rw [padded, List.length_append, ih, List.length_singleton]

/-- A number is told by its digits. -/
theorem padded_inj {w : ℕ} (h : padded w a = padded w b) (ha : a < 10 ^ w) (hb : b < 10 ^ w) :
    a = b := by
  induction w generalizing a b with
  | zero => omega
  | succ w ih =>
    rw [Nat.pow_succ] at ha hb
    rw [padded, padded] at h
    obtain ⟨hfront, hlast⟩ := List.append_inj' h rfl
    have hdigit := digitChar_inj (List.cons.inj hlast).1
    have hrest := ih hfront (by omega) (by omega)
    omega

theorem yearText_inj {a b : ℤ} (h : yearText a = yearText b) (ha : a.natAbs < 1000000)
    (hb : b.natAbs < 1000000) : a = b := by
  unfold yearText at h
  by_cases ha4 : 0 ≤ a ∧ a ≤ 9999
  · by_cases hb4 : 0 ≤ b ∧ b ≤ 9999
    · rw [if_pos ha4, if_pos hb4] at h
      have := padded_inj h (by omega) (by omega)
      omega
    · rw [if_pos ha4, if_neg hb4] at h
      have := congrArg List.length h
      rw [length_padded, List.length_cons, length_padded] at this
      omega
  · by_cases hb4 : 0 ≤ b ∧ b ≤ 9999
    · rw [if_neg ha4, if_pos hb4] at h
      have := congrArg List.length h
      rw [length_padded, List.length_cons, length_padded] at this
      omega
    · rw [if_neg ha4, if_neg hb4] at h
      obtain ⟨hsign, hdigits⟩ := List.cons.inj h
      have habs := padded_inj hdigits (by omega) (by omega)
      by_cases hneg : a < 0 <;> by_cases hneg' : b < 0 <;> simp [hneg, hneg'] at hsign <;> omega

/-- What stands behind the year. -/
def isoTail (month day ms : ℕ) : List Char :=
  '-' :: padded 2 month ++ '-' :: padded 2 day ++ 'T' :: padded 2 (ms / 3600000) ++
    ':' :: padded 2 (ms / 60000 % 60) ++ ':' :: padded 2 (ms / 1000 % 60) ++
    '.' :: padded 3 (ms % 1000) ++ ['Z']

theorem isoTail_inj {ms month' day' ms' : ℕ} (h : isoTail month day ms = isoTail month' day' ms')
    (hmonth : month < 100) (hmonth' : month' < 100) (hday : day < 100) (hday' : day' < 100)
    (hms : ms < 86400000) (hms' : ms' < 86400000) : month = month' ∧ day = day' ∧ ms = ms' := by
  have hfield : ∀ (c c' : Char) (w n n' : ℕ),
      (c :: padded w n).length = (c' :: padded w n').length := by
    intro c c' w n n'
    rw [List.length_cons, List.length_cons, length_padded, length_padded]
  obtain ⟨h, -⟩ := List.append_inj' h rfl
  obtain ⟨h, hmilli⟩ := List.append_inj' h (hfield ..)
  obtain ⟨h, hsecond⟩ := List.append_inj' h (hfield ..)
  obtain ⟨h, hminute⟩ := List.append_inj' h (hfield ..)
  obtain ⟨h, hhour⟩ := List.append_inj' h (hfield ..)
  obtain ⟨hmonths, hdays⟩ := List.append_inj' h (hfield ..)
  have hsame : ∀ {c : Char} {w n n' : ℕ}, c :: padded w n = c :: padded w n' →
      n < 10 ^ w → n' < 10 ^ w → n = n' := fun heq => padded_inj (List.cons.inj heq).2
  have hmilli := hsame hmilli (by omega) (by omega)
  have hsecond := hsame hsecond (by omega) (by omega)
  have hminute := hsame hminute (by omega) (by omega)
  have hhour := hsame hhour (by omega) (by omega)
  exact ⟨hsame hmonths (by omega) (by omega), hsame hdays (by omega) (by omega), by omega⟩

theorem toISOString_some {t : ℤ} (h : t.natAbs ≤ 8640000000000000) :
    ∃ text, toISOString t = some text := ⟨_, if_pos h⟩

/-- **A time value is told by its text.** -/
theorem toISOString_inj {s t : ℤ} {text : String} (hs : toISOString s = some text)
    (ht : toISOString t = some text) : s = t := by
  have hform : ∀ {t : ℤ}, toISOString t = some text → (t / 86400000).natAbs ≤ 100000000 ∧
      text.toList = yearText (civilFromDays (t / 86400000)).1 ++
        isoTail (civilFromDays (t / 86400000)).2.1 (civilFromDays (t / 86400000)).2.2
          (t - t / 86400000 * 86400000).toNat := by
    intro t h
    rw [toISOString, Int.fdiv_eq_ediv_of_nonneg _ (by decide)] at h
    split at h
    · rename_i hrange
      have hmax : maxTimeValue.toNat = 8640000000000000 := rfl
      refine ⟨by omega, ?_⟩
      dsimp only at h
      generalize civilFromDays (t / 86400000) = civil at h ⊢
      obtain ⟨year, month, day⟩ := civil
      rw [← Option.some.inj h, String.toList_ofList, isoTail]
      simp only [List.append_assoc]
    · cases h
  obtain ⟨hs, hstext⟩ := hform hs
  obtain ⟨ht, httext⟩ := hform ht
  have hlength : ∀ m d n m' d' n', (isoTail m d n).length = (isoTail m' d' n').length := by
    intro m d n m' d' n'
    simp [isoTail, length_padded]
  obtain ⟨hyear, htail⟩ := List.append_inj' (hstext.symm.trans httext) (hlength ..)
  have hyear := yearText_inj hyear (year_range hs) (year_range ht)
  have hms := (month_range (s / 86400000)).2
  have hmt := (month_range (t / 86400000)).2
  have hds := day_range (s / 86400000)
  have hdt := day_range (t / 86400000)
  obtain ⟨hmonth, hday, hmilli⟩ := isoTail_inj htail (by omega) (by omega) (by omega) (by omega)
    (by omega) (by omega)
  have hdays : s / 86400000 = t / 86400000 := by
    rw [← daysFromCivil_civilFromDays (s / 86400000), hyear, hmonth, hday,
      daysFromCivil_civilFromDays]
  omega

end MailPortal

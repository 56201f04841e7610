import MailPortal.TodayBrief.DayBoundary

/-!
# The Whole Local Day

On ordinary dates the fields of the local clock are the clock, so that the search for a midnight is
that of a local clock with rare jumps. A day is resolved where both of its midnights are sound: they
exist, and where the clock goes back to one of them, the offset is negative from then on.

Main results:

* `adjustGuess_eq`: the loop is the search.
* `not_resolved_twoDigits`: nothing is resolved in the years 0 to 99.
* `resolveTodayBriefDay_wholeDay_iff`: when the bounds are those of the local day.
-/

namespace MailPortal.TodayBrief

open Clock

variable {days : ℤ}
variable {wall guess start : ℤ}

/-! ### The clock in fields -/

/-- The fields of a clock. -/
def wallParts (wall : ℤ) : DateTimeParts where
  year := (civilFromDays (wall / 86400000)).1
  month := (civilFromDays (wall / 86400000)).2.1
  day := (civilFromDays (wall / 86400000)).2.2
  hour := (wall % 86400000).toNat / 3600000
  minute := (wall % 86400000).toNat / 60000 % 60
  second := (wall % 86400000).toNat / 1000 % 60

theorem dateTimeParts_eq {value : ℤ} (h : value.natAbs ≤ 8640000000000000) (zone : Zone) :
    dateTimeParts value zone = .ok (wallParts (zone.wall value)) := if_pos h

theorem timeClip_eq {t : ℤ} (h : t.natAbs ≤ 8640000000000000) : timeClip t = some t := if_pos h

/-- The days from 0100-01-01 to the last day with a midnight. -/
def Dated (days : ℤ) : Prop := -683003 ≤ days ∧ days ≤ 100000000

/-- The fields of whole seconds are the clock. -/
theorem asUtc_wallParts (hseconds : 1000 ∣ wall) (hdated : Dated (wall / 86400000))
    (hrange : wall.natAbs ≤ 8640000000000000) : asUtc (wallParts wall) = some wall := by
  have hyear := hundred_le_year hdated.1
  have hno : ¬(0 ≤ (wallParts wall).year ∧ (wallParts wall).year ≤ 99) := by
    rintro ⟨-, hle⟩
    simp only [wallParts] at hle
    omega
  rw [asUtc, dateUTC, if_neg hno]
  simp only [wallParts]
  rw [daysFromCivil_civilFromDays]
  have hwall : wall / 86400000 * 86400000 +
      (((wall % 86400000).toNat / 3600000 : ℕ) : ℤ) * 3600000 +
      (((wall % 86400000).toNat / 60000 % 60 : ℕ) : ℤ) * 60000 +
      (((wall % 86400000).toNat / 1000 % 60 : ℕ) : ℤ) * 1000 = wall := by
    omega
  rw [hwall, timeClip_eq hrange]

/-- Midnight by the calendar. -/
def midnightParts (days : ℤ) : DateTimeParts :=
  { wallParts (days * 86400000) with hour := 0, minute := 0, second := 0 }

theorem asUtc_midnightParts (hdated : Dated days) :
    asUtc (midnightParts days) = some (days * 86400000) := by
  have hparts : midnightParts days = wallParts (days * 86400000) := by
    have hzero : days * 86400000 % 86400000 = 0 := by omega
    simp [midnightParts, wallParts, hzero]
  have hdays : days * 86400000 / 86400000 = days := by omega
  obtain ⟨hlow, hhigh⟩ := hdated
  rw [hparts, asUtc_wallParts (by omega) (by rw [hdays]; exact ⟨hlow, hhigh⟩) (by omega)]

/-- The midnight of the day of a clock. -/
theorem wallParts_midnight (wall : ℤ) :
    { wallParts wall with hour := 0, minute := 0, second := 0 } =
      midnightParts (wall / 86400000) := by
  have hdays : wall / 86400000 * 86400000 / 86400000 = wall / 86400000 := by omega
  simp only [midnightParts, wallParts, hdays]

theorem nextMidnight_wallParts (hdated : Dated (wall / 86400000))
    (hnext : Dated (wall / 86400000 + 1)) :
    nextMidnight (wallParts wall) = some (midnightParts (wall / 86400000 + 1)) := by
  have hdays : (wall / 86400000 * 86400000 + 86400000) / 86400000 = wall / 86400000 + 1 := by omega
  have hmidnight : (wall / 86400000 + 1) * 86400000 / 86400000 = wall / 86400000 + 1 := by omega
  obtain ⟨hlow, hhigh⟩ := hnext
  have hclip := timeClip_eq (t := wall / 86400000 * 86400000 + 86400000) (by
    obtain ⟨hlow', -⟩ := hdated
    omega)
  have hcurrent := asUtc_midnightParts hdated
  rw [asUtc] at hcurrent
  rw [nextMidnight, wallParts_midnight, hcurrent]
  simp only [Option.bind_eq_bind, Option.bind_some, hclip, hdays, midnightParts, wallParts,
    hmidnight]
  rfl

/-! ### The loop is the search -/

/-- The days whose midnights can be searched: two days around them have their dates. -/
def Ordinary (days : ℤ) : Prop := -683001 ≤ days ∧ days ≤ 99999998

section

variable (hdays : Ordinary days) (zone : Zone)
include hdays zone

/-- What the fields say at a guess. -/
theorem asUtc_guess (hseconds : 1000 ∣ guess) (hlow : days * DAY - DAY ≤ guess)
    (hhigh : guess ≤ days * DAY + DAY) :
    dateTimeParts guess zone = .ok (wallParts (zone.wall guess)) ∧
      asUtc (wallParts (zone.wall guess)) = some (zone.wall guess) := by
  obtain ⟨hfirst, hlast⟩ := hdays
  obtain ⟨hbehind, hahead⟩ := zone.bounded guess
  have hwhole : 1000 ∣ zone.wall guess := Int.dvd_add hseconds (zone.seconds guess)
  have hlower : days * DAY - 2 * DAY < zone.wall guess := by
    unfold Zone.wall
    omega
  have hupper : zone.wall guess < days * DAY + 2 * DAY := by
    unfold Zone.wall
    omega
  unfold DAY at hlow hhigh hlower hupper
  exact ⟨dateTimeParts_eq (by omega) zone,
    asUtc_wallParts hwhole ⟨by omega, by omega⟩ (by omega)⟩

/-- **The loop is the search** of the clock. -/
theorem adjustGuess_eq (attempts : ℕ) (hseconds : 1000 ∣ guess) (hlow : days * DAY - DAY ≤ guess)
    (hhigh : guess ≤ days * DAY + DAY) :
    adjustGuess (days * DAY) zone attempts guess =
      match search zone (days * DAY) attempts guess with
      | some t => .ok t
      | none => .error unresolved := by
  induction attempts generalizing guess with
  | zero =>
    obtain ⟨hparts, hwall⟩ := asUtc_guess hdays zone hseconds hlow hhigh
    rw [adjustGuess, hparts, search]
    simp only [bind, Except.bind, hwall, Option.some.injEq]
    by_cases h : zone.wall guess = days * DAY
    · rw [if_pos h, if_pos h]
    · rw [if_neg h, if_neg h]
  | succ attempts ih =>
    obtain ⟨hparts, hwall⟩ := asUtc_guess hdays zone hseconds hlow hhigh
    rw [adjustGuess, hparts, search]
    simp only [bind, Except.bind, hwall]
    by_cases h : zone.wall guess = days * DAY
    · rw [if_pos (by omega), if_pos h]
    · obtain ⟨hbehind, hahead⟩ := zone.bounded guess
      have hnext : guess + (days * DAY - zone.wall guess) = days * DAY - zone.offset guess := by
        unfold Zone.wall
        omega
      have htarget : (1000 : ℤ) ∣ days * DAY := Dvd.dvd.mul_left (by decide) days
      rw [if_neg (by omega), if_neg h, hnext]
      exact ih (Int.dvd_sub htarget (zone.seconds guess)) (by omega) (by omega)

/-- What is resolved of a midnight. -/
theorem localDateTimeToInstant_eq :
    localDateTimeToInstant (midnightParts days) zone =
      match search zone (days * DAY) 6 (days * DAY) with
      | some t => .ok t
      | none => .error unresolved := by
  have htarget : (1000 : ℤ) ∣ days * DAY := Dvd.dvd.mul_left (by decide) days
  have hdated : Dated days := ⟨by have := hdays.1; omega, by have := hdays.2; omega⟩
  have hmidnight : asUtc (midnightParts days) = some (days * DAY) := asUtc_midnightParts hdated
  have hday : (0 : ℤ) < DAY := by decide
  rw [localDateTimeToInstant, hmidnight]
  exact adjustGuess_eq hdays zone 6 htarget (by omega) (by omega)

end

/-! ### The day -/

/-- The bounds are those of the local day of an instant: they are around the instant, every instant
of its date is between them and no other, and the day of the date that follows starts where this one
ends. -/
def WholeDay (zones : String → Option Zone) (rawTimeZone : String) (now : ℤ) : Prop :=
  ∃ zone day start stop, zones (trim rawTimeZone) = some zone ∧
    resolveTodayBriefDay zones rawTimeZone now = .ok day ∧
    toISOString start = some day.startAt ∧ toISOString stop = some day.endAt ∧
    start ≤ now ∧ now < stop ∧
    (∀ t, zone.date t = zone.date now ↔ start ≤ t ∧ t < stop) ∧
    ∀ later next, zone.date later = zone.date now + 1 →
      resolveTodayBriefDay zones rawTimeZone later = .ok next → next.startAt = day.endAt

section Resolved

variable {zones : String → Option Zone} {rawTimeZone : String} {zone : Zone} {now : ℤ}

/-- The name of a zone that the host knows. -/
structure Named (zones : String → Option Zone) (rawTimeZone : String) (zone : Zone) : Prop where
  not_empty : trim rawTimeZone ≠ ""
  short : codeUnits (trim rawTimeZone) ≤ MAX_TIME_ZONE_CHARS
  known : zones (trim rawTimeZone) = some zone

/-- A time value near the days in question. -/
theorem natAbs_le_of_date (hlow : -99999999 ≤ zone.date now) (hhigh : zone.date now ≤ 99999998) :
    now.natAbs ≤ 8640000000000000 := by
  obtain ⟨hbehind, hahead⟩ := zone.bounded now
  unfold Zone.date Zone.wall at hlow hhigh
  unfold DAY at *
  omega

theorem resolveTodayBriefDay_named (hnamed : Named zones rawTimeZone zone)
    (hrange : now.natAbs ≤ 8640000000000000) :
    resolveTodayBriefDay zones rawTimeZone now =
      (dayBounds (wallParts (zone.wall now)) zone).bind fun bounds =>
        boundary (trim rawTimeZone) (wallParts (zone.wall now)) now bounds.1 bounds.2 := by
  obtain ⟨hempty, hshort, hknown⟩ := hnamed
  have hname : ¬(trim rawTimeZone = "" ∨ codeUnits (trim rawTimeZone) > MAX_TIME_ZONE_CHARS) := by
    rintro (h | h)
    · exact hempty h
    · omega
  rw [resolveTodayBriefDay]
  dsimp only
  rw [if_neg hname, hknown, timeClip_eq hrange]
  dsimp only
  rw [dateTimeParts_eq hrange]
  rfl

section

variable (hnamed : Named zones rawTimeZone zone) (hdays : Ordinary (zone.date now))
  (hnext : Ordinary (zone.date now + 1))
include hnamed hdays hnext

/-- What is resolved on an ordinary day: the searches of both midnights, and the check. -/
theorem resolveTodayBriefDay_eq :
    resolveTodayBriefDay zones rawTimeZone now =
      match search zone (zone.date now * DAY) 6 (zone.date now * DAY),
        search zone ((zone.date now + 1) * DAY) 6 ((zone.date now + 1) * DAY) with
      | some start, some stop =>
        boundary (trim rawTimeZone) (wallParts (zone.wall now)) now start stop
      | _, _ => .error unresolved := by
  have hrange : now.natAbs ≤ 8640000000000000 :=
    natAbs_le_of_date (by have := hdays.1; omega) hdays.2
  have hdated : ∀ {d}, Ordinary d → Dated d := fun h =>
    ⟨by have := h.1; omega, by have := h.2; omega⟩
  have hdate : zone.wall now / 86400000 = zone.date now := rfl
  rw [resolveTodayBriefDay_named hnamed hrange, dayBounds, wallParts_midnight, hdate,
    nextMidnight_wallParts (hdated hdays) (hdated hnext), hdate]
  simp only [bind, localDateTimeToInstant_eq hdays, localDateTimeToInstant_eq hnext]
  cases search zone (zone.date now * DAY) 6 (zone.date now * DAY) with
  | none => rfl
  | some start =>
    cases search zone ((zone.date now + 1) * DAY) 6 ((zone.date now + 1) * DAY) with
    | none => rfl
    | some stop => rfl

/-- The bounds of a day that is resolved. -/
theorem bounds_of_ok {day : TodayBriefDayBoundary}
    (h : resolveTodayBriefDay zones rawTimeZone now = .ok day) :
    ∃ start stop, search zone (zone.date now * DAY) 6 (zone.date now * DAY) = some start ∧
      search zone ((zone.date now + 1) * DAY) 6 ((zone.date now + 1) * DAY) = some stop ∧
      toISOString start = some day.startAt ∧ toISOString stop = some day.endAt := by
  rw [resolveTodayBriefDay_eq hnamed hdays hnext] at h
  split at h
  · rename_i start stop hstart hstop
    rw [boundary] at h
    split at h
    · cases h
    · split at h
      · rename_i startAt endAt hstartAt hendAt
        cases h
        exact ⟨start, stop, hstart, hstop, hstartAt, hendAt⟩
      · cases h
  · cases h

end

/-- Bounds at the midnights of a day and the next pass the check. -/
theorem boundary_ok {d stop : ℤ} (hdays : Ordinary d) (hnow : zone.date now = d)
    (hstart : zone.Begins d start) (hstop : zone.Begins (d + 1) stop)
    (hfirst : zone.wall start = d * DAY) (hlast : zone.wall stop = (d + 1) * DAY)
    (timeZone : String) (current : DateTimeParts) :
    ∃ startAt endAt, toISOString start = some startAt ∧ toISOString stop = some endAt ∧
      start ≤ now ∧ now < stop ∧
      boundary timeZone current now start stop =
        .ok ⟨timeZone, localDate current, startAt, endAt⟩ := by
  obtain ⟨hlow, hhigh⟩ := hdays
  obtain ⟨hstartAt, hnowBefore⟩ := (Zone.date_eq_iff hstart hstop now).mp hnow
  obtain ⟨hbehind, hahead⟩ := zone.bounded start
  obtain ⟨hbehind', hahead'⟩ := zone.bounded stop
  unfold Zone.wall at hfirst hlast
  have hweek : stop < start + WEEK := by
    unfold WEEK
    unfold DAY at *
    omega
  obtain ⟨hless, hmore⟩ := zone.offset_near (show start ≤ stop by omega) hweek
  unfold JUMP at hless hmore
  unfold DAY at hfirst hlast hbehind hahead hbehind' hahead'
  obtain ⟨startAt, hstartText⟩ := toISOString_some (t := start) (by omega)
  obtain ⟨endAt, hendText⟩ := toISOString_some (t := stop) (by omega)
  refine ⟨startAt, endAt, hstartText, hendText, hstartAt, hnowBefore, ?_⟩
  have hcheck : ¬(¬(start ≤ now ∧ now < stop) ∨ stop - start < 20 * 60 * 60 * 1000 ∨
      stop - start > 28 * 60 * 60 * 1000) := by omega
  rw [boundary, if_neg hcheck, hstartText, hendText]

/-- A midnight in a year of two digits is searched in the twentieth century. -/
theorem localDateTimeToInstant_twoDigits
    (hyear : 0 ≤ (civilFromDays days).1 ∧ (civilFromDays days).1 ≤ 99)
    (h : localDateTimeToInstant (midnightParts days) zone = .ok start) : -30001 * DAY ≤ start := by
  have hdays : days * 86400000 / 86400000 = days := by omega
  have hcentury := daysFromCivil_1900 hyear (month_range days) (day_range days)
  generalize hmapped : daysFromCivil (1900 + (civilFromDays days).1) (civilFromDays days).2.1
    (civilFromDays days).2.2 = mapped at hcentury
  obtain ⟨hlow, hhigh⟩ := hcentury
  have hutc : asUtc (midnightParts days) = some (mapped * DAY) := by
    rw [asUtc, dateUTC]
    simp only [midnightParts, wallParts, hdays, if_pos hyear, hmapped]
    rw [timeClip_eq (by omega)]
    simp [DAY]
  have hordinary : Ordinary mapped := ⟨by omega, by omega⟩
  have htarget : (1000 : ℤ) ∣ mapped * DAY := Dvd.dvd.mul_left (by decide) mapped
  have hday : (0 : ℤ) < DAY := by decide
  rw [localDateTimeToInstant, hutc] at h
  dsimp only at h
  rw [adjustGuess_eq hordinary zone 6 htarget (by omega) (by omega)] at h
  split at h
  · rename_i t hsearch
    cases h
    have hwall := search_wall hsearch
    obtain ⟨hbehind, hahead⟩ := zone.bounded start
    unfold Zone.wall at hwall
    unfold DAY at *
    omega
  · cases h

/-- **In a year of two digits no day is resolved**: its start comes out in the twentieth century. -/
theorem not_resolved_twoDigits (hnamed : Named zones rawTimeZone zone)
    (hlow : -719528 ≤ zone.date now) (hhigh : zone.date now < -683003)
    (day : TodayBriefDayBoundary) : resolveTodayBriefDay zones rawTimeZone now ≠ .ok day := by
  intro h
  have hdate : zone.wall now / 86400000 = zone.date now := rfl
  have hrange : now.natAbs ≤ 8640000000000000 :=
    natAbs_le_of_date (show -99999999 ≤ zone.date now by omega) (by omega)
  rw [resolveTodayBriefDay_named hnamed hrange, dayBounds, wallParts_midnight, hdate] at h
  cases hstart : localDateTimeToInstant (midnightParts (zone.date now)) zone with
  | error e => rw [hstart] at h; cases h
  | ok start =>
    have hlate := localDateTimeToInstant_twoDigits (year_two_digits hlow hhigh) hstart
    obtain ⟨hbehind, hahead⟩ := zone.bounded now
    have hbefore : now < start := by
      unfold Zone.date Zone.wall at hhigh
      unfold DAY at *
      omega
    have hcheck : ∀ stop, boundary (trim rawTimeZone) (wallParts (zone.wall now)) now start stop =
        .error unresolved := fun stop => if_pos (Or.inl fun hin => absurd hin.1 (by omega))
    rw [hstart] at h
    cases hnext : nextMidnight (wallParts (zone.wall now)) with
    | none => rw [hnext] at h; cases h
    | some next =>
      rw [hnext] at h
      cases hstop : localDateTimeToInstant next zone with
      | error e =>
        simp only [bind, Except.bind, hstop] at h
        cases h
      | ok stop =>
        simp only [bind, Except.bind, hstop, pure, Except.pure, hcheck] at h
        cases h

/-- The days for which this is settled: those from the year 0 on that leave room for the search, but
for the first two days of the year 100. -/
def Settled (days : ℤ) : Prop :=
  -719528 ≤ days ∧ days ≤ 99999996 ∧ days ≠ -683003 ∧ days ≠ -683002

/-- **The bounds are those of the local day** exactly when both of its midnights are sound. -/
theorem resolveTodayBriefDay_wholeDay_iff (hnamed : Named zones rawTimeZone zone)
    (hsettled : Settled (zone.date now)) :
    WholeDay zones rawTimeZone now ↔ -683001 ≤ zone.date now ∧
      zone.SoundMidnight (zone.date now) ∧ zone.SoundMidnight (zone.date now + 1) := by
  obtain ⟨hlow, hhigh, hfirst, hsecond⟩ := hsettled
  by_cases hcentury : zone.date now < -683003
  · refine ⟨?_, fun h => absurd h.1 (by omega)⟩
    rintro ⟨-, day, -, -, -, hday, -⟩
    exact absurd hday (not_resolved_twoDigits hnamed hlow hcentury day)
  have hlater : -683001 ≤ zone.date now := by omega
  rw [and_iff_right hlater]
  have hdays : Ordinary (zone.date now) := ⟨hlater, by omega⟩
  have hnext : Ordinary (zone.date now + 1) := ⟨by omega, by omega⟩
  have hthird : Ordinary (zone.date now + 1 + 1) := ⟨by omega, by omega⟩
  rw [← search_begins_iff zone (zone.date now) 4, ← search_begins_iff zone (zone.date now + 1) 4]
  constructor
  · rintro ⟨zone', day, start, stop, hknown, hday, hstartAt, hendAt, hstart, hstop, hall, -⟩
    obtain rfl : zone = zone' := Option.some.inj (hnamed.known.symm.trans hknown)
    obtain ⟨start', stop', hsearch, hsearch', hstartAt', hendAt'⟩ :=
      bounds_of_ok hnamed hdays hnext hday
    obtain rfl := toISOString_inj hstartAt hstartAt'
    obtain rfl := toISOString_inj hendAt hendAt'
    obtain ⟨hbegins, hbegins'⟩ := Zone.begins_of_date rfl hstart hstop hall
    exact ⟨⟨start, hsearch, hbegins⟩, ⟨stop, hsearch', hbegins'⟩⟩
  · rintro ⟨⟨start, hsearch, hbegins⟩, ⟨stop, hsearch', hbegins'⟩⟩
    obtain ⟨startAt, endAt, hstartAt, hendAt, hstart, hstop, hok⟩ :=
      boundary_ok hdays rfl hbegins hbegins' (search_wall hsearch) (search_wall hsearch')
        (trim rawTimeZone) (wallParts (zone.wall now))
    let day : TodayBriefDayBoundary :=
      ⟨trim rawTimeZone, localDate (wallParts (zone.wall now)), startAt, endAt⟩
    refine ⟨zone, day, start, stop, hnamed.known, ?_, hstartAt, hendAt, hstart, hstop,
      Zone.date_eq_iff hbegins hbegins', fun later next hdate hresolved => ?_⟩
    · rw [resolveTodayBriefDay_eq hnamed hdays hnext, hsearch, hsearch']
      exact hok
    · obtain ⟨first, -, hfirst, -, hfirstAt, -⟩ :=
        bounds_of_ok hnamed (by rwa [hdate]) (by rwa [hdate]) hresolved
      rw [hdate, hsearch'] at hfirst
      cases hfirst
      exact Option.some.inj (hfirstAt.symm.trans hendAt)

end Resolved

/-! ### A clock that passes over midnight -/

/-- Cairo in 2026: at midnight of 24 April the clock goes from 00:00 to 01:00. -/
def cairo : Zone where
  offset t := if t < 1776981600000 then 7200000 else 10800000
  seconds t := by split <;> decide
  bounded t := by unfold DAY; split <;> decide
  jumps t := by unfold JUMP; split <;> split <;> omega
  apart s t hst hs ht := by
    unfold WEEK
    split at hs <;> split at hs <;> split at ht <;> split at ht <;> omega
  interval s t u hst htu h := by
    unfold DAY at *
    split at h <;> split at h <;> split <;> omega

def cairoZones (timeZone : String) : Option Zone :=
  if timeZone = "Africa/Cairo" then some cairo else none

theorem resolveTodayBriefDay_july :
    WholeDay cairoZones "Africa/Cairo" 1783809000000 ↔ -683001 ≤ cairo.date 1783809000000 ∧
      cairo.SoundMidnight (cairo.date 1783809000000) ∧
      cairo.SoundMidnight (cairo.date 1783809000000 + 1) :=
  @resolveTodayBriefDay_wholeDay_iff cairoZones "Africa/Cairo" cairo 1783809000000
    ⟨by decide, by decide, rfl⟩ ⟨by decide, by decide, by decide, by decide⟩

/-- On 24 April there is no midnight in Cairo, and nothing is resolved. -/
theorem missing_midnight_unresolved :
    resolveTodayBriefDay cairoZones "Africa/Cairo" 1777032000000 = .error unresolved ∧
      ¬WholeDay cairoZones "Africa/Cairo" 1777032000000 := by
  have herror :
      resolveTodayBriefDay cairoZones "Africa/Cairo" 1777032000000 = .error unresolved := rfl
  refine ⟨herror, ?_⟩
  rintro ⟨-, day, -, -, -, hday, -⟩
  rw [herror] at hday
  cases hday

end MailPortal.TodayBrief

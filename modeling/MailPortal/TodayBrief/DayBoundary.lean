import MailPortal.Lib.Clock
import MailPortal.Platform.Calendar

/-!
# The Day of the Today Brief

The brief is about one local day. Its bounds are the instants of two local midnights, which are
searched: the language tells the local date and time of an instant, not the instant of a local date.
A midnight is guessed as if it were universal time, and the guess is corrected six times at most.

The zones of the host are a parameter, from names to local clocks.
-/

namespace MailPortal.TodayBrief

open Clock

/-- A day of a zone. -/
structure TodayBriefDayBoundary where
  timeZone : String
  localDate : String
  startAt : String
  endAt : String
  deriving DecidableEq

/-- A time on a wall clock. -/
structure DateTimeParts where
  year : ℤ
  month : ℕ
  day : ℕ
  hour : ℕ
  minute : ℕ
  second : ℕ
  deriving DecidableEq

def MAX_TIME_ZONE_CHARS : ℕ := 100

/-- A time value, or none where a date is invalid. -/
def timeClip (t : ℤ) : Option ℤ := if t.natAbs ≤ maxTimeValue.toNat then some t else none

/-- `Date.UTC(year, month - 1, ...)`, which takes the years 0 to 99 for those from 1900 on. -/
def dateUTC (parts : DateTimeParts) : Option ℤ :=
  let year := if 0 ≤ parts.year ∧ parts.year ≤ 99 then 1900 + parts.year else parts.year
  timeClip (daysFromCivil year parts.month parts.day * 86400000 + (parts.hour : ℤ) * 3600000 +
    (parts.minute : ℤ) * 60000 + (parts.second : ℤ) * 1000)

/-- Formatting an invalid date throws a `RangeError`. -/
def invalidTime : String := "Invalid time value"

def unresolved : String := "Local day boundary could not be resolved"

/-- The date and time on the local clock. -/
def dateTimeParts (value : ℤ) (zone : Zone) : Except String DateTimeParts :=
  if value.natAbs ≤ maxTimeValue.toNat then
    let wall := zone.wall value
    let (year, month, day) := civilFromDays (wall / 86400000)
    let ms := (wall % 86400000).toNat
    .ok ⟨year, month, day, ms / 3600000, ms / 60000 % 60, ms / 1000 % 60⟩
  else .error invalidTime

def asUtc (parts : DateTimeParts) : Option ℤ := dateUTC parts

/-- The loop of `localDateTimeToInstant`, and the check behind it. -/
def adjustGuess (targetAsUtc : ℤ) (zone : Zone) : ℕ → ℤ → Except String ℤ
  | 0, guess => do
    let resolved ← dateTimeParts guess zone
    if asUtc resolved = some targetAsUtc then .ok guess else .error unresolved
  | attempts + 1, guess => do
    let parts ← dateTimeParts guess zone
    match asUtc parts with
    | none => .error invalidTime
    | some represented =>
      let adjustment := targetAsUtc - represented
      if adjustment = 0 then .ok guess
      else adjustGuess targetAsUtc zone attempts (guess + adjustment)

def localDateTimeToInstant (target : DateTimeParts) (zone : Zone) : Except String ℤ :=
  match asUtc target with
  | none => .error invalidTime
  | some targetAsUtc => adjustGuess targetAsUtc zone 6 targetAsUtc

/-- `padStart(width, "0")` -/
def padStart (width : ℕ) (text : String) : String :=
  String.ofList (List.replicate (width - text.length) '0' ++ text.toList)

def localDate (parts : DateTimeParts) : String :=
  padStart 4 (toString parts.year) ++ "-" ++ padStart 2 (toString parts.month) ++ "-" ++
    padStart 2 (toString parts.day)

/-- Midnight of the day after that of the parts, by the universal calendar. -/
def nextMidnight (parts : DateTimeParts) : Option DateTimeParts := do
  let currentDay ← dateUTC { parts with hour := 0, minute := 0, second := 0 }
  let nextDay ← timeClip (currentDay + 86400000)
  let (year, month, day) := civilFromDays (nextDay / 86400000)
  return ⟨year, month, day, 0, 0, 0⟩

/-- `start` and `end` of `resolveTodayBriefDay`. -/
def dayBounds (current : DateTimeParts) (zone : Zone) : Except String (ℤ × ℤ) := do
  let start ← localDateTimeToInstant { current with hour := 0, minute := 0, second := 0 } zone
  match nextMidnight current with
  | none => .error invalidTime
  | some next =>
    let stop ← localDateTimeToInstant next zone
    return (start, stop)

/-- The check of the bounds, and the result. -/
def boundary (timeZone : String) (current : DateTimeParts) (now start stop : ℤ) :
    Except String TodayBriefDayBoundary :=
  if ¬(start ≤ now ∧ now < stop) ∨ stop - start < 20 * 60 * 60 * 1000 ∨
      stop - start > 28 * 60 * 60 * 1000 then .error unresolved
  else
    match toISOString start, toISOString stop with
    | some startAt, some endAt => .ok ⟨timeZone, localDate current, startAt, endAt⟩
    | _, _ => .error invalidTime

def resolveTodayBriefDay (zones : String → Option Zone) (rawTimeZone : String) (now : ℤ) :
    Except String TodayBriefDayBoundary :=
  let timeZone := trim rawTimeZone
  if timeZone = "" ∨ codeUnits timeZone > MAX_TIME_ZONE_CHARS then
    .error "A valid time zone is required"
  else
    match zones timeZone, timeClip now with
    | some zone, some now => do
      let current ← dateTimeParts now zone
      let (start, stop) ← dayBounds current zone
      boundary timeZone current now start stop
    | _, _ => .error "A valid time zone is required"

end MailPortal.TodayBrief

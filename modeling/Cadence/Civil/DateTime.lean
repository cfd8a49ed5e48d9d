import Cadence.Civil.Date

/-!
# Civil datetimes

A datetime of the calendar without any time zone, from year -9999 to year 9999 and down to
nanoseconds.  It is kept as the number of seconds since 0000-01-01T00:00:00, which makes its order
and the addition of time plain arithmetic.
-/

namespace Cadence.Civil

/-- The number of seconds in a day. -/
def secondsPerDay : Int := 86400

/-- The first second of year -9999. -/
def firstSecond : Int := -3652059 * 86400

/-- The last second of year 9999. -/
def lastSecond : Int := 3652425 * 86400 - 1

/-- The number of nanoseconds in a second. -/
def nanosPerSecond : Nat := 1000000000

/-- A datetime of the calendar. -/
structure DateTime where
  second : Int
  nano : Nat
  inRange : firstSecond ≤ second ∧ second ≤ lastSecond
  nano_lt : nano < nanosPerSecond
deriving DecidableEq

namespace DateTime

/-- Earlier datetimes are smaller. -/
instance : LT DateTime :=
  ⟨fun a b => a.second < b.second ∨ (a.second = b.second ∧ a.nano < b.nano)⟩

instance (a b : DateTime) : Decidable (a < b) :=
  inferInstanceAs (Decidable (a.second < b.second ∨ (a.second = b.second ∧ a.nano < b.nano)))

theorem lt_def {a b : DateTime} :
    a < b ↔ a.second < b.second ∨ (a.second = b.second ∧ a.nano < b.nano) := Iff.rfl

/-- The datetime at a second and a nanosecond, if it is in range. -/
def of? (second : Int) (nano : Nat) : Option DateTime :=
  if h : (firstSecond ≤ second ∧ second ≤ lastSecond) ∧ nano < nanosPerSecond then
    some ⟨second, nano, h.1, h.2⟩
  else
    none

/-- The day number of a datetime. -/
def dayNumber (t : DateTime) : Int := t.second / secondsPerDay

/-- The number of seconds since midnight. -/
def secondOfDay (t : DateTime) : Int := t.second % secondsPerDay

/-- The date of a datetime. -/
def date (t : DateTime) : Date := Date.ofDayNumber t.dayNumber

/-- The year. -/
def year (t : DateTime) : Int := t.date.year

/-- The month, from 1 to 12. -/
def month (t : DateTime) : Int := t.date.month

/-- The day of the month, from 1. -/
def day (t : DateTime) : Int := t.date.day

/-- The hour, from 0 to 23. -/
def hour (t : DateTime) : Int := t.secondOfDay / 3600

/-- The minute, from 0 to 59. -/
def minute (t : DateTime) : Int := t.secondOfDay / 60 % 60

/-- The second within the minute, from 0 to 59. -/
def secondOfMinute (t : DateTime) : Int := t.secondOfDay % 60

/-- The day of the week, counted from Monday, which is zero.  Day 0 was a Saturday. -/
def daysSinceMonday (t : DateTime) : Int := (t.dayNumber + 5) % 7

/-- The first instant of a date and a second of the day, if they are in range. -/
def atDate? (date : Date) (secondOfDay : Int) (nano : Nat) : Option DateTime :=
  of? (date.dayNumber * secondsPerDay + secondOfDay) nano

theorem floor_inRange {s : Int} (h : firstSecond ≤ s ∧ s ≤ lastSecond) :
    firstSecond ≤ s - s % 86400 ∧ s - s % 86400 ≤ lastSecond := by
  simp only [firstSecond, lastSecond] at *
  omega

/-- The midnight that begins the day. -/
def startOfDay (t : DateTime) : DateTime :=
  ⟨t.second - t.second % 86400, 0, floor_inRange t.inRange, by decide⟩

/-- Drops everything finer than a second. -/
def truncate (t : DateTime) : DateTime := ⟨t.second, 0, t.inRange, by decide⟩

@[simp] theorem truncate_second (t : DateTime) : t.truncate.second = t.second := rfl

@[simp] theorem truncate_nano (t : DateTime) : t.truncate.nano = 0 := rfl

end DateTime

end Cadence.Civil

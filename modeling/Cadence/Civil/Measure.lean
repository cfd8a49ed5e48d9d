import Cadence.TimeUnit
import Cadence.Civil.DateTime

/-!
# Measuring units

The value of a unit within a scope.  Dates count from one, except that everything within the epoch
counts from zero; time units are the whole units elapsed since the scope began.  Months within the
epoch and weeks within a month are not measured.
-/

namespace Cadence.Civil.DateTime

/-- The day of the year, counted from one. -/
def dayOfYear (t : DateTime) : Int := t.date.dayOfYear

/-- The number of the week in its year.  Weeks begin on Monday and belong to the year of their
Thursday. -/
def weekOfYear (t : DateTime) : Int :=
  let thursday := t.dayNumber - t.daysSinceMonday + 3
  ((Date.ofDayNumber thursday).dayOfYear - 1) / 7 + 1

/-- The number of the week since the first Monday of the epoch, which was day 2. -/
def weekOfEpoch (t : DateTime) : Int := (t.dayNumber - 2) / 7

/-- The number of seconds since the period of a scope began. -/
def secondsInto (t : DateTime) (scope : TimeUnit) : Int :=
  let intoMinute := t.secondOfMinute
  let intoHour := t.minute * 60 + intoMinute
  let intoDay := t.hour * 3600 + intoHour
  match scope with
  | .second => 0
  | .minute => intoMinute
  | .hour => intoHour
  | .day => intoDay
  | .week => t.daysSinceMonday * secondsPerDay + intoDay
  | .month => (t.day - 1) * secondsPerDay + intoDay
  | .year => (t.dayOfYear - 1) * secondsPerDay + intoDay
  | .epoch => t.dayNumber * secondsPerDay + intoDay

theorem secondsInto_hour (t : DateTime) : t.secondsInto .hour = t.secondOfDay % 3600 := by
  simp only [secondsInto, minute, secondOfMinute]
  omega

/-- The hour, the minute and the second make up the time of day. -/
theorem secondsInto_day (t : DateTime) : t.secondsInto .day = t.secondOfDay := by
  simp only [secondsInto, hour, minute, secondOfMinute]
  omega

/-- The value of a unit within one of its legal scopes, as far as it is measured. -/
def measureLegal (t : DateTime) : TimeUnit → TimeUnit → Option Int
  | .year, .epoch => some t.year
  | .month, .year => some t.month
  | .week, .year => some t.weekOfYear
  | .week, .epoch => some t.weekOfEpoch
  | .day, .month => some t.day
  | .day, .year => some t.dayOfYear
  | .day, .week => some (t.daysSinceMonday + 1)
  | .day, .epoch => some t.dayNumber
  | .hour, scope => some (t.secondsInto scope / 3600)
  | .minute, scope => some (t.secondsInto scope / 60)
  | .second, scope => some (t.secondsInto scope)
  | _, _ => none

/-- The value of a unit within a scope, if it can be measured. -/
def measure (t : DateTime) (unit scope : TimeUnit) : Option Int :=
  if unit.isLegalScope scope then t.measureLegal unit scope else none

end Cadence.Civil.DateTime

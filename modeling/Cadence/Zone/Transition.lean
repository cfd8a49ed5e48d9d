import Cadence.Civil.DateTime
import Cadence.Zone.Offset

/-!
# Yearly transitions

The rules by which a zone moves its clocks forward and back every year: a day of the year and a
time of that day.
-/

namespace Cadence.Zone

/-- A point of a clock's time line, in seconds and nanoseconds since 0000-01-01T00:00:00 on that
clock.  Unlike a datetime it may lie anywhere. -/
structure Reading where
  second : Int
  nano : Nat
deriving DecidableEq, Inhabited

namespace Reading

instance : LT Reading :=
  ⟨fun a b => a.second < b.second ∨ (a.second = b.second ∧ a.nano < b.nano)⟩

instance (a b : Reading) : Decidable (a < b) :=
  inferInstanceAs (Decidable (a.second < b.second ∨ (a.second = b.second ∧ a.nano < b.nano)))

instance : LE Reading := ⟨fun a b => ¬ b < a⟩

instance (a b : Reading) : Decidable (a ≤ b) := inferInstanceAs (Decidable (¬ b < a))

/-- The first reading that a datetime may show. -/
def first : Reading := ⟨Civil.firstSecond, 0⟩

/-- The last reading that a datetime may show. -/
def last : Reading := ⟨Civil.lastSecond, Civil.nanosPerSecond - 1⟩

/-- Moves a reading by a number of seconds, to the beginning of the second that is reached.  What
would lie before the first datetime or after the last one stays at it. -/
def addSeconds (r : Reading) (seconds : Int) : Reading :=
  if r.second + seconds < Civil.firstSecond then first
  else if Civil.lastSecond < r.second + seconds then last
  else ⟨r.second + seconds, 0⟩

/-- The year that a reading lies in. -/
def year (r : Reading) : Int := Civil.yearOfDay (r.second / Civil.secondsPerDay)

end Reading

/-- A day that a rule picks in every year. -/
inductive YearDay
  /-- The n-th day of the year, from one, with February 29 never counted. -/
  | unleaped (n : Int)
  /-- The n-th day of the year, from zero, with February 29 counted. -/
  | counted (n : Int)
  /-- A weekday of a month, Sunday being zero.  Week five is the last one in the month. -/
  | weekday (month week target : Int)
deriving DecidableEq

namespace YearDay

/-- The number of the day in a year, if the year has it.  Day 0 was a Saturday. -/
def dayNumber? (year : Int) : YearDay → Option Int
  | unleaped n =>
      let leapDay := if Civil.isLeapYear year && 59 < n then 1 else 0
      some (Civil.daysBeforeYear year + n - 1 + leapDay)
  | counted n =>
      if n < (if Civil.isLeapYear year then 366 else 365) then
        some (Civil.daysBeforeYear year + n)
      else
        none
  | weekday month week target =>
      let first := (Civil.Date.mk year month 1).dayNumber
      if week = 5 then
        let last := first + Civil.monthLength (Civil.isLeapYear year) month - 1
        some (last - (last + 6 - target) % 7)
      else
        some (first + (target - (first + 6)) % 7 + 7 * (week - 1))

end YearDay

/-- A time on a day of every year, in seconds of wall clock after its midnight. -/
structure Transition where
  day : YearDay
  time : Int
deriving DecidableEq

namespace Transition

/-- The first reading of a year. -/
def yearStart (year : Int) : Reading :=
  ⟨Civil.daysBeforeYear year * Civil.secondsPerDay, 0⟩

/-- The last reading of a year. -/
def yearEnd (year : Int) : Reading :=
  ⟨Civil.daysBeforeYear (year + 1) * Civil.secondsPerDay - 1, Civil.nanosPerSecond - 1⟩

/-- When a transition happens in a year, read from a clock that is `behind` seconds behind the
clock the transition is stated for.  A transition stays within its year. -/
def inYear (transition : Transition) (year : Int) (behind : Int) : Reading :=
  match transition.day.dayNumber? year with
  | none => yearEnd year
  | some day =>
      let reading : Reading := ⟨day * Civil.secondsPerDay + transition.time - behind, 0⟩
      if reading < yearStart year then yearStart year
      else if yearEnd year < reading then yearEnd year
      else reading

end Transition

end Cadence.Zone

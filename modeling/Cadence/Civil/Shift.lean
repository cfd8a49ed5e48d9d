import Cadence.Error
import Cadence.Civil.DateTime

/-!
# Shifting datetimes

Moving a datetime by a number of units.  Weeks and finer units are fixed lengths of time; months
and years keep the day of the month as far as the month reached is long enough.
-/

namespace Cadence.Civil

/-- The greatest number of each unit that a datetime may be shifted by, in either direction. -/
def shiftLimit : TimeUnit → Int
  | .epoch => 0
  | .year => 19998
  | .month => 239976
  | .week => 1043497
  | .day => 7304484
  | .hour => 175307616
  | .minute => 10518456960
  | .second => 631107417600

/-- Whether a shift keeps to its limit. -/
def withinShiftLimit (unit : TimeUnit) (count : Int) : Bool :=
  -shiftLimit unit ≤ count && count ≤ shiftLimit unit

/-- The number of seconds in a unit of fixed length. -/
def secondsPer : TimeUnit → Int
  | .week => 604800
  | .day => 86400
  | .hour => 3600
  | .minute => 60
  | .second => 1
  | _ => 0

namespace DateTime

/-- Adds seconds. -/
def addSeconds? (t : DateTime) (seconds : Int) : Option DateTime := of? (t.second + seconds) t.nano

/-- Adds months.  A day that the month reached does not have becomes its last day. -/
def addMonths? (t : DateTime) (months : Int) : Option DateTime :=
  let date := t.date
  let total := 12 * date.year + (date.month - 1) + months
  let year := total / 12
  let month := total % 12 + 1
  let day := min date.day (monthLength (isLeapYear year) month)
  atDate? ⟨year, month, day⟩ t.secondOfDay t.nano

/-- Adds a number of units without regard to the limit of shifts. -/
def add? (t : DateTime) (unit : TimeUnit) (count : Int) : Option DateTime :=
  match unit with
  | .epoch => none
  | .year => t.addMonths? (12 * count)
  | .month => t.addMonths? count
  | _ => t.addSeconds? (secondsPer unit * count)

/-- Shifts a datetime by a number of units. -/
def shift (t : DateTime) (unit : TimeUnit) (count : Int) : Except Error DateTime :=
  if unit = .epoch then
    .error (.unsupported unit unit)
  else if withinShiftLimit unit count then
    match t.add? unit count with
    | some moved => .ok moved
    | none => .error .outOfRange
  else
    .error .outOfRange

end DateTime

end Cadence.Civil

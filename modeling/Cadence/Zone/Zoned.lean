import Cadence.Civil.Shift
import Cadence.Civil.Text
import Cadence.Zone.Basic

/-!
# Zoned datetimes

An instant together with the zone whose clocks show it.  Shifting by days and coarser units keeps
the wall clock time as far as the zone allows, while shifting by hours and finer units adds time
that really passes.
-/

namespace Cadence

/-- The first second that an instant may lie in: the wall clocks of all zones show it in range. -/
def firstInstant : Int := Civil.firstSecond + maxOffset

/-- The last second that an instant may lie in. -/
def lastInstant : Int := Civil.lastSecond - maxOffset

/-- An instant, in seconds and nanoseconds since 0000-01-01T00:00:00 of Universal Time. -/
@[ext]
structure Instant where
  second : Int
  nano : Nat
  inRange : firstInstant ≤ second ∧ second ≤ lastInstant
  nano_lt : nano < Civil.nanosPerSecond

namespace Instant

instance : DecidableEq Instant := fun a b =>
  decidable_of_iff (a.second = b.second ∧ a.nano = b.nano) Instant.ext_iff.symm

/-- Earlier instants are smaller. -/
instance : LT Instant :=
  ⟨fun a b => a.second < b.second ∨ (a.second = b.second ∧ a.nano < b.nano)⟩

instance (a b : Instant) : Decidable (a < b) :=
  inferInstanceAs (Decidable (a.second < b.second ∨ (a.second = b.second ∧ a.nano < b.nano)))

/-- The instant at a second and a nanosecond, if it is in range. -/
def of? (second : Int) (nano : Nat) : Option Instant :=
  if h : (firstInstant ≤ second ∧ second ≤ lastInstant) ∧ nano < Civil.nanosPerSecond then
    some ⟨second, nano, h.1, h.2⟩
  else
    none

/-- The instant at which a clock with an offset shows a time. -/
def ofLocal? (t : Civil.DateTime) (offset : Offset) : Option Instant :=
  of? (t.second - offset.seconds) t.nano

/-- Adds seconds. -/
def addSeconds? (i : Instant) (seconds : Int) : Option Instant := of? (i.second + seconds) i.nano

/-- The time of an instant on the clock of Universal Time. -/
def reading (i : Instant) : Zone.Reading := ⟨i.second, i.nano⟩

theorem shown_inRange {second : Int} (h : firstInstant ≤ second ∧ second ≤ lastInstant)
    (offset : Offset) :
    Civil.firstSecond ≤ second + offset.seconds ∧ second + offset.seconds ≤ Civil.lastSecond := by
  have hoffset := offset.bounded
  simp only [firstInstant, lastInstant] at h
  omega

/-- What a clock with an offset shows at an instant. -/
def shown (i : Instant) (offset : Offset) : Civil.DateTime :=
  ⟨i.second + offset.seconds, i.nano, shown_inRange i.inRange offset, i.nano_lt⟩

/-- Writes an instant as a datetime of Universal Time. -/
def text (i : Instant) : String := (i.shown .utc).text ++ "Z"

end Instant

/-- An instant in a zone, and the offset of the wall clock that shows it.  A wall clock time that is
resolved keeps its offset.  Near the turn of a year the rules of a zone may give the instant another
one, which then applies as soon as the datetime is moved. -/
structure Zoned where
  instant : Instant
  zone : Zone
  offset : Offset
deriving DecidableEq

/-- The point on the time line of wall clocks. -/
def Civil.DateTime.reading (t : Civil.DateTime) : Zone.Reading := ⟨t.second, t.nano⟩

namespace Zoned

/-- Zoned datetimes are ordered by their instants. -/
instance : LT Zoned := ⟨fun a b => a.instant < b.instant⟩

instance (a b : Zoned) : Decidable (a < b) := inferInstanceAs (Decidable (a.instant < b.instant))

/-- An instant with the offset that the zone has at it. -/
def atInstant (zone : Zone) (i : Instant) : Zoned := ⟨i, zone, zone.offsetAt i.reading⟩

/-- What the clocks of the zone show. -/
def wallClock (z : Zoned) : Civil.DateTime := z.instant.shown z.offset

/-- The instant at which the clocks of a zone show a time.  In a gap the time is shifted forward
by the gap's length; in a fold the earlier instant is taken. -/
def ofLocal? (zone : Zone) (t : Civil.DateTime) : Option Zoned :=
  match zone.resolve t.reading with
  | .unique offset => (Instant.ofLocal? t offset).map fun i => ⟨i, zone, offset⟩
  | resolution => (Instant.ofLocal? t resolution.compatible).map (atInstant zone)

/-- The instant at which the clocks of a zone show a time, with the offset that the zone has at it.
In a fold a preferred offset is kept if it is one of the two. -/
def ofLocalPreferring? (zone : Zone) (t : Civil.DateTime) (preferred : Offset) : Option Zoned :=
  let resolution := zone.resolve t.reading
  let offset :=
    match resolution with
    | .fold before after =>
        if preferred = before ∨ preferred = after then preferred else resolution.compatible
    | _ => resolution.compatible
  (Instant.ofLocal? t offset).map (atInstant zone)

/-- Adds seconds that really pass. -/
def addSeconds? (z : Zoned) (seconds : Int) : Option Zoned :=
  (z.instant.addSeconds? seconds).map (atInstant z.zone)

/-- Adds a number of units without regard to the limit of shifts.  Adding none of a unit stays at
the instant, even where the wall clock time is shown twice. -/
def add? (z : Zoned) (unit : TimeUnit) (count : Int) : Option Zoned :=
  if unit.isTime then
    z.addSeconds? (Civil.secondsPer unit * count)
  else if count = 0 then
    some (atInstant z.zone z.instant)
  else
    (z.wallClock.add? unit count).bind (ofLocal? z.zone)

/-- Shifts by a number of units. -/
def shift (z : Zoned) (unit : TimeUnit) (count : Int) : Except Error Zoned :=
  if unit = .epoch then
    .error (.unsupported unit unit)
  else if Civil.withinShiftLimit unit count then
    match z.add? unit count with
    | some moved => .ok moved
    | none => .error .outOfRange
  else
    .error .outOfRange

/-- Drops everything finer than a second. -/
def truncate (z : Zoned) : Except Error Zoned :=
  match ofLocalPreferring? z.zone z.wallClock.truncate z.offset with
  | some truncated => .ok truncated
  | none => .error .outOfRange

/-- The first instant of the day, as far as its midnight can be resolved. -/
def startOfDay? (z : Zoned) : Option Zoned := ofLocal? z.zone z.wallClock.startOfDay

/-- The same wall clock time a number of days later. -/
def addDays? (z : Zoned) (days : Int) : Option Zoned :=
  (z.wallClock.add? .day days).bind (ofLocal? z.zone)

/-- Writes a zoned datetime: the wall clock time, the offset, and the zone's name in brackets.  A
zone without a name is named by the offset. -/
def text (z : Zoned) : String :=
  match z.zone.name? with
  | some name =>
      if name = Zone.unknownName then z.wallClock.text ++ "Z[" ++ name ++ "]"
      else z.wallClock.text ++ z.offset.text ++ "[" ++ name ++ "]"
  | none => z.wallClock.text ++ z.offset.text ++ "[" ++ z.offset.text ++ "]"

end Zoned

end Cadence

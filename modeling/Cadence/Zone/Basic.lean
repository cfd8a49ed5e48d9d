import Cadence.Zone.Transition

/-!
# Time zones

A zone has a standard offset and possibly a daylight offset between two yearly transitions, the
same ones in all years.  Those are the zones of constant offsets and the ones that a text of rules
describes.  There are no others: a zone whose rules were changed some time is left out, and whatever
is said of every zone is said of these.  A zone answers two questions: which offset holds at an
instant (`Zone.offsetAt`), and which instants show a given wall clock time (`Zone.resolve`), of
which there may be none or two.
-/

namespace Cadence

/-- The part of the year with a different offset. -/
structure Daylight where
  offset : Offset
  starts : Zone.Transition
  ends : Zone.Transition
deriving DecidableEq

/-- A time zone, with the same rules in all years: a constant offset, or two offsets that take turns
within a year.  Zones of the zone database have a name; of their rules only one set is kept. -/
structure Zone where
  name? : Option String
  standard : Offset
  daylight? : Option Daylight
deriving DecidableEq

namespace Zone

/-- A stretch of readings between two points.  When the first lies after the second, it is the
rest of the year. -/
structure Stretch where
  start : Reading
  stop : Reading

/-- Whether a reading lies in a stretch. -/
def Stretch.contains (stretch : Stretch) (r : Reading) : Bool :=
  if stretch.start ≤ stretch.stop then stretch.start ≤ r && r < stretch.stop
  else !(stretch.stop ≤ r && r < stretch.start)

/-- When daylight time holds in a year of Universal Time.  When it begins with the year and its
end falls into another year of standard time, it holds all year. -/
def daylightUtc (standard : Offset) (daylight : Daylight) (year : Int) : Stretch :=
  let start := daylight.starts.inYear year standard.seconds
  let stop := daylight.ends.inYear year daylight.offset.seconds
  if start = Transition.yearStart year && (stop.addSeconds standard.seconds).year ≠ year then
    ⟨start, Transition.yearEnd year⟩
  else
    ⟨start, stop⟩

/-- When daylight time holds in a year, by the wall clock that runs until each transition. -/
def daylightWall (daylight : Daylight) (year : Int) : Stretch :=
  ⟨daylight.starts.inYear year 0, daylight.ends.inYear year 0⟩

/-- The offset at a reading of Universal Time. -/
def offsetAt (zone : Zone) (utc : Reading) : Offset :=
  match zone.daylight? with
  | none => zone.standard
  | some daylight =>
      if (daylightUtc zone.standard daylight utc.year).contains utc then daylight.offset
      else zone.standard

/-- What the instants that show a wall clock time have for offsets. -/
inductive Resolution
  /-- One instant shows the time. -/
  | unique (offset : Offset)
  /-- No instant shows the time: the clocks move forward past it. -/
  | gap (before after : Offset)
  /-- Two instants show the time: the clocks move back over it. -/
  | fold (before after : Offset)
deriving DecidableEq

/-- The offset that resolves a time when nothing else is known.  In a gap it shifts the time
forward by the gap's length; in a fold it picks the earlier instant. -/
def Resolution.compatible : Resolution → Offset
  | unique offset => offset
  | gap before _ => before
  | fold before _ => before

/-- Whether some instant with an offset shows the time. -/
def Resolution.admits (offset : Offset) : Resolution → Bool
  | unique only => offset = only
  | gap _ _ => false
  | fold before after => offset = before || offset = after

/-- Resolves a time near a pair of transitions of which the first moves the clocks forward. -/
def resolveAhead (standard : Offset) (daylight : Daylight) (stretch : Stretch) (r : Reading) :
    Resolution :=
  let ahead := daylight.offset.seconds - standard.seconds
  if !stretch.contains r then .unique standard
  else if stretch.start ≤ r && r < stretch.start.addSeconds ahead then
    .gap standard daylight.offset
  else if stretch.stop.addSeconds (-ahead) ≤ r && r < stretch.stop then
    .fold daylight.offset standard
  else .unique daylight.offset

/-- Resolves a time near a pair of transitions of which the first moves the clocks back. -/
def resolveBehind (standard : Offset) (daylight : Daylight) (stretch : Stretch) (r : Reading) :
    Resolution :=
  let behind := standard.seconds - daylight.offset.seconds
  if stretch.contains r then .unique daylight.offset
  else if stretch.start.addSeconds (-behind) ≤ r && r < stretch.start then
    .fold standard daylight.offset
  else if stretch.stop ≤ r && r < stretch.stop.addSeconds behind then
    .gap daylight.offset standard
  else .unique standard

/-- Resolves a wall clock time. -/
def resolve (zone : Zone) (r : Reading) : Resolution :=
  match zone.daylight? with
  | none => .unique zone.standard
  | some daylight =>
      let stretch := daylightWall daylight r.year
      if daylight.offset.seconds = zone.standard.seconds then .unique zone.standard
      else if zone.standard.seconds < daylight.offset.seconds then
        resolveAhead zone.standard daylight stretch r
      else
        resolveBehind zone.standard daylight stretch r

/-- Universal Time. -/
def utc : Zone := ⟨some "UTC", .utc, none⟩

instance : Inhabited Zone := ⟨utc⟩

/-- The name of the zone that stands in for one that is not known. -/
def unknownName : String := "Etc/Unknown"

/-- The zone that stands in for one that is not known.  It behaves like Universal Time. -/
def unknown : Zone := ⟨some unknownName, .utc, none⟩

/-- The zone of a constant offset. -/
def fixed (offset : Offset) : Zone :=
  if offset = .utc then utc else ⟨none, offset, none⟩

end Zone

end Cadence

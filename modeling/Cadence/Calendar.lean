import Cadence.Civil.Measure
import Cadence.Civil.Shift
import Cadence.Civil.Text
import Cadence.Zone.Zoned

/-!
# Calendars

What the search has to know about a kind of date: how to compare dates, measure their units, move
them by a number of units and read the wall clock.  Civil datetimes and zoned datetimes are the two
kinds.  Both are measured on the wall clock (`WallClockCalendar`).
-/

namespace Cadence

/-- A kind of date that frequencies can be evaluated on. -/
class Calendar (δ : Type) extends LT δ where
  /-- The order of dates can be decided. -/
  decidableLT (a b : δ) : Decidable (a < b)
  /-- What a clock on the wall shows. -/
  wallClock : δ → Civil.DateTime
  /-- The value of a unit within a scope. -/
  read : δ → TimeUnit → TimeUnit → Except Error Int
  /-- Moves a date by a number of units. -/
  shift : δ → TimeUnit → Int → Except Error δ
  /-- Drops everything finer than a second. -/
  truncate : δ → Except Error δ
  /-- Writes a date. -/
  text : δ → String

namespace Calendar

variable {δ : Type} [Calendar δ]

instance (a b : δ) : Decidable (a < b) := decidableLT a b

end Calendar

namespace Civil.DateTime

/-- The value of a unit within a scope, read from what a clock shows. -/
def read (t : DateTime) (unit scope : TimeUnit) : Except Error Int :=
  match t.measure unit scope with
  | some value => .ok value
  | none => .error (.unsupported unit scope)

theorem read_eq_ok {t : DateTime} {unit scope : TimeUnit} {value : Int} :
    t.read unit scope = .ok value ↔ t.measure unit scope = some value := by
  simp only [read]
  split <;> simp_all

end Civil.DateTime

/-- Civil datetimes, without any zone.  Every day has 24 hours. -/
instance : Calendar Civil.DateTime where
  decidableLT _ _ := inferInstance
  wallClock t := t
  read := Civil.DateTime.read
  shift := Civil.DateTime.shift
  truncate t := .ok t.truncate
  text := Civil.DateTime.text

/-- Zoned datetimes.  Values are read from the clocks of the zone. -/
instance : Calendar Zoned where
  decidableLT _ _ := inferInstance
  wallClock := Zoned.wallClock
  read z := z.wallClock.read
  shift := Zoned.shift
  truncate := Zoned.truncate
  text := Zoned.text

/-- Calendars whose dates are measured on the wall clock. -/
class WallClockCalendar (δ : Type) [Calendar δ] : Prop where
  read_eq (date : δ) (unit scope : TimeUnit) :
    Calendar.read date unit scope = (Calendar.wallClock date).read unit scope

instance : WallClockCalendar Civil.DateTime := ⟨fun _ _ _ => rfl⟩

instance : WallClockCalendar Zoned := ⟨fun _ _ _ => rfl⟩

end Cadence

import Cadence.Text.Decimal

/-!
# Offsets

The distance of a wall clock from Universal Time, in seconds and less than 26 hours either way.
-/

namespace Cadence

/-- The greatest distance of a wall clock from Universal Time: 25:59:59. -/
def maxOffset : Int := 93599

/-- How many seconds a wall clock is ahead of Universal Time. -/
structure Offset where
  seconds : Int
  bounded : -maxOffset ≤ seconds ∧ seconds ≤ maxOffset
deriving DecidableEq

namespace Offset

/-- Universal Time itself. -/
def utc : Offset := ⟨0, by decide⟩

instance : Inhabited Offset := ⟨utc⟩

/-- The offset of a number of seconds, if it is in range. -/
def of? (seconds : Int) : Option Offset :=
  if h : -maxOffset ≤ seconds ∧ seconds ≤ maxOffset then some ⟨seconds, h⟩ else none

/-- The greatest number of whole minutes that an offset has: 25:59. -/
def maxMinutes : Nat := 1559

/-- The nearest number of whole minutes that an offset may have, half a minute counting as a whole
one. -/
def minutes (offset : Offset) : Nat := min ((offset.seconds.natAbs + 30) / 60) maxMinutes

/-- Writes an offset as a sign, hours and minutes. -/
def text (offset : Offset) : String :=
  (if offset.seconds < 0 then "-" else "+") ++ Text.paddedText 2 (offset.minutes / 60) ++ ":" ++
    Text.paddedText 2 (offset.minutes % 60)

end Offset

end Cadence

import Cadence.Civil.DateTime
import Cadence.Text.Decimal

/-!
# Writing datetimes

Datetimes are written as `2013-09-02T11:10:20`.  Years before year zero are written with a sign
and six digits, and a fraction of a second is written only when there is one, without trailing
zeros.
-/

namespace Cadence.Civil

/-- A year in four digits, or in six after a minus sign. -/
def yearText (year : Int) : String :=
  if year < 0 then "-" ++ Text.paddedText 6 year.natAbs else Text.paddedText 4 year.natAbs

/-- A fraction of a second, empty when there is none. -/
def fractionText (nano : Nat) : String :=
  if nano = 0 then ""
  else
    let digits := (Text.padded 9 nano).reverse.dropWhile (· == '0')
    "." ++ String.ofList digits.reverse

/-- Writes a date. -/
def Date.text (date : Date) : String :=
  yearText date.year ++ "-" ++ Text.paddedText 2 date.month.toNat ++ "-" ++
    Text.paddedText 2 date.day.toNat

/-- Writes a number of seconds since midnight as a clock time. -/
def clockText (secondOfDay : Int) : String :=
  Text.paddedText 2 (secondOfDay / 3600).toNat ++ ":" ++
    Text.paddedText 2 (secondOfDay / 60 % 60).toNat ++ ":" ++
    Text.paddedText 2 (secondOfDay % 60).toNat

/-- Writes a datetime. -/
def DateTime.text (t : DateTime) : String :=
  t.date.text ++ "T" ++ clockText t.secondOfDay ++ fractionText t.nano

end Cadence.Civil

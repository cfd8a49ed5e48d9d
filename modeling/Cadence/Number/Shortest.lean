import Cadence.Number.Binary64
import Cadence.Text.Decimal

/-!
# Shortest decimals

The decimal with the fewest digits that is nearer to a floating point number than to any other, and
of those the nearest one.
-/

namespace Cadence.Number

/-- A decimal number `digits * 10 ^ exponent`. -/
structure Decimal where
  digits : Nat
  exponent : Int
deriving DecidableEq

namespace Binary64

/-- The exponent of the leading decimal digit of a positive number. -/
def leadingExponent (x : Binary64) : Int :=
  ((Text.decimal (x.num * Nat.pow 10 400 / x.den)).length : Int) - 401

/-- Four times the mantissa of a number and of the bounds of the numbers that are rounded to it.
Below a power of two the numbers lie twice as close. -/
def bounds (x : Binary64) : Nat × Nat × Nat :=
  let center := 4 * x.mantissa
  let low :=
    if x.mantissa = leastNormal ∧ minExponent < x.exponent then center - 1 else center - 2
  (low, center, center + 2)

/-- The decimal with an exponent that is rounded to a number, if there is one.  Only the two
neighbours of the number come into question, and the nearer one is taken. -/
def decimalAt? (x : Binary64) (exponent : Int) : Option Decimal :=
  let (low, center, high) := x.bounds
  let unit := up (x.exponent - 2) * Nat.pow 10 (-exponent).toNat
  let grid := Nat.pow 10 exponent.toNat * down (x.exponent - 2)
  let isHit (d : Nat) : Bool :=
    if x.mantissa % 2 = 0 then low * unit ≤ d * grid && d * grid ≤ high * unit
    else low * unit < d * grid && d * grid < high * unit
  let below := center * unit / grid
  let above := below + 1
  let toBelow := center * unit - below * grid
  let toAbove := above * grid - center * unit
  let first := toBelow < toAbove || (toBelow = toAbove && below % 2 = 0)
  match isHit below, isHit above with
  | true, true => some ⟨if first then below else above, exponent⟩
  | true, false => some ⟨below, exponent⟩
  | false, true => some ⟨above, exponent⟩
  | false, false => none

/-- The shortest decimal of a positive number.  Seventeen digits always suffice. -/
def shortest (x : Binary64) : Decimal :=
  let leading := x.leadingExponent
  let hit := (List.range 17).findSome? fun (i : Nat) => x.decimalAt? (leading - i)
  hit.getD ⟨x.mantissa, x.exponent⟩

end Binary64

namespace Decimal

/-- The digits of a decimal without zeros at the end, and the exponent of the first digit. -/
def significant (d : Decimal) : List Char × Int :=
  let digits := Text.decimal d.digits
  ((digits.reverse.dropWhile (· = '0')).reverse, d.exponent + digits.length - 1)

/-- Writes a row of digits whose first digit has an exponent between -5 and 15: with a point and at
least one digit on either side of it. -/
def positional (digits : List Char) (exponent : Int) : List Char :=
  if exponent < 0 then
    ['0', '.'] ++ List.replicate (-exponent - 1).toNat '0' ++ digits
  else
    let whole := exponent.toNat + 1
    let filled := digits ++ List.replicate (whole - digits.length) '0'
    let fraction := filled.drop whole
    filled.take whole ++ ['.'] ++ if fraction = [] then ['0'] else fraction

/-- Writes a row of digits with a point after the first one, and an exponent with a sign and without
leading zeros. -/
def scientific (digits : List Char) (exponent : Int) : List Char :=
  let fraction := digits.drop 1
  digits.take 1 ++ (if fraction = [] then [] else '.' :: fraction) ++
    ['e', if exponent < 0 then '-' else '+'] ++ Text.decimal exponent.natAbs

/-- Writes a positive decimal. -/
def text (d : Decimal) : List Char :=
  let (digits, exponent) := d.significant
  if -5 ≤ exponent ∧ exponent ≤ 15 then positional digits exponent
  else scientific digits exponent

end Decimal

/-- Writes a floating point number with a sign. -/
def floatText (negative : Bool) (x : Binary64) : String :=
  let magnitude := if x.mantissa = 0 then ['0', '.', '0'] else x.shortest.text
  String.ofList (if negative then '-' :: magnitude else magnitude)

end Cadence.Number

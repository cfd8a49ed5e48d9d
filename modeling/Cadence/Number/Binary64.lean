/-!
# Binary floating point

Nonnegative numbers of the binary64 format, as a mantissa of at most 53 bits and an exponent.  All
arithmetic is exact and then rounded to the nearest such number, halves to the even mantissa.
-/

namespace Cadence.Number

/-- A nonnegative number `mantissa * 2 ^ exponent`. -/
structure Binary64 where
  mantissa : Nat
  exponent : Int
deriving DecidableEq

namespace Binary64

/-- The least exponent. -/
def minExponent : Int := -1074

/-- The greatest exponent. -/
def maxExponent : Int := 971

/-- The least mantissa of 53 bits. -/
def leastNormal : Nat := Nat.pow 2 52

/-- The number zero. -/
def zero : Binary64 := ⟨0, minExponent⟩

/-- A quotient rounded to the nearest integer, halves to the even one. -/
def roundQuotient (num den : Nat) : Nat :=
  let quotient := num / den
  let twice := 2 * (num % den)
  if twice < den ∨ (twice = den ∧ quotient % 2 = 0) then quotient else quotient + 1

/-- The power of two in a numerator, for an exponent of either sign. -/
def up (exponent : Int) : Nat := Nat.pow 2 exponent.toNat

/-- The power of two in a denominator, for an exponent of either sign. -/
def down (exponent : Int) : Nat := Nat.pow 2 (-exponent).toNat

/-- The exponent with which a positive ratio has a mantissa of 53 bits. -/
def normalExponent (num den : Nat) : Int :=
  let low : Int := (Nat.log2 num : Int) - Nat.log2 den - 53
  if num * down low < 2 * leastNormal * (den * up low) then low else low + 1

/-- The nearest number to a ratio.  There is none when the ratio is too great. -/
def ofRatio (num den : Nat) : Option Binary64 :=
  if num = 0 then some zero
  else
    let exponent := max (normalExponent num den) minExponent
    let mantissa := roundQuotient (num * down exponent) (den * up exponent)
    let rounded : Binary64 :=
      if mantissa = 2 * leastNormal then ⟨leastNormal, exponent + 1⟩ else ⟨mantissa, exponent⟩
    if rounded.exponent ≤ maxExponent then some rounded else none

/-- The nearest number to a natural number. -/
def ofNat (n : Nat) : Option Binary64 := ofRatio n 1

/-- The numerator of a number. -/
def num (x : Binary64) : Nat := x.mantissa * up x.exponent

/-- The denominator of a number. -/
def den (x : Binary64) : Nat := down x.exponent

/-- The product of two numbers, unless it is too great. -/
def mul (x y : Binary64) : Option Binary64 := ofRatio (x.num * y.num) (x.den * y.den)

/-- The quotient of two numbers of which the second is positive, unless it is too great. -/
def div (x y : Binary64) : Option Binary64 := ofRatio (x.num * y.den) (x.den * y.num)

end Binary64

end Cadence.Number

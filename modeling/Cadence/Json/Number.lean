import Cadence.Number.Shortest
import Cadence.Text.Scan

/-!
# Numbers of JSON

An integer literal is an integer as long as 64 bits hold it, with or without a sign.  All other
literals are floating point numbers.  Their digits are collected as far as 64 bits hold them, and
the power of ten that remains is applied in floating point arithmetic.
-/

namespace Cadence.Json

/-- A number. -/
inductive Number
  | integer (n : Int)
  | float (negative : Bool) (magnitude : Number.Binary64)
deriving DecidableEq

namespace Number

/-- The greatest integer. -/
def maxInteger : Nat := 18446744073709551615

/-- The power of ten with an exponent of at most 308. -/
def powerOfTen (exponent : Nat) : Option Number.Binary64 :=
  Number.Binary64.ofNat (Nat.pow 10 exponent)

/-- Divides a number a number of times, until it is zero. -/
def divideBy (divisor : Number.Binary64) : Nat → Number.Binary64 → Option Number.Binary64
  | 0, x => some x
  | times + 1, x =>
      if x.mantissa = 0 then some x
      else
        match x.div divisor with
        | some smaller => divideBy divisor times smaller
        | none => none

/-- Applies a power of ten to a number, unless the result is too great.  Powers below the smallest
in use are applied in several steps. -/
def scale (x : Number.Binary64) (exponent : Int) : Option Number.Binary64 :=
  if x.mantissa = 0 then some x
  else if 308 < exponent then none
  else if 0 ≤ exponent then do
    x.mul (← powerOfTen exponent.toNat)
  else do
    let steps := (exponent.natAbs - 1) / 308
    let smaller ← divideBy (← powerOfTen 308) steps x
    smaller.div (← powerOfTen (exponent.natAbs - 308 * steps))

/-- Collects digits into a number as long as it stays within bounds.  Returns the number, how many
digits were collected, and the digits that were not. -/
def collect : Nat → List Char → Nat × Nat × List Char
  | n, [] => (n, 0, [])
  | n, c :: digits =>
      let grown := n * 10 + Text.digitValue c
      if grown ≤ maxInteger then
        let (m, count, rest) := collect grown digits
        (m, count + 1, rest)
      else
        (n, 0, c :: digits)

/-- The exponent beyond which the value of a literal is no longer told apart. -/
def maxExponent : Nat := 2147483647

/-- The parts of a literal.  A missing fraction or exponent is told apart from an empty one. -/
structure Literal where
  negative : Bool
  whole : List Char
  fraction : Option (List Char)
  exponent : Option (Bool × List Char)

/-- The floating point number of a literal, unless it is too great. -/
def Literal.float (literal : Literal) : Option Number.Binary64 := do
  let (whole, _, left) := collect 0 literal.whole
  let (significand, places, _) := collect whole (literal.fraction.getD [])
  let start : Int := left.length - places
  let x ← Number.Binary64.ofNat significand
  match literal.exponent with
  | none => scale x start
  | some (down, digits) =>
      let exponent := Text.value digits
      if maxExponent < exponent then
        if significand ≠ 0 ∧ !down then none else some .zero
      else
        scale x (if down then start - exponent else start + exponent)

/-- The number of a literal, unless it is too great. -/
def Literal.number (literal : Literal) : Option Number :=
  let n := Text.value literal.whole
  match literal.fraction, literal.exponent with
  | none, none =>
      if literal.negative then
        if 0 < n ∧ n ≤ 9223372036854775808 then some (.integer (-n))
        else literal.float.map (.float true)
      else if n ≤ maxInteger then some (.integer n)
      else literal.float.map (.float false)
  | _, _ => literal.float.map (.float literal.negative)

/-- Reads digits, of which there must be some. -/
def readDigits (text : List Char) : Option (List Char × List Char) :=
  let digits := text.takeWhile Text.isDigit
  if digits = [] then none else some (digits, text.dropWhile Text.isDigit)

/-- Reads the whole part.  It has no needless zero in front. -/
def readWhole : List Char → Option (List Char × List Char)
  | '0' :: rest => if rest.head?.any Text.isDigit then none else some (['0'], rest)
  | text => readDigits text

/-- Reads a point and a fraction, if there is a point. -/
def readFraction : List Char → Option (Option (List Char) × List Char)
  | '.' :: text => do
      let (digits, rest) ← readDigits text
      pure (some digits, rest)
  | text => some (none, text)

/-- Reads a sign.  The flag says whether it is a minus. -/
def readSign : List Char → Bool × List Char
  | '-' :: rest => (true, rest)
  | '+' :: rest => (false, rest)
  | text => (false, text)

/-- Reads an exponent, if there is one. -/
def readExponent : List Char → Option (Option (Bool × List Char) × List Char)
  | [] => some (none, [])
  | c :: text =>
      if c = 'e' ∨ c = 'E' then do
        let (down, text) := readSign text
        let (digits, rest) ← readDigits text
        pure (some (down, digits), rest)
      else
        some (none, c :: text)

/-- Reads a number. -/
def read (text : List Char) : Option (Number × List Char) := do
  let (negative, text) := Text.skipIf '-' text
  let (whole, text) ← readWhole text
  let (fraction, text) ← readFraction text
  let (exponent, rest) ← readExponent text
  let number ← Literal.number ⟨negative, whole, fraction, exponent⟩
  pure (number, rest)

end Number

end Cadence.Json

import Cadence.Text.Decimal

/-!
# Reading from the front

Readers of small parts of a text.  Each takes what is left of the text and returns what it read
with the rest, or nothing when the text begins otherwise.
-/

namespace Cadence.Text

/-- Skips a character. -/
def skip (c : Char) : List Char → Option (List Char)
  | [] => none
  | first :: rest => if first = c then some rest else none

/-- Skips a character if it is there, and says whether it was. -/
def skipIf (c : Char) : List Char → Bool × List Char
  | [] => (false, [])
  | first :: rest => if first = c then (true, rest) else (false, first :: rest)

/-- Reads a number of one up to a number of digits. -/
def readUpTo (most : Nat) (text : List Char) : Option (Nat × List Char) :=
  let digits := (text.take most).takeWhile isDigit
  if digits = [] then none else some (value digits, text.drop digits.length)

/-- Reads a number with a given count of digits. -/
def readExactly (count : Nat) (text : List Char) : Option (Nat × List Char) :=
  let digits := text.take count
  if digits.length = count ∧ digits.all isDigit then some (value digits, text.drop count)
  else none

/-- Reads a number with a given count of digits that lies between two bounds. -/
def readWithin (count low high : Nat) (text : List Char) : Option (Nat × List Char) := do
  let (n, rest) ← readExactly count text
  guard (low ≤ n ∧ n ≤ high)
  pure (n, rest)

/-- Reads a fraction of a second after a point or a comma, as nanoseconds.  There is none when the
text begins otherwise. -/
def readFraction : List Char → Option (Nat × List Char)
  | [] => some (0, [])
  | c :: text =>
      if c = '.' ∨ c = ',' then
        let digits := (text.take 9).takeWhile isDigit
        if digits = [] then none
        else some (value digits * Nat.pow 10 (9 - digits.length), text.drop digits.length)
      else
        some (0, c :: text)

end Cadence.Text

import Cadence.Text.Letter
import Cadence.Text.Scan
import Cadence.Zone.Basic

/-!
# Zone rules as text

The compact text of a zone, such as `EST5EDT,M3.2.0,M11.1.0`: an abbreviation and how far the
zone is behind Universal Time, then the same for daylight time (one hour ahead when left out) and
the two transitions.  Every reader takes what is left of the text and returns what it read with
the rest.
-/

namespace Cadence.Zone.Posix

/-- Whether a character may stand in an abbreviation in angle brackets. -/
def isBracketed (c : Char) : Bool :=
  Text.isLetter c || Text.isDigit c || c == '+' || c == '-'

/-- The shortest abbreviation that is accepted. -/
def minAbbreviation : Nat := 3

/-- Skips an abbreviation. -/
def skipAbbreviation : List Char → Option (List Char)
  | '<' :: text =>
      let word := text.takeWhile isBracketed
      match text.dropWhile isBracketed with
      | '>' :: rest => if minAbbreviation ≤ word.length then some rest else none
      | _ => none
  | text =>
      let word := text.takeWhile Text.isLetter
      if minAbbreviation ≤ word.length then some (text.dropWhile Text.isLetter) else none

/-- Reads a sign, a plus when there is none.  The result is 1 or -1. -/
def readSign : List Char → Int × List Char
  | '+' :: rest => (1, rest)
  | '-' :: rest => (-1, rest)
  | text => (1, text)

/-- Reads hours, and minutes and seconds after colons, as a number of seconds. -/
def readClock (mostDigits maxHour : Nat) (text : List Char) : Option (Int × List Char) := do
  let (sign, text) := readSign text
  let (hour, text) ← Text.readUpTo mostDigits text
  guard (hour ≤ maxHour)
  match text with
  | ':' :: text =>
      let (minute, text) ← Text.readWithin 2 0 59 text
      match text with
      | ':' :: text =>
          let (second, text) ← Text.readWithin 2 0 59 text
          pure (sign * (hour * 3600 + minute * 60 + second : Nat), text)
      | _ => pure (sign * (hour * 3600 + minute * 60 : Nat), text)
  | _ => pure (sign * (hour * 3600 : Nat), text)

/-- Reads an offset.  The text counts how far a zone is behind. -/
def readOffset (text : List Char) : Option (Offset × List Char) := do
  let (behind, rest) ← readClock 2 24 text
  let offset ← Offset.of? (-behind)
  pure (offset, rest)

/-- Reads a number between two bounds. -/
def readBetween (most low high : Nat) (text : List Char) : Option (Int × List Char) := do
  let (n, rest) ← Text.readUpTo most text
  guard (low ≤ n ∧ n ≤ high)
  pure ((n : Int), rest)

/-- Reads the day of a transition. -/
def readDay : List Char → Option (YearDay × List Char)
  | 'J' :: text => do
      let (n, rest) ← readBetween 3 1 365 text
      pure (.unleaped n, rest)
  | 'M' :: text => do
      let (month, text) ← readBetween 2 1 12 text
      let (week, text) ← readBetween 1 1 5 (← Text.skip '.' text)
      let (target, rest) ← readBetween 1 0 6 (← Text.skip '.' text)
      pure (.weekday month week target, rest)
  | text => do
      let (n, rest) ← readBetween 3 0 365 text
      pure (.counted n, rest)

/-- Reads a transition.  Its time is 02:00 when left out. -/
def readTransition (text : List Char) : Option (Transition × List Char) := do
  let (day, text) ← readDay text
  match text with
  | '/' :: text =>
      let (time, rest) ← readClock 3 167 text
      pure (⟨day, time⟩, rest)
  | _ => pure (⟨day, 7200⟩, text)

/-- Reads the daylight part of a zone. -/
def readDaylight (standard : Offset) (text : List Char) : Option (Daylight × List Char) := do
  let text ← skipAbbreviation text
  let (offset, text) ←
    match text with
    | ',' :: _ => do
        let offset ← Offset.of? (standard.seconds + 3600)
        pure (offset, text)
    | _ => readOffset text
  let (starts, text) ← readTransition (← Text.skip ',' text)
  let (ends, rest) ← readTransition (← Text.skip ',' text)
  pure (⟨offset, starts, ends⟩, rest)

/-- The zone that a text describes. -/
def read? (text : String) : Option Zone := do
  let rest ← skipAbbreviation text.toList
  let (standard, rest) ← readOffset rest
  match rest with
  | [] => pure ⟨none, standard, none⟩
  | _ =>
      let (daylight, rest) ← readDaylight standard rest
      guard rest.isEmpty
      pure ⟨none, standard, some daylight⟩

end Cadence.Zone.Posix

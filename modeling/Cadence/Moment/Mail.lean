import Cadence.Text.Letter
import Cadence.Moment.Timestamp

/-!
# Dates of messages

Datetimes as they stand in the header of a message: `Sat, 15 Mar 2025 10:23:00 -0400`.  The day of
the week may be left out, and old names may stand for the offset.
-/

namespace Cadence.Moment.Mail

/-- Whether a character is white space. -/
def isSpace (c : Char) : Bool := c = ' ' || c = '\t' || c = '\n' || c = '\r' || c = '\x0c'

/-- Skips white space. -/
def skipSpace (text : List Char) : List Char := text.dropWhile isSpace

/-- Skips white space, of which there must be some. -/
def readSpace (text : List Char) : Option (List Char) := do
  guard (text.head?.any isSpace)
  pure (skipSpace text)

/-- The days of the week by their short names, from Monday. -/
def weekdays : List String := ["mon", "tue", "wed", "thu", "fri", "sat", "sun"]

/-- The months by their short names, from January. -/
def months : List String :=
  ["jan", "feb", "mar", "apr", "may", "jun", "jul", "aug", "sep", "oct", "nov", "dec"]

/-- Reads one of some names of three letters, in letters of either case, as its position. -/
def readName (names : List String) (text : List Char) : Option (Nat × List Char) := do
  let name := String.ofList ((text.take 3).map Char.toLower)
  let i ← names.findIdx? (· = name)
  pure (i, text.drop 3)

/-- Reads the day of the week and a comma, unless the text begins with a digit. -/
def readWeekday (text : List Char) : Option (Option Nat × List Char) :=
  if text.head?.any Text.isDigit then some (none, text)
  else do
    let (weekday, text) ← readName weekdays text
    let rest ← Text.skip ',' (skipSpace text)
    pure (some weekday, skipSpace rest)

/-- Reads the day of the month. -/
def readDay (text : List Char) : Option (Nat × List Char) := do
  let (day, text) ← Text.readUpTo 2 text
  guard (1 ≤ day ∧ day ≤ 31)
  let rest ← readSpace text
  pure (day, rest)

/-- Reads the month, counted from one. -/
def readMonth (text : List Char) : Option (Nat × List Char) := do
  let (month, text) ← readName months text
  let rest ← readSpace text
  pure (month + 1, rest)

/-- The year that a number of digits stands for.  Two digits up to 49 count from 2000, and other
numbers of two or three digits count from 1900. -/
def fullYear (digits year : Nat) : Nat :=
  if digits = 2 ∧ year ≤ 49 then year + 2000
  else if digits < 4 then year + 1900
  else year

/-- Reads the year, in two to four digits. -/
def readYear (text : List Char) : Option (Nat × List Char) := do
  let (year, afterYear) ← Text.readUpTo 4 text
  let digits := text.length - afterYear.length
  guard (2 ≤ digits)
  let rest ← readSpace afterYear
  pure (fullYear digits year, rest)

/-- Reads the time.  The seconds may be left out, and a leap second counts as the second before. -/
def readTime (text : List Char) : Option (Nat × List Char) := do
  let (hour, text) ← Text.readWithin 2 0 23 text
  let text ← Text.skip ':' (skipSpace text)
  let (minute, afterMinute) ← Text.readWithin 2 0 59 (skipSpace text)
  let text := skipSpace afterMinute
  match text with
  | ':' :: text => do
      let (second, text) ← Text.readWithin 2 0 60 (skipSpace text)
      let rest ← readSpace text
      pure (hour * 3600 + minute * 60 + min second 59, rest)
  | _ => do
      let rest ← readSpace afterMinute
      pure (hour * 3600 + minute * 60, rest)

/-- The hours of the offsets that have old names. -/
def oldOffsets : List (String × Int) :=
  [ ("ut", 0), ("gmt", 0), ("z", 0), ("est", -5), ("edt", -4), ("cst", -6), ("cdt", -5),
    ("mst", -7), ("mdt", -6), ("pst", -8), ("pdt", -7) ]

/-- The offset of an old name.  Single letters other than j, and unknown names of at least three
letters, say nothing about the offset and count as Universal Time. -/
def oldOffset? (name : List Char) : Option Offset :=
  match oldOffsets.lookup (String.ofList name) with
  | some hours => Offset.of? (hours * 3600)
  | none =>
      if name.all Text.isSmallLetter ∧ (3 ≤ name.length ∨ (name.length = 1 ∧ name ≠ ['j']))
      then some .utc
      else none

/-- The longest old name of an offset. -/
def longestOldName : Nat := 5

/-- Reads an offset: a sign, two digits of hours and two of minutes, or an old name. -/
def readOffset : List Char → Option (Offset × List Char)
  | [] => none
  | c :: text =>
      if c = '+' ∨ c = '-' then do
        let (hour, text) ← Text.readWithin 2 0 25 text
        let (minute, rest) ← Text.readWithin 2 0 59 text
        let offset ← Timestamp.offsetOf (c = '-') (hour * 3600 + minute * 60)
        pure (offset, rest)
      else do
        let name := ((c :: text).take longestOldName).takeWhile fun c => !isSpace c
        guard (name ≠ [])
        let offset ← oldOffset? (name.map Char.toLower)
        pure (offset, (c :: text).drop name.length)

/-- Skips a comment after its first parenthesis.  Comments may be nested, up to a depth, and a
backslash takes the meaning from the character after it. -/
def skipComment (depth : Nat) : List Char → Option (List Char)
  | [] => none
  | '\\' :: _ :: rest => skipComment depth rest
  | c :: rest =>
      if c = ')' then if depth ≤ 1 then some rest else skipComment (depth - 1) rest
      else if c = '(' then if depth < 255 then skipComment (depth + 1) rest else none
      else skipComment depth rest

/-- Skips white space and a comment at the end of a text. -/
def readEnd (text : List Char) : Option Unit :=
  match skipSpace text with
  | [] => some ()
  | '(' :: text => do
      let rest ← skipComment 1 text
      guard (skipSpace rest).isEmpty
  | _ => none

/-- The zoned datetime that a text is.  Its zone is the constant offset that is written. -/
def read? (text : List Char) : Option Zoned := do
  let (weekday, text) ← readWeekday (skipSpace text)
  let (day, text) ← readDay text
  let (month, text) ← readMonth text
  let (year, text) ← readYear text
  let (second, text) ← readTime text
  let date : Civil.Date := ⟨year, month, day⟩
  guard date.IsValid
  let clock ← date.at? ⟨second, 0⟩
  guard (weekday.all fun written => clock.daysSinceMonday = written)
  let (offset, text) ← readOffset text
  readEnd text
  let instant ← Instant.ofLocal? clock offset
  pure (.atInstant (.fixed offset) instant)

end Cadence.Moment.Mail

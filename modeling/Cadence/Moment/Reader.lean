import Cadence.Moment.Mail
import Cadence.Text.Utf8

/-!
# Reading datetimes

A datetime may be written as a timestamp, as the date of a message, as a word such as `today`, or
as a clock time.  Words and clock times are relative to another datetime, whose zone also supplies
what a timestamp leaves open.
-/

namespace Cadence.Moment

/-- Why a text is no datetime. -/
inductive ReadError
  /-- The datetime does not exist or is out of range, or its zone is not known. -/
  | unresolved
  /-- A clock time does not exist on the day that it should be on. -/
  | unusable (clock relative : String)
  /-- The text has none of the forms. -/
  | unrecognized (text : String)
deriving DecidableEq

/-- A datetime that is computed, if it is in range. -/
def resolved : Option Zoned → Except ReadError Zoned
  | some z => .ok z
  | none => .error .unresolved

/-- The datetime that a word stands for, relative to another. -/
def ofWord? (relative : Zoned) (text : String) : Option (Except ReadError Zoned) :=
  match text with
  | "now" => some (.ok relative)
  | "today" => some (resolved relative.startOfDay?)
  | "yesterday" => some (resolved ((relative.addDays? (-1)).bind Zoned.startOfDay?))
  | "tomorrow" => some (resolved ((relative.addDays? 1).bind Zoned.startOfDay?))
  | _ => none

/-- Reads a part of a clock time: white space, then one or two digits. -/
def readClockPart (high : Nat) (text : List Char) : Option (Nat × List Char) := do
  let (n, rest) ← Text.readUpTo 2 (Mail.skipSpace text)
  guard (n ≤ high)
  pure (n, rest)

/-- Reads a clock time: hours, minutes, and optionally seconds.  A leap second counts as the second
before it. -/
def readClock? (text : List Char) : Option Nat := do
  let (hour, text) ← readClockPart 23 text
  let text ← Text.skip ':' text
  let (minute, text) ← readClockPart 59 text
  match text with
  | [] => pure (hour * 3600 + minute * 60)
  | _ => do
      let text ← Text.skip ':' text
      let (second, rest) ← readClockPart 60 text
      guard rest.isEmpty
      pure (hour * 3600 + minute * 60 + min second 59)

/-- Places a clock time on the day of a datetime.  Where it happens twice, the offset of the
datetime decides. -/
def atClock (relative : Zoned) (second : Nat) : Except ReadError Zoned :=
  let placed := do
    let clock ← relative.wallClock.date.at? ⟨second, 0⟩
    Zoned.ofLocalPreferring? relative.zone clock relative.offset
  match placed with
  | some z => .ok z
  | none => .error (.unusable (Civil.clockText second) relative.text)

/-- The datetime that a text stands for, relative to another. -/
def read (relative : Zoned) (bytes : Text.Bytes) : Except ReadError Zoned :=
  let text := Text.Utf8.decodeLossy bytes
  match Timestamp.read? text.toList with
  | some timestamp => resolved (timestamp.zoned? relative.zone)
  | none =>
      match Mail.read? text.toList with
      | some z => .ok z
      | none =>
          match ofWord? relative text with
          | some outcome => outcome
          | none =>
              match readClock? text.toList with
              | some second => atClock relative second
              | none => .error (.unrecognized text)

end Cadence.Moment

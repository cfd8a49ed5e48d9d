import Cadence.Text.Alphanumeric
import Cadence.Text.Letter
import Cadence.Text.Scan
import Cadence.Zone.Database
import Cadence.Zone.Zoned

/-!
# Timestamps

Datetimes as `2025-03-15T10:23:00-04:00[America/New_York]`: a date, and optionally a time, an
offset after the time, and a zone and other annotations in brackets.  Either all separators of a
date or a time are written or none.
-/

namespace Cadence

/-- A time of day. -/
structure TimeOfDay where
  second : Nat
  nano : Nat
deriving DecidableEq

/-- The time at which a day begins. -/
def TimeOfDay.midnight : TimeOfDay := ⟨0, 0⟩

/-- The datetime of a date and a time of day, if it is in range. -/
def Civil.Date.at? (date : Civil.Date) (time : TimeOfDay) : Option Civil.DateTime :=
  Civil.DateTime.atDate? date time.second time.nano

/-- A written offset.  The letter Z leaves open which offset the clocks show. -/
inductive WrittenOffset
  | zulu
  | numeric (offset : Offset)
deriving DecidableEq

/-- The offset that a written offset stands for. -/
def WrittenOffset.value : WrittenOffset → Offset
  | .zulu => .utc
  | .numeric offset => offset

/-- A zone in brackets. -/
inductive WrittenZone
  | named (name : String)
  | offset (offset : Offset)
deriving DecidableEq

/-- The zone that is written, if it is known. -/
def WrittenZone.zone? : WrittenZone → Option Zone
  | .named name => Zone.named? name
  | .offset written => some (.fixed written)

/-- The parts of a datetime that are written down. -/
structure Timestamp where
  date : Civil.Date
  time? : Option TimeOfDay
  offset? : Option WrittenOffset
  zone? : Option WrittenZone
deriving DecidableEq

namespace Timestamp

/-- Reads a year: four digits, or a sign and six digits.  Year zero has no minus sign. -/
def readYear : List Char → Option (Int × List Char)
  | '+' :: text => do
      let (year, rest) ← Text.readWithin 6 0 9999 text
      pure (year, rest)
  | '-' :: text => do
      let (year, rest) ← Text.readWithin 6 1 9999 text
      pure (-year, rest)
  | text => do
      let (year, rest) ← Text.readExactly 4 text
      pure (year, rest)

/-- Reads the hyphen between parts of a date, which is there or not throughout the date. -/
def readDateSeparator (extended : Bool) (text : List Char) : Option (List Char) :=
  if extended then Text.skip '-' text
  else
    match text with
    | '-' :: _ => none
    | _ => some text

/-- Reads a date that exists. -/
def readDate (text : List Char) : Option (Civil.Date × List Char) := do
  let (year, text) ← readYear text
  let extended := text.head? = some '-'
  let text ← readDateSeparator extended text
  let (month, text) ← Text.readWithin 2 1 12 text
  let text ← readDateSeparator extended text
  let (day, rest) ← Text.readWithin 2 1 31 text
  let date : Civil.Date := ⟨year, month, day⟩
  guard date.IsValid
  pure (date, rest)

/-- Whether another part of a time follows.  With colons throughout, a colon announces it;
without, a digit does. -/
def readTimeSeparator (extended : Bool) (text : List Char) : Bool × List Char :=
  if extended then Text.skipIf ':' text else (text.head?.any Text.isDigit, text)

/-- Reads a time of day.  A leap second counts as the second before it. -/
def readTime (text : List Char) : Option (TimeOfDay × List Char) := do
  let (hour, text) ← Text.readWithin 2 0 23 text
  let extended := text.head? = some ':'
  let (hasMinute, text) := readTimeSeparator extended text
  if !hasMinute then pure (⟨hour * 3600, 0⟩, text)
  else do
    let (minute, text) ← Text.readWithin 2 0 59 text
    let (hasSecond, text) := readTimeSeparator extended text
    if !hasSecond then pure (⟨hour * 3600 + minute * 60, 0⟩, text)
    else do
      let (second, text) ← Text.readWithin 2 0 60 text
      let (nano, rest) ← Text.readFraction text
      pure (⟨hour * 3600 + minute * 60 + min second 59, nano⟩, rest)

/-- The offset of a number of seconds in a direction. -/
def offsetOf (negative : Bool) (seconds : Nat) : Option Offset :=
  Offset.of? (if negative then -seconds else seconds)

/-- Reads the rest of a numeric offset after its sign.  Seconds are rounded to the nearest, and
read only when they are allowed. -/
def readNumericOffset (allowSeconds negative : Bool) (text : List Char) :
    Option (Offset × List Char) := do
  let (hour, text) ← Text.readWithin 2 0 25 text
  let extended := text.head? = some ':'
  let (hasMinute, text) := readTimeSeparator extended text
  if !hasMinute then
    let offset ← offsetOf negative (hour * 3600)
    pure (offset, text)
  else do
    let (minute, text) ← Text.readWithin 2 0 59 text
    let (hasSecond, afterSeparator) := readTimeSeparator extended text
    if !hasSecond || !allowSeconds then
      let offset ← offsetOf negative (hour * 3600 + minute * 60)
      pure (offset, text)
    else do
      let (second, text) ← Text.readWithin 2 0 59 afterSeparator
      let (nano, rest) ← Text.readFraction text
      let rounded := if 500000000 ≤ nano then second + 1 else second
      let offset ← offsetOf negative (hour * 3600 + minute * 60 + rounded)
      pure (offset, rest)

/-- Reads an offset, if there is one. -/
def readOffset : List Char → Option (Option WrittenOffset × List Char)
  | 'Z' :: rest | 'z' :: rest => some (some .zulu, rest)
  | '+' :: text => do
      let (offset, rest) ← readNumericOffset true false text
      pure (some (.numeric offset), rest)
  | '-' :: text => do
      let (offset, rest) ← readNumericOffset true true text
      pure (some (.numeric offset), rest)
  | text => some (none, text)

/-- Whether a part of a zone's name may begin with a character. -/
def isNameStart (c : Char) : Bool := Text.isLetter c || c = '_' || c = '.'

/-- Whether a part of a zone's name may go on with a character. -/
def isNamePart (c : Char) : Bool := isNameStart c || Text.isDigit c || c = '+' || c = '-'

/-- Reads a word whose first character satisfies one test and the others a second one. -/
def readWord (start part : Char → Bool) : List Char → Option (List Char × List Char)
  | [] => none
  | c :: text =>
      if start c then some (c :: text.takeWhile part, text.dropWhile part) else none

/-- Reads the remaining parts of a zone's name, each after a slash. -/
def readNameParts : Nat → List Char → Option (List Char × List Char)
  | 0, text => some ([], text)
  | fuel + 1, text =>
      match text with
      | '/' :: text => do
          let (word, text) ← readWord isNameStart isNamePart text
          let (more, rest) ← readNameParts fuel text
          pure ('/' :: word ++ more, rest)
      | _ => some ([], text)

/-- Reads a zone in brackets, if there is one.  A key is the beginning of another annotation. -/
def readZone : List Char → Option (Option WrittenZone × List Char)
  | '[' :: text =>
      match (Text.skipIf '!' text).2 with
      | '+' :: text => do
          let (offset, text) ← readNumericOffset false false text
          let rest ← Text.skip ']' text
          pure (some (.offset offset), rest)
      | '-' :: text => do
          let (offset, text) ← readNumericOffset false true text
          let rest ← Text.skip ']' text
          pure (some (.offset offset), rest)
      | name => do
          let (word, afterWord) ← readWord isNameStart isNamePart name
          match afterWord with
          | '=' :: _ => pure (none, '[' :: text)
          | _ => do
              let (more, text) ← readNameParts afterWord.length afterWord
              let rest ← Text.skip ']' text
              pure (some (.named (String.ofList (word ++ more))), rest)
  | text => some (none, text)

/-- Reads the values of an annotation: words of letters and digits with hyphens between them. -/
def readValues : Nat → List Char → Option (List Char)
  | 0, _ => none
  | fuel + 1, text => do
      let (_, text) ← readWord Text.isAsciiAlphanumeric Text.isAsciiAlphanumeric text
      match text with
      | '-' :: text => readValues fuel text
      | _ => some text

/-- Skips an annotation after its bracket.  One that is marked as critical is refused, for none is
understood. -/
def skipAnnotation (text : List Char) : Option (List Char) := do
  let (_, text) ← readWord (fun c => Text.isSmallLetter c || c = '_')
    (fun c => Text.isSmallLetter c || c = '_' || Text.isDigit c || c = '-') text
  let text ← Text.skip '=' text
  let text ← readValues text.length text
  Text.skip ']' text

/-- Skips the annotations at the end of a text, which may hold nothing else. -/
def skipAnnotations : Nat → List Char → Option Unit
  | _, [] => some ()
  | 0, _ => none
  | fuel + 1, text => do
      let text ← Text.skip '[' text
      let rest ← skipAnnotation text
      skipAnnotations fuel rest

/-- Reads a time and an offset, if a separator announces them. -/
def readTimeAndOffset :
    List Char → Option (Option TimeOfDay × Option WrittenOffset × List Char)
  | c :: text =>
      if c = 'T' ∨ c = 't' ∨ c = ' ' then do
        let (time, text) ← readTime text
        let (offset, rest) ← readOffset text
        pure (some time, offset, rest)
      else
        some (none, none, c :: text)
  | [] => some (none, none, [])

/-- The timestamp that a text is. -/
def read? (text : List Char) : Option Timestamp := do
  let (date, text) ← readDate text
  let (time?, offset?, text) ← readTimeAndOffset text
  let (zone?, text) ← readZone text
  skipAnnotations text.length text
  pure ⟨date, time?, offset?, zone?⟩

/-- The wall clock time of a timestamp, midnight when only a date is written. -/
def wallClock? (t : Timestamp) : Option Civil.DateTime := t.date.at? (t.time?.getD .midnight)

/-- The instant of a timestamp with a time and an offset. -/
def instant? (t : Timestamp) : Option Instant := do
  let time ← t.time?
  let offset ← t.offset?
  let clock ← t.date.at? time
  Instant.ofLocal? clock offset.value

/-- Places a wall clock time in a zone.  The letter Z makes it a time of Universal Time, and an
offset has to be one that the zone has at that time. -/
def placeIn? (zone : Zone) (clock : Civil.DateTime) : Option WrittenOffset → Option Zoned
  | none => Zoned.ofLocal? zone clock
  | some .zulu => (Instant.ofLocal? clock .utc).map (Zoned.atInstant zone)
  | some (.numeric offset) => do
      guard ((zone.resolve clock.reading).admits offset)
      let instant ← Instant.ofLocal? clock offset
      pure (.atInstant zone instant)

/-- The zoned datetime of a timestamp.  Without a zone, the offset makes one, and without an offset
either, a zone is supplied. -/
def zoned? (supplied : Zone) (t : Timestamp) : Option Zoned := do
  let clock ← t.wallClock?
  match t.zone?, t.offset? with
  | some written, offset? => do
      let zone ← written.zone?
      placeIn? zone clock offset?
  | none, some offset => Zoned.ofLocal? (.fixed offset.value) clock
  | none, none => Zoned.ofLocal? supplied clock

end Timestamp

end Cadence

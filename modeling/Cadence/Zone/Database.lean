import Cadence.Text.Letter
import Cadence.Zone.Posix

/-!
# Named zones

The zones that are known by name, each with the rules that hold in it today.  These rules count for
all years, so that a date before a change of them has the offset of today.  Names are recognised
without regard to case.
-/

namespace Cadence.Zone

/-- The names of the known zones and the text of their rules.  In `America/New_York` the transitions
of 2007 and later years hold in earlier years as well. -/
def known : List (String × String) :=
  [ ("America/New_York", "EST5EDT,M3.2.0,M11.1.0"),
    ("Asia/Kolkata", "IST-5:30"),
    ("Asia/Tokyo", "JST-9"),
    ("UTC", "UTC0"),
    (unknownName, "UTC0") ]

/-- Compares names without regard to the case of ASCII letters. -/
def sameName (a b : String) : Bool := a.map Char.toLower == b.map Char.toLower

/-- The zone with a name. -/
def named? (name : String) : Option Zone := do
  let (canonical, rules) ← known.find? fun entry => sameName entry.1 name
  let zone ← Posix.read? rules
  pure { zone with name? := some canonical }

/-- The zone that a name or a text of rules stands for. -/
def read? (text : String) : Option Zone := (named? text).or (Posix.read? text)

/-- What follows the last occurrence of a row of characters in a text. -/
def afterLast? (row : List Char) : List Char → Option (List Char)
  | [] => none
  | c :: rest => (afterLast? row rest).or (row.isPrefixOf? (c :: rest))

/-- The directory that holds the files of named zones. -/
def directory : List Char := "zoneinfo/".toList

/-- The zone of a name or of a path to its file, of which everything up to the directory of such
files is left out. -/
def ofPath? (path : List Char) : Option Zone :=
  named? (String.ofList ((afterLast? directory path).getD path))

/-- The zone that the setting of an environment asks for.  An empty setting means Universal Time,
a colon introduces a name or a path, and a zone that is not known is replaced by one like Universal
Time. -/
def ofSetting (setting : String) : Zone :=
  if setting.isEmpty then utc
  else
    match setting.toList with
    | ':' :: path => (ofPath? path).getD unknown
    | path => ((Posix.read? setting).or (ofPath? path)).getD unknown

end Cadence.Zone

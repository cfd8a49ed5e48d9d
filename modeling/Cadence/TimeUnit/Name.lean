import Cadence.TimeUnit
import Cadence.Text.Letter

/-!
# Names of units

A unit may be named by its letter, where case matters, or by a word, where it does not.
-/

namespace Cadence.TimeUnit

/-- The words a unit may be named by. -/
def words : TimeUnit → List String
  | epoch => ["epoch"]
  | year => ["year", "years", "yr", "yrs"]
  | month => ["month", "months", "mo", "mos"]
  | week => ["week", "weeks", "wk", "wks"]
  | day => ["day", "days"]
  | hour => ["hour", "hours", "hr", "hrs"]
  | minute => ["minute", "minutes", "min", "mins"]
  | second => ["second", "seconds", "sec", "secs"]

/-- The unit that a text names, if it names one. -/
def ofName? (s : String) : Option TimeUnit :=
  match all.find? fun u => s == String.singleton u.code with
  | some u => some u
  | none => all.find? fun u => u.words.contains (Text.lower s)

end Cadence.TimeUnit

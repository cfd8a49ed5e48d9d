/-!
# Log lines

Lines that say what the program does, each with a level that says how important it is.
-/

namespace Cadence

/-- How important a line of a log is, the most important level first. -/
inductive Level
  | error
  | warn
  | info
  | debug
  | trace
deriving DecidableEq

namespace Level

/-- The position of a level, counted from the most important. -/
def rank : Level → Nat
  | error => 1
  | warn => 2
  | info => 3
  | debug => 4
  | trace => 5

/-- The name that lines of a level begin with. -/
def name : Level → String
  | error => "ERROR"
  | warn => "WARN"
  | info => "INFO"
  | debug => "DEBUG"
  | trace => "TRACE"

end Level

/-- A line of a log. -/
structure LogLine where
  level : Level
  message : String
deriving DecidableEq

/-- Writes a line of a log. -/
def LogLine.text (line : LogLine) : String := line.level.name ++ ": " ++ line.message

end Cadence

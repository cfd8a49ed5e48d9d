import Cadence.TimeUnit

/-!
# What can be wrong with a notation

Every way in which a text fails to be a frequency in compact notation, with its wording.
-/

namespace Cadence.Notation

/-- A reason for refusing a notation. -/
inductive Fault
  /-- The text does not begin with the letter of frequencies. -/
  | missingStart
  /-- Nothing follows the separator of the time units. -/
  | missingTime
  /-- A coarser unit follows a finer one. -/
  | outOfOrder (unit last : TimeUnit)
  /-- The scope is not a legal one for the unit. -/
  | illegalScope (unit scope : TimeUnit)
  /-- The same unit and scope already carry a rule. -/
  | repeated (unit scope : TimeUnit)
  /-- A year has a number. -/
  | fixedYear
  /-- A parenthesis is not followed by a name. -/
  | missingName
  /-- A predicate name is not closed. -/
  | unclosedName
  /-- A group does not begin with a value. -/
  | missingValue
  /-- A number does not fit. -/
  | tooBig (digits : String)
  /-- A time unit stands among the date units. -/
  | timeUnitTooEarly
  /-- A date unit stands among the time units. -/
  | dateUnitTooLate
  /-- The letter is no unit's. -/
  | unknownUnit (letter : Char)
  /-- The text ends where a unit is needed. -/
  | missingUnit
  /-- The letter is no scope's. -/
  | unknownScope (letter : Char)
  /-- The text ends where a scope is needed. -/
  | missingScope
deriving DecidableEq

/-- The wording used for a fixed value on a year, here and outside of notation. -/
def fixedYearMessage : String :=
  "a year can only be constrained by a predicate, not a fixed value"

/-- The wording of a fault. -/
def Fault.message : Fault → String
  | missingStart => "must start with `F`"
  | missingTime => "`T` must be followed by a time"
  | outOfOrder unit last => unit.name ++ " must come before " ++ last.name
  | illegalScope unit scope => unit.name ++ " cannot be measured within " ++ scope.name
  | repeated unit scope => unit.name ++ " within " ++ scope.name ++ " is given more than once"
  | fixedYear => fixedYearMessage
  | missingName => "expected a predicate name"
  | unclosedName => "expected `)` after predicate name"
  | missingValue => "expected a number or a predicate"
  | tooBig digits => "value `" ++ digits ++ "` is too big"
  | timeUnitTooEarly => "time units must come after `T`"
  | dateUnitTooLate => "date units must come before `T`"
  | unknownUnit letter => "unrecognized unit `" ++ String.singleton letter ++ "`"
  | missingUnit => "expected a unit"
  | unknownScope letter => "unrecognized scope `" ++ String.singleton letter ++ "`"
  | missingScope => "expected a scope after `/`"

end Cadence.Notation

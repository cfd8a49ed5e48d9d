import Cadence.Notation.Fault

/-!
# Errors

Everything that can go wrong while a frequency is built or evaluated.  An error states its cause;
the wording is in `Error.message`.
-/

namespace Cadence

/-- Why a frequency could not be built or evaluated. -/
inductive Error
  /-- The name is no unit's, or the unit cannot carry a rule. -/
  | invalidUnit (name : String)
  /-- The text is no frequency; `offset` counts the bytes before the fault and is missing when
  the whole text has been read. -/
  | malformed (text : String) (fault : Notation.Fault) (offset : Option Nat)
  /-- No predicate is registered under the name. -/
  | unknownPredicate (name : String)
  /-- The unit cannot be measured within the scope. -/
  | unsupported (unit scope : TimeUnit)
  /-- No date satisfies the rules; `unit` was advanced `attempts` times. -/
  | noMatch (unit : TimeUnit) (attempts : Nat)
  /-- A year was given a number. -/
  | fixedYear
  /-- A date left the supported range. -/
  | outOfRange
deriving DecidableEq

/-- The wording of an error. -/
def Error.message : Error → String
  | invalidUnit name => "invalid unit `" ++ name ++ "`"
  | malformed text fault offset =>
      "malformed frequency `" ++ text ++ "`: " ++ fault.message ++
        match offset with
        | some n => " at offset " ++ toString n
        | none => ""
  | unknownPredicate name => "predicate `" ++ name ++ "` is not registered"
  | unsupported unit scope => "cannot measure " ++ unit.name ++ " within " ++ scope.name
  | noMatch unit attempts =>
      "no matching datetime found: gave up on " ++ unit.name ++ " after " ++ toString attempts ++
        " attempts"
  | fixedYear => Notation.fixedYearMessage
  | outOfRange => "calendar arithmetic failed"

end Cadence

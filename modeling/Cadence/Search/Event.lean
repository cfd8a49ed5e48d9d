import Cadence.Calendar
import Cadence.Log
import Cadence.Notation.Printer

/-!
# What a search tells

The steps of a search that are worth telling, and the lines they are told in.
-/

namespace Cadence

namespace Search

/-- A step of a search. -/
inductive Event (δ : Type)
  /-- A search begins. -/
  | searching (rules : RuleSet) (reference : δ)
  /-- A search ends. -/
  | found (date : δ) (passes : Nat)
  /-- A pass ended on a date that does not satisfy the rules of a unit. -/
  | repairing (pass : Nat) (date : δ) (unit : TimeUnit)
  /-- A unit is raised to the number it is required to have. -/
  | raising (unit scope : TimeUnit) (current target : Int)
  /-- A unit is past the number it is required to have. -/
  | carrying (unit scope : TimeUnit) (target : Int) (parent : TimeUnit)
  /-- A predicate refuses the value of a unit. -/
  | rejected (name : String) (unit scope : TimeUnit) (value : Int)
  /-- A match lies outside of the range that is listed. -/
  | stopping (date stop : δ)

variable {δ : Type} [Calendar δ]

/-- How important a step is. -/
def Event.level : Event δ → Level
  | searching _ _ | found _ _ | stopping _ _ => .debug
  | repairing _ _ _ | raising _ _ _ _ | carrying _ _ _ _ | rejected _ _ _ _ => .trace

/-- The words for a step. -/
def Event.message : Event δ → String
  | searching rules reference =>
      "searching for " ++ Notation.text rules ++ " on or after " ++ Calendar.text reference
  | found date passes =>
      "found " ++ Calendar.text date ++ " after " ++ Text.natText passes ++ " pass(es)"
  | repairing pass date unit =>
      "pass " ++ Text.natText pass ++ " ended on " ++ Calendar.text date ++ " with " ++ unit.name ++
        " unsatisfied, repairing"
  | raising unit scope current target =>
      "raising " ++ unit.name ++ " within " ++ scope.name ++ " from " ++ Text.intText current ++
        " to " ++ Text.intText target
  | carrying unit scope target parent =>
      unit.name ++ " within " ++ scope.name ++ " is past " ++ Text.intText target ++
        ", carrying into the next " ++ parent.name
  | rejected name unit scope value =>
      "predicate `" ++ name ++ "` rejected " ++ unit.name ++ " " ++ Text.intText value ++
        " within " ++ scope.name
  | stopping date stop =>
      Calendar.text date ++ " is not before " ++ Calendar.text stop ++ ", stopping"

/-- The line that a step is told in. -/
def Event.line (event : Event δ) : LogLine := ⟨event.level, event.message⟩

end Search

end Cadence

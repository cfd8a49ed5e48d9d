import Cadence.RuleSet
import Cadence.Text.Decimal

/-!
# Writing notation

A frequency is written as the letter `F`, the groups of the date units, and, when there are rules
on time units, the letter `T` and their groups.  A group is a value, the letter of the unit and,
when the scope is not the default one, a slash and the code of the scope.
-/

namespace Cadence.Notation

/-- The letter of a unit in a group.  Months and minutes share theirs. -/
def letter : TimeUnit → Char
  | .epoch => 'E'
  | .year => 'Y'
  | .month => 'M'
  | .week => 'W'
  | .day => 'D'
  | .hour => 'H'
  | .minute => 'M'
  | .second => 'S'

/-- The written form of what a rule requires. -/
def valueChars : Requirement → List Char
  | .fixed value => Text.decimalInt value.toInt
  | .predicate name => '(' :: name.toList ++ [')']

/-- The written form of the scope, empty for the default one. -/
def scopeChars (rule : Rule) : List Char :=
  if rule.hasDefaultScope then [] else ['/', rule.scope.code]

/-- The group of a rule. -/
def groupChars (rule : Rule) : List Char :=
  valueChars rule.requirement ++ letter rule.unit :: scopeChars rule

/-- The groups of the time units, introduced by their separator. -/
def timeChars : List Rule → List Char
  | [] => []
  | rules => 'T' :: rules.flatMap groupChars

/-- The characters of a rule set in notation. -/
def chars (rules : RuleSet) : List Char :=
  'F' :: (rules.toList.filter (!·.unit.isTime)).flatMap groupChars ++
    timeChars (rules.toList.filter (·.unit.isTime))

/-- A rule set in notation. -/
def text (rules : RuleSet) : String := String.ofList (chars rules)

end Cadence.Notation

import Cadence.RuleSet

/-!
# Rule maps

The structured form of a frequency: entries of a unit, an optional scope and a requirement.
Nothing is checked before the entries are made into rules, and later entries for the same unit and
scope override earlier ones.
-/

namespace Cadence

/-- What a structured form says about one unit. -/
structure RuleEntry where
  unit : TimeUnit
  scope : Option TimeUnit
  requirement : Requirement
deriving DecidableEq

/-- The rule that an entry stands for. -/
def RuleEntry.toRule (entry : RuleEntry) : Except Error Rule :=
  Rule.make entry.unit entry.scope entry.requirement

/-- The entries of a structured form, in the order they were given. -/
abbrev RuleMap := List RuleEntry

/-- The rules that the entries stand for.  The first entry that is no rule decides the error. -/
def RuleMap.toRules (entries : RuleMap) : Except Error RuleSet :=
  RuleSet.ofList <$> entries.mapM RuleEntry.toRule

end Cadence

import Cadence.Frequency
import Cadence.Json.Writer

/-!
# Describing frequencies

The notation of a frequency together with its rules, each with its unit, its scope and what it
requires.
-/

namespace Cadence.Frequency

/-- What a frequency consists of. -/
structure Description where
  frequency : String
  rules : List Rule

/-- Describes a frequency. -/
def description (f : Frequency) : Description := ⟨f.text, f.rules.toList⟩

/-- Writes a requirement as JSON: a number, or the name of a predicate. -/
def requirementText : Requirement → String
  | .fixed n => Text.intText n.toInt
  | .predicate name => Json.stringText name

/-- Writes a rule as JSON. -/
def ruleText (rule : Rule) : String :=
  Json.objectText
    [ ("scope", Json.stringText rule.scope.name),
      ("unit", Json.stringText rule.unit.name),
      ("value", requirementText rule.requirement) ]

/-- Writes a description as JSON. -/
def Description.text (d : Description) : String :=
  Json.objectText
    [ ("frequency", Json.stringText d.frequency),
      ("rules", Json.arrayText (d.rules.map ruleText)) ]

end Cadence.Frequency

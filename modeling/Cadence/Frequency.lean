import Cadence.Notation.Parser
import Cadence.RuleMap
import Cadence.Search.Between

/-!
# Frequencies

A frequency is a set of rules together with the predicates that the rules may name.  Every
constructor checks that each named predicate is registered, so searching never meets an unknown
one.  Two frequencies are the same when their rules are.
-/

namespace Cadence

/-- Rules on a date, and the predicates that they may name. -/
structure Frequency where
  rules : RuleSet
  predicates : Registry

instance : BEq Frequency := ⟨fun a b => a.rules = b.rules⟩

namespace Frequency

/-- The frequency without any rules.  It matches every second. -/
def empty (predicates : Registry) : Frequency := ⟨.empty, predicates⟩

/-- Checks that a predicate named by a rule is registered. -/
def checkRule (predicates : Registry) (rule : Rule) : Except Error Unit :=
  match rule.requirement with
  | .fixed _ => .ok ()
  | .predicate name =>
      if predicates.contains name then .ok () else .error (.unknownPredicate name)

/-- The frequency with a set of rules.  The first rule in canonical order that names an unknown
predicate decides the error. -/
def ofRules (rules : RuleSet) (predicates : Registry) : Except Error Frequency := do
  rules.toList.forM (checkRule predicates)
  pure ⟨rules, predicates⟩

/-- The frequency that a notation stands for. -/
def parse (written : String) (predicates : Registry) : Except Error Frequency := do
  ofRules (← Notation.parse written) predicates

/-- The frequency that a structured form stands for. -/
def ofMap (map : RuleMap) (predicates : Registry) : Except Error Frequency := do
  ofRules (← map.toRules) predicates

/-- Adds a rule, replacing one for the same unit and scope. -/
def on (f : Frequency) (unit : TimeUnit) (requirement : Requirement) (scope : Option TimeUnit) :
    Except Error Frequency := do
  let rule ← Rule.make unit scope requirement
  checkRule f.predicates rule
  pure { f with rules := f.rules.insert rule }

/-- What is required of a unit.  A missing or illegal scope stands for the default one. -/
def getValue (f : Frequency) (unit : TimeUnit) (scope : Option TimeUnit) : Option Requirement :=
  (f.rules.get? unit (unit.normalizeScope scope)).map (·.requirement)

/-- The search for matches of a frequency. -/
def search (f : Frequency) : Search := ⟨f.rules, f.predicates, Search.saturatingDifference⟩

/-- The notation of a frequency. -/
def text (f : Frequency) : String := Notation.text f.rules

section Dates

variable {δ : Type} [Calendar δ]

/-- The earliest match on or after a date, and the steps of the search for it. -/
def nextLogged (f : Frequency) (date : δ) : Search.Steps δ δ := f.search.next date

/-- The earliest match on or after a date.  A date that matches is returned as it is. -/
def next (f : Frequency) (date : δ) : Except Error δ := (f.nextLogged date).result

/-- Whether a date satisfies every rule. -/
def isMatch (f : Frequency) (date : δ) : Except Error Bool :=
  Option.isNone <$> f.search.violation date

/-- The matches from a date up to, but not including, another. -/
def between (f : Frequency) (start stop : δ) : Between δ := .ofRange f.search start stop

end Dates

/-- Compares the numbers that two frequencies require of a unit within the scopes of the first.
The first scope with different numbers decides. -/
def compareNumbers (theirs : RuleSet) : List Rule → Ordering
  | [] => .eq
  | mine :: rest =>
      let ordering :=
        match mine.requirement.fixed?,
            (theirs.get? mine.unit mine.scope).bind (·.requirement.fixed?) with
        | some a, some b => compare a.toInt b.toInt
        | _, _ => .eq
      ordering.then (compareNumbers theirs rest)

/-- Compares the rules on a unit.  No rule comes before some rule. -/
def compareUnit (a b : RuleSet) (unit : TimeUnit) : Ordering :=
  match (a.of unit).isEmpty, (b.of unit).isEmpty with
  | true, true => .eq
  | true, false => .lt
  | false, true => .gt
  | false, false => compareNumbers b (a.of unit)

/-- Orders frequencies from least to most constrained.  The coarsest unit with a difference
decides; predicates only count for being present. -/
def compare (a b : Frequency) : Ordering :=
  TimeUnit.constrainable.foldr
    (fun unit rest => (compareUnit a.rules b.rules unit).then rest) .eq

end Frequency

end Cadence

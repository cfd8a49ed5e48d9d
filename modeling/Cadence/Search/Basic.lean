import Cadence.Logged
import Cadence.Predicate
import Cadence.Search.Event

/-!
# The search

Finds the earliest date that satisfies a set of rules.  A search makes passes over the rules in
canonical order.  In a pass every rule in turn moves the date forward until it is satisfied: a
number is raised to directly or, when it has passed, waited for in a later period, and a predicate
is tried on one value after the other.  Moving a unit resets the finer ones.  A pass may spoil a
rule that it satisfied before, because months have different lengths; then another pass repairs
the date.
-/

namespace Cadence

/-- The rules to satisfy, the predicates that they may name, and how values are subtracted. -/
structure Search where
  rules : RuleSet
  predicates : Registry
  difference : Int → Int → Int

namespace Search

/-- The greatest number of passes that are made. -/
def maxPasses : Nat := 64

/-- The greatest number of times that a unit is moved on while it waits for a value. -/
def maxAttempts : Nat := 10000

/-- Subtraction that stops at the bounds of 64-bit integers. -/
def saturatingDifference (a b : Int) : Int :=
  max (-9223372036854775808) (min 9223372036854775807 (a - b))

/-- A part of a search.  It may fail and tells its steps. -/
abbrev Steps (δ α : Type) := Logged (Event δ) Error α

/-- The predicate with a name. -/
def predicate (s : Search) (name : String) : Except Error Predicate :=
  match s.predicates.get? name with
  | some p => .ok p
  | none => .error (.unknownPredicate name)

/-- The unit to move on when a unit within a scope is past its number: the finest scope in play,
among the unit and the coarser ones, that is no finer than the given scope and has no number
required of it.  It is the epoch when there is none. -/
def freeParent (s : Search) (unit scope : TimeUnit) : TimeUnit :=
  let scopesInPlay (u : TimeUnit) : List TimeUnit :=
    match s.rules.of u with
    | [] => [u.defaultScope]
    | rules => rules.map (·.scope)
  let candidates := (TimeUnit.constrainable.filter (· ≤ unit)).flatMap scopesInPlay
  let free := candidates.filter fun candidate =>
    candidate ≤ scope && !s.rules.isFixed candidate
  free.getLastD .epoch

variable {δ : Type} [Calendar δ]

/-- Whether a date satisfies a rule. -/
def satisfies (s : Search) (date : δ) (rule : Rule) : Except Error Bool := do
  let value ← Calendar.read date rule.unit rule.scope
  match rule.requirement with
  | .fixed target => pure (value = target.toInt)
  | .predicate name => do
      let p ← s.predicate name
      pure (p value (Calendar.wallClock date))

/-- The unit of the first rule of a list that a date does not satisfy. -/
def violationIn (s : Search) (date : δ) : List Rule → Except Error (Option TimeUnit)
  | [] => pure none
  | rule :: rest => do
      let satisfied ← s.satisfies date rule
      if satisfied then s.violationIn date rest else pure (some rule.unit)

/-- The unit of the first rule that a date does not satisfy. -/
def violation (s : Search) (date : δ) : Except Error (Option TimeUnit) :=
  s.violationIn date s.rules.toList

/-- Moves a date so that a unit within a scope has a value. -/
def reset (s : Search) (date : δ) (unit scope : TimeUnit) (value : Int) : Except Error δ := do
  let current ← Calendar.read date unit scope
  if current = value then pure date
  else Calendar.shift date unit (s.difference value current)

/-- Moves a unit to its first value within its default scope, or within a limit if that is finer.
Units without a first value stay as they are. -/
def resetDefault (s : Search) (limit : TimeUnit) (date : δ) (unit : TimeUnit) :
    Except Error δ :=
  match unit.resetValue with
  | some value => s.reset date unit (unit.defaultScope.finer limit) value
  | none => pure date

/-- Moves every unit finer than a unit to its first value. -/
def resetBelow (s : Search) (date : δ) (unit limit : TimeUnit) : Except Error δ :=
  unit.finerUnits.foldlM (s.resetDefault limit) date

/-- Moves every unit between two units that has no number required of it to its first value. -/
def resetBetween (s : Search) (date : δ) (parent unit : TimeUnit) : Except Error δ :=
  ((TimeUnit.between parent unit).filter fun u => !s.rules.isFixed u).foldlM
    (s.resetDefault parent) date

/-- Moves a unit on until a predicate accepts its value, at most a number of times.  The flag says
whether the date has moved. -/
def filterWith (p : Predicate) (name : String) (unit scope : TimeUnit) :
    Nat → δ → Bool → Steps δ (δ × Bool)
  | remaining, date, moved => do
      let value ← Calendar.read date unit scope
      if p value (Calendar.wallClock date) then pure (date, moved)
      else
        match remaining with
        | 0 => Logged.fail (.noMatch unit maxAttempts)
        | remaining + 1 => do
            Logged.tell (.rejected name unit scope value)
            let later ← Calendar.shift date unit 1
            filterWith p name unit scope remaining later true

/-- Moves a unit on until the predicate with a name accepts its value within a scope.  Also
returns whether the date has moved. -/
def filter (s : Search) (date : δ) (unit scope : TimeUnit) (name : String) :
    Steps δ (δ × Bool) := do
  let p ← s.predicate name
  filterWith p name unit scope maxAttempts date false

/-- Moves a unit on until its value is not past a target, at most a number of times. -/
def stepWhilePast (unit scope : TimeUnit) (target : Int) : Nat → δ → Except Error δ
  | remaining, date => do
      let current ← Calendar.read date unit scope
      if current ≤ target then pure date
      else
        match remaining with
        | 0 => .error (.noMatch unit maxAttempts)
        | remaining + 1 => do
            let later ← Calendar.shift date unit 1
            stepWhilePast unit scope target remaining later

/-- Moves a unit on until every predicate that is required of it accepts. -/
def filterAll (s : Search) (unit : TimeUnit) (date : δ) : Steps δ δ :=
  (s.rules.of unit).foldlM
    (fun date rule =>
      match rule.requirement with
      | .fixed _ => pure date
      | .predicate name => do
          let filtered ← s.filter date unit rule.scope name
          pure filtered.1)
    date

/-- Gives a unit its number, counted from the period that a date has just entered.  Weeks have no
first value to count from: the first week of a year may even be numbered 52 or 53, so they step
forward until the number is not past the target. -/
def enter (s : Search) (date : δ) (unit scope parent : TimeUnit) (target : Int) :
    Except Error δ :=
  match unit.resetValue with
  | some first => do
      let date ← s.reset date unit scope first
      let date ← s.resetBelow date unit unit
      Calendar.shift date unit (s.difference target first)
  | none => do
      let date ← s.resetBelow date unit parent
      let date ← stepWhilePast unit scope target maxAttempts date
      let current ← Calendar.read date unit scope
      let date ← Calendar.shift date unit (s.difference target current)
      s.resetBelow date unit unit

/-- Moves to the next period of the free parent and gives the unit its number there. -/
def carry (s : Search) (date : δ) (unit scope : TimeUnit) (target : Int) : Steps δ δ :=
  let parent := s.freeParent unit scope
  if parent = .epoch then
    Logged.fail (.noMatch unit 1)
  else do
    Logged.tell (.carrying unit scope target parent)
    let date ← Calendar.shift date parent 1
    let date ← s.filterAll parent date
    let date ← s.resetBetween date parent unit
    s.enter date unit scope parent target

/-- Moves a date forward to the first time that a unit within a scope has a number. -/
def fix (s : Search) (date : δ) (unit scope : TimeUnit) (target : Int) : Steps δ δ := do
  let current ← Calendar.read date unit scope
  if current = target then pure date
  else if current < target then do
    Logged.tell (.raising unit scope current target)
    let date ← Calendar.shift date unit (s.difference target current)
    s.resetBelow date unit unit
  else
    s.carry date unit scope target

/-- Moves a date forward until it satisfies a rule. -/
def visit (s : Search) (date : δ) (rule : Rule) : Steps δ δ :=
  match rule.requirement with
  | .fixed target => s.fix date rule.unit rule.scope target.toInt
  | .predicate name => do
      let (date, moved) ← s.filter date rule.unit rule.scope name
      if moved then s.resetBelow date rule.unit rule.unit else pure date

/-- Visits every rule once, in canonical order. -/
def pass (s : Search) (date : δ) : Steps δ δ := s.rules.toList.foldlM s.visit date

/-- Makes passes until all rules are satisfied.  A date before the reference stands for the
reference itself, whose fraction of a second was dropped. -/
def settle (s : Search) (reference : δ) : Nat → TimeUnit → δ → Steps δ δ
  | 0, failing, _ => Logged.fail (.noMatch failing maxPasses)
  | remaining + 1, _, date => do
      let date ← s.pass date
      let violation ← s.violation date
      match violation with
      | none => do
          let date := if date < reference then reference else date
          Logged.tell (.found date (maxPasses - remaining))
          pure date
      | some unit => do
          Logged.tell (.repairing (maxPasses - remaining) date unit)
          s.settle reference remaining unit date

/-- The earliest date on or after a reference that satisfies every rule. -/
def next (s : Search) (reference : δ) : Steps δ δ := do
  Logged.tell (.searching s.rules reference)
  let date ← Calendar.truncate reference
  s.settle reference maxPasses .year date

end Search

end Cadence

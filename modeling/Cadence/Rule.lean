import Cadence.Error

/-!
# Rules

A rule constrains the value of one unit, measured within a scope.  The type keeps what every rule
satisfies: its scope is legal for its unit, and a year is never given a number.
-/

namespace Cadence

/-- What a rule requires of its unit: a number, or that a named predicate accepts the value. -/
inductive Requirement
  | fixed (value : Int64)
  | predicate (name : String)
deriving DecidableEq

namespace Requirement

/-- The required number, if one is required. -/
def fixed? : Requirement → Option Int64
  | fixed value => some value
  | predicate _ => none

end Requirement

/-- A constraint on a unit measured within a scope. -/
structure Rule where
  unit : TimeUnit
  scope : TimeUnit
  requirement : Requirement
  legal : unit.isLegalScope scope = true
  yearNotFixed : unit = .year → requirement.fixed? = none
deriving DecidableEq

namespace Rule

/-- Makes a rule.  A missing or illegal scope becomes the default one. -/
def make (unit : TimeUnit) (scope : Option TimeUnit) (requirement : Requirement) :
    Except Error Rule :=
  if hepoch : unit = .epoch then
    .error (.invalidUnit unit.name)
  else if hyear : unit = .year ∧ requirement.fixed? ≠ none then
    .error .fixedYear
  else
    .ok
      { unit
        scope := unit.normalizeScope scope
        requirement
        legal := TimeUnit.normalizeScope_legal hepoch scope
        yearNotFixed := fun h => Decidable.not_not.mp fun hfixed => hyear ⟨h, hfixed⟩ }

/-- Whether the scope is the one meant when none is given. -/
def hasDefaultScope (rule : Rule) : Bool := rule.scope = rule.unit.defaultScope

/-- The place of a rule in canonical order: coarse units first, and the rules of one unit in the
order of its legal scopes. -/
def place (rule : Rule) : Nat := rule.unit.rank * 8 + rule.unit.scopeRank rule.scope

theorem make_unit {unit : TimeUnit} {scope : Option TimeUnit} {requirement : Requirement}
    {rule : Rule} (h : make unit scope requirement = .ok rule) :
    rule.unit = unit ∧ rule.scope = unit.normalizeScope scope ∧
      rule.requirement = requirement := by
  unfold make at h
  split at h
  · simp at h
  · split at h
    · simp at h
    · cases h
      exact ⟨rfl, rfl, rfl⟩

/-- Making a rule from the parts of a rule gives that rule back. -/
theorem make_parts (rule : Rule) :
    make rule.unit (some rule.scope) rule.requirement = .ok rule := by
  have hepoch : rule.unit ≠ .epoch := by
    intro h
    have hlegal := rule.legal
    rw [h] at hlegal
    simp [TimeUnit.isLegalScope, TimeUnit.legalScopes] at hlegal
  have hyear : ¬(rule.unit = .year ∧ rule.requirement.fixed? ≠ none) :=
    fun h => h.2 (rule.yearNotFixed h.1)
  simp only [make, hepoch, hyear, dite_false]
  simp [TimeUnit.normalizeScope_of_legal rule.legal]

/-- The place of a rule determines its unit and its scope. -/
theorem eq_of_place {a b : Rule} (h : a.place = b.place) : a.unit = b.unit ∧ a.scope = b.scope := by
  have key : ∀ u ∈ TimeUnit.all, ∀ s ∈ TimeUnit.all, ∀ v ∈ TimeUnit.all, ∀ t ∈ TimeUnit.all,
      u.isLegalScope s = true → v.isLegalScope t = true →
      u.rank * 8 + u.scopeRank s = v.rank * 8 + v.scopeRank t → u = v ∧ s = t := by
    decide +kernel
  exact key _ (TimeUnit.mem_all _) _ (TimeUnit.mem_all _) _ (TimeUnit.mem_all _) _
    (TimeUnit.mem_all _) a.legal b.legal h

end Rule

end Cadence

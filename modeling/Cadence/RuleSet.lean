import Cadence.Rule

/-!
# Rule sets

A rule set holds at most one rule per unit and scope, in canonical order.  Both notation and the
search visit rules in this order.
-/

namespace Cadence

/-- Rules in canonical order, no two of them for the same unit and scope. -/
structure RuleSet where
  toList : List Rule
  sorted : toList.Pairwise fun a b => a.place < b.place
deriving DecidableEq

namespace RuleSet

/-- Puts a rule where it belongs in an ordered list.  Also returns the rule that it displaces. -/
def insertList (rule : Rule) : List Rule → Option Rule × List Rule
  | [] => (none, [rule])
  | first :: rest =>
      if rule.place < first.place then
        (none, rule :: first :: rest)
      else if first.place < rule.place then
        let inserted := insertList rule rest
        (inserted.1, first :: inserted.2)
      else
        (some first, rule :: rest)

theorem mem_insertList {rule a : Rule} {rules : List Rule} (h : a ∈ (insertList rule rules).2) :
    a = rule ∨ a ∈ rules := by
  induction rules with
  | nil => simpa [insertList] using h
  | cons first rest ih =>
      simp only [insertList] at h
      split at h
      · simpa using h
      · split at h
        · rcases List.mem_cons.mp h with rfl | h
          · exact Or.inr List.mem_cons_self
          · rcases ih h with h | h
            · exact Or.inl h
            · exact Or.inr (List.mem_cons_of_mem _ h)
        · rcases List.mem_cons.mp h with rfl | h
          · exact Or.inl rfl
          · exact Or.inr (List.mem_cons_of_mem _ h)

theorem sorted_insertList {rule : Rule} {rules : List Rule}
    (h : rules.Pairwise fun a b => a.place < b.place) :
    (insertList rule rules).2.Pairwise fun a b => a.place < b.place := by
  induction rules with
  | nil => simp [insertList]
  | cons first rest ih =>
      obtain ⟨hfirst, hrest⟩ := List.pairwise_cons.mp h
      simp only [insertList]
      split
      · rename_i hlt
        refine List.pairwise_cons.mpr ⟨fun a ha => ?_, h⟩
        rcases List.mem_cons.mp ha with rfl | ha
        · exact hlt
        · exact Nat.lt_trans hlt (hfirst a ha)
      · split
        · rename_i hgt
          refine List.pairwise_cons.mpr ⟨fun a ha => ?_, ih hrest⟩
          rcases mem_insertList ha with rfl | ha
          · exact hgt
          · exact hfirst a ha
        · rename_i hnlt hngt
          refine List.pairwise_cons.mpr ⟨fun a ha => ?_, hrest⟩
          have := hfirst a ha
          omega

/-- No rules at all. -/
def empty : RuleSet := ⟨[], List.Pairwise.nil⟩

instance : Inhabited RuleSet := ⟨empty⟩

/-- Adds a rule.  A rule already there for the same unit and scope is displaced and returned. -/
def exchange (rules : RuleSet) (rule : Rule) : Option Rule × RuleSet :=
  let inserted := insertList rule rules.toList
  (inserted.1, ⟨inserted.2, sorted_insertList rules.sorted⟩)

/-- Adds a rule, displacing one already there for the same unit and scope. -/
def insert (rules : RuleSet) (rule : Rule) : RuleSet := (rules.exchange rule).2

/-- The rules of a list.  Of two rules for the same unit and scope the later one counts. -/
def ofList (rules : List Rule) : RuleSet := rules.foldl insert empty

/-- The rules on a unit, in the order of its scopes. -/
def of (rules : RuleSet) (unit : TimeUnit) : List Rule := rules.toList.filter (·.unit = unit)

/-- The rule on a unit within a scope. -/
def get? (rules : RuleSet) (unit scope : TimeUnit) : Option Rule :=
  (rules.of unit).find? (·.scope = scope)

/-- Whether some rule gives the unit a number. -/
def isFixed (rules : RuleSet) (unit : TimeUnit) : Bool :=
  (rules.of unit).any (·.requirement.fixed?.isSome)

/-- The units with at least one rule, coarsest first. -/
def units (rules : RuleSet) : List TimeUnit :=
  TimeUnit.constrainable.filter fun unit => !(rules.of unit).isEmpty

/-- The number of rules. -/
def size (rules : RuleSet) : Nat := rules.toList.length

theorem toList_insert (rules : RuleSet) (rule : Rule) :
    (rules.insert rule).toList = (insertList rule rules.toList).2 := rfl

theorem mem_of {rules : RuleSet} {unit : TimeUnit} {rule : Rule} :
    rule ∈ rules.of unit ↔ rule ∈ rules.toList ∧ rule.unit = unit := by
  simp [of]

end RuleSet

end Cadence

import Mathlib.Data.List.Induction
import Mathlib.Data.List.Nodup
import Mathlib.Data.List.Sort
import Cadence.RuleSet

/-!
# Rule sets as sets

A rule set is determined by its rules (`RuleSet.eq_of_mem_iff`), because its list is in the order of
their places and a place says unit and scope.  Looking a rule up finds the one for the unit and the
scope (`RuleSet.get?_eq_some_iff`), and inserting a rule keeps all the others that are not for the
same unit and scope (`RuleSet.mem_insert`).
-/

namespace Cadence

theorem Rule.unit_ne_epoch (rule : Rule) : rule.unit ≠ .epoch := by
  intro h
  have hlt := TimeUnit.legal_coarser rule.legal
  rw [h] at hlt
  exact Nat.not_lt_zero _ hlt

/-- A unit has fewer than eight scopes, so the places of its rules come before those of the next. -/
theorem Rule.place_bounds (rule : Rule) :
    rule.unit.rank * 8 ≤ rule.place ∧ rule.place < rule.unit.rank * 8 + 8 := by
  have hscope : ∀ unit ∈ TimeUnit.all, ∀ scope ∈ TimeUnit.all, unit.scopeRank scope < 8 := by
    decide
  have := hscope _ (TimeUnit.mem_all rule.unit) _ (TimeUnit.mem_all rule.scope)
  simp only [Rule.place]
  omega

theorem Rule.place_eq_iff {a b : Rule} :
    a.place = b.place ↔ a.unit = b.unit ∧ a.scope = b.scope := by
  constructor
  · exact Rule.eq_of_place
  · rintro ⟨hunit, hscope⟩
    rw [Rule.place, Rule.place, hunit, hscope]

namespace RuleSet

variable {rules : RuleSet} {rule a b : Rule} {unit scope : TimeUnit}

/-! ## Looking up -/

theorem eq_of_place_eq (ha : a ∈ rules.toList) (hb : b ∈ rules.toList)
    (h : a.place = b.place) : a = b := by
  have hnodup : (rules.toList.map Rule.place).Nodup :=
    List.pairwise_map.mpr (rules.sorted.imp Nat.ne_of_lt)
  exact List.inj_on_of_nodup_map hnodup ha hb h

/-- Looking up finds the rule for a unit and a scope. -/
theorem get?_eq_some_iff :
    rules.get? unit scope = some rule ↔
      rule ∈ rules.toList ∧ rule.unit = unit ∧ rule.scope = scope := by
  constructor
  · intro h
    have hscope := List.find?_some h
    obtain ⟨hmem, hunit⟩ := mem_of.mp (List.mem_of_find?_eq_some h)
    exact ⟨hmem, hunit, by simpa using hscope⟩
  · rintro ⟨hmem, hunit, hscope⟩
    cases hfound : rules.get? unit scope with
    | none =>
        have := List.find?_eq_none.mp hfound rule (mem_of.mpr ⟨hmem, hunit⟩)
        simp [hscope] at this
    | some found =>
        -- Two rules for one unit and scope have the same place.
        have hfscope := List.find?_some hfound
        obtain ⟨hfmem, hfunit⟩ := mem_of.mp (List.mem_of_find?_eq_some hfound)
        have hplace : found.place = rule.place :=
          Rule.place_eq_iff.mpr ⟨hfunit.trans hunit.symm, by simpa [hscope] using hfscope⟩
        rw [eq_of_place_eq hfmem hmem hplace]

theorem get?_eq_none_iff :
    rules.get? unit scope = none ↔
      ∀ rule ∈ rules.toList, ¬(rule.unit = unit ∧ rule.scope = scope) := by
  rw [Option.eq_none_iff_forall_ne_some]
  constructor
  · intro h rule hrule hplace
    exact h rule (get?_eq_some_iff.mpr ⟨hrule, hplace⟩)
  · intro h rule hfound
    obtain ⟨hrule, hplace⟩ := get?_eq_some_iff.mp hfound
    exact h rule hrule hplace

/-- Rule sets with the same rules are the same. -/
theorem eq_of_mem_iff {r s : RuleSet} (h : ∀ rule, rule ∈ r.toList ↔ rule ∈ s.toList) :
    r = s := by
  have : Std.Antisymm fun a b : Rule => a.place < b.place := ⟨fun _ _ h₁ h₂ => by omega⟩
  have : Std.Irrefl fun a b : Rule => a.place < b.place := ⟨fun _ h => by omega⟩
  have hlist := r.sorted.eq_of_mem_iff s.sorted h
  cases r
  cases s
  exact (RuleSet.mk.injEq ..).mpr hlist

/-! ## Inserting -/

/-- A rule that is inserted displaces the one for the same unit and scope, and no other. -/
theorem mem_insert :
    a ∈ (rules.insert rule).toList ↔ a = rule ∨ (a ∈ rules.toList ∧ a.place ≠ rule.place) := by
  rw [toList_insert]
  have hsorted := rules.sorted
  generalize rules.toList = list at hsorted ⊢
  induction list with
  | nil => simp [insertList]
  | cons first rest ih =>
      obtain ⟨hfirst, hrest⟩ := List.pairwise_cons.mp hsorted
      -- All rules behind the first one have later places.
      have hlater : a ∈ rest → first.place < a.place := hfirst a
      simp only [insertList]
      split_ifs with hlt hgt
      · grind
      · grind
      · grind

/-- A rule for a unit and a scope without one is added to the others. -/
theorem mem_insert_of_get?_eq_none (h : rules.get? rule.unit rule.scope = none) :
    a ∈ (rules.insert rule).toList ↔ a = rule ∨ a ∈ rules.toList := by
  rw [mem_insert]
  refine or_congr_right (and_iff_left_of_imp ?_)
  intro ha hplace
  exact get?_eq_none_iff.mp h a ha (Rule.place_eq_iff.mp hplace)

theorem ofList_append_singleton (list : List Rule) (rule : Rule) :
    ofList (list ++ [rule]) = (ofList list).insert rule := by
  simp only [ofList, List.foldl_append, List.foldl_cons, List.foldl_nil]

/-- Rules for different units or scopes all stay in the rule set that is made of them. -/
theorem mem_ofList_iff {list : List Rule} (h : list.Pairwise fun a b => a.place ≠ b.place) :
    a ∈ (ofList list).toList ↔ a ∈ list := by
  induction list using List.reverseRecOn with
  | nil => rfl
  | append_singleton list rule ih =>
      obtain ⟨hlist, -, hlast⟩ := List.pairwise_append.mp h
      rw [ofList_append_singleton, mem_insert, ih hlist, List.mem_append, List.mem_singleton, or_comm]
      exact or_congr_left (and_iff_left_of_imp fun ha => hlast a ha rule List.mem_cons_self)

end RuleSet

end Cadence

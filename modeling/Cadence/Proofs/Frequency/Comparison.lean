import Cadence.Frequency
import Cadence.Proofs.Rules.FiniteMap

/-!
# Comparing frequencies

A comparison walks over the rules of one side and looks the scopes of each up on the other.  Both
sides meet the scopes that they share in the same order (`Frequency.compareNumbers_of`), so the
answer is reversed when the sides change places (`Frequency.swap_compare`).

A scope that only one side has, and a predicate, give no signal, so the answers for three
frequencies need not fit together.  They do (`Coherent`) if, wherever two of the frequencies have
rules on a unit, they require numbers within the same scopes of it (`RuleSet.Commensurable`).  Those
that require only numbers within default scopes are among them, and there the comparison is a linear
order (`Frequency.compare_laws`).
-/

namespace Cadence

/-! ## Comparing by one criterion after the other -/

/-- The first criterion with a difference decides. -/
def firstDifference {α : Type} (f : α → Ordering) (criteria : List α) : Ordering :=
  criteria.foldr (fun a rest => (f a).then rest) .eq

section FirstDifference

variable {α : Type} {f g h : α → Ordering} {criteria : List α}

theorem firstDifference_cons {a : α} :
    firstDifference f (a :: criteria) = (f a).then (firstDifference f criteria) := rfl

theorem firstDifference_congr (h : ∀ a, f a = g a) :
    firstDifference f criteria = firstDifference g criteria := by rw [funext h]

theorem swap_firstDifference :
    (firstDifference f criteria).swap = firstDifference (fun a => (f a).swap) criteria := by
  induction criteria with
  | nil => rfl
  | cons a criteria ih => rw [firstDifference_cons, Ordering.swap_then, ih, firstDifference_cons]

theorem firstDifference_eq_eq_iff :
    firstDifference f criteria = .eq ↔ ∀ a ∈ criteria, f a = .eq := by
  induction criteria with
  | nil => simp [firstDifference]
  | cons a criteria ih =>
      rw [firstDifference_cons, Ordering.then_eq_eq, ih, List.forall_mem_cons]

/-- The answers for a first and a second, for the second and a third, and for the first and the
third thing fit together. -/
structure Coherent (ab bc ac : Ordering) : Prop where
  of_left : ab = .eq → ac = bc
  of_right : bc = .eq → ac = ab
  of_eq : ab = bc → ac = ab

namespace Coherent

variable {ab bc ac ab' bc' ac' : Ordering}

theorem of_transOrd {β : Type} [Ord β] [Std.TransOrd β] (a b c : β) :
    Coherent (Ord.compare a b) (Ord.compare b c) (Ord.compare a c) where
  of_left h := Std.TransCmp.congr_left h
  of_right h := (Std.TransCmp.congr_right h).symm
  of_eq h := by
    cases hab : Ord.compare a b with
    | lt => exact Std.TransCmp.lt_trans hab (h ▸ hab)
    | eq => exact (Std.TransCmp.congr_left hab).trans (h ▸ hab)
    | gt => exact Std.TransCmp.gt_trans hab (h ▸ hab)

/-- A second criterion is asked only if the first one makes no difference. -/
theorem andThen (h : Coherent ab bc ac)
    (h' : ab = .eq → bc = .eq → Coherent ab' bc' ac') :
    Coherent (ab.then ab') (bc.then bc') (ac.then ac') := by
  cases ab with
  | eq =>
      cases h.of_left rfl
      cases bc with
      | eq => exact h' rfl rfl
      | lt | gt => exact ⟨fun _ => rfl, nofun, fun heq => heq.symm⟩
  | lt =>
      cases bc with
      | eq =>
          cases h.of_right rfl
          exact ⟨nofun, fun _ => rfl, fun _ => rfl⟩
      | lt =>
          cases h.of_eq rfl
          exact ⟨nofun, nofun, fun _ => rfl⟩
      | gt => exact ⟨nofun, nofun, nofun⟩
  | gt =>
      cases bc with
      | eq =>
          cases h.of_right rfl
          exact ⟨nofun, fun _ => rfl, fun _ => rfl⟩
      | lt => exact ⟨nofun, nofun, nofun⟩
      | gt =>
          cases h.of_eq rfl
          exact ⟨nofun, nofun, fun _ => rfl⟩

theorem isLE_trans (h : Coherent ab bc ac) (hab : ab.isLE = true) (hbc : bc.isLE = true) :
    ac.isLE = true := by
  cases ab with
  | eq => rwa [h.of_left rfl]
  | lt =>
      cases bc with
      | eq => rw [h.of_right rfl, hab]
      | lt => rw [h.of_eq rfl, hab]
      | gt => cases hbc
  | gt => cases hab

end Coherent

theorem coherent_firstDifference (hcoherent : ∀ a ∈ criteria, Coherent (f a) (g a) (h a)) :
    Coherent (firstDifference f criteria) (firstDifference g criteria)
      (firstDifference h criteria) := by
  induction criteria with
  | nil => exact ⟨fun _ => rfl, fun _ => rfl, fun _ => rfl⟩
  | cons a criteria ih =>
      obtain ⟨ha, hrest⟩ := List.forall_mem_cons.mp hcoherent
      exact ha.andThen fun _ _ => ih hrest

end FirstDifference

/-! ## Numbers within scopes -/

namespace RuleSet

variable {rules a b : RuleSet} {unit scope : TimeUnit} {rule : Rule} {n : Int64}

/-- The number that is required of a unit within a scope, if one is. -/
def number? (rules : RuleSet) (unit scope : TimeUnit) : Option Int64 :=
  (rules.get? unit scope).bind (·.requirement.fixed?)

/-- A rule with a number is in a rule set exactly if that number is required there. -/
theorem mem_iff_number? (h : rule.requirement = .fixed n) :
    rule ∈ rules.toList ↔ rules.number? rule.unit rule.scope = some n := by
  rw [number?, Option.bind_eq_some_iff]
  constructor
  · intro hrule
    exact ⟨rule, get?_eq_some_iff.mpr ⟨hrule, rfl, rfl⟩, by rw [h]; rfl⟩
  · rintro ⟨found, hfound, hn⟩
    obtain ⟨hmem, hunit, hscope⟩ := get?_eq_some_iff.mp hfound
    have hrequirement : found.requirement = rule.requirement := by
      rw [h]
      cases hreq : found.requirement with
      | fixed m => simpa [hreq, Requirement.fixed?] using hn
      | predicate name => simp [hreq, Requirement.fixed?] at hn
    have heq : found = rule := by
      cases found
      cases rule
      simp_all
    exact heq ▸ hmem

/-- Whether there is a rule on a unit. -/
def constrains (rules : RuleSet) (unit : TimeUnit) : Bool := !(rules.of unit).isEmpty

theorem constrains_iff : rules.constrains unit = true ↔ ∃ rule ∈ rules.toList, rule.unit = unit := by
  simp only [constrains, Bool.not_eq_true', List.isEmpty_eq_false_iff_exists_mem, mem_of]

theorem constrains_of_number? (h : (rules.number? unit scope).isSome = true) :
    rules.constrains unit = true := by
  obtain ⟨n, hn⟩ := Option.isSome_iff_exists.mp h
  obtain ⟨rule, hget, -⟩ := Option.bind_eq_some_iff.mp hn
  obtain ⟨hmem, hunit, -⟩ := get?_eq_some_iff.mp hget
  exact constrains_iff.mpr ⟨rule, hmem, hunit⟩

/-- Wherever both rule sets have rules on a unit, they require numbers within the same scopes of
it. -/
def Commensurable (a b : RuleSet) : Prop :=
  ∀ unit, a.constrains unit = true → b.constrains unit = true →
    ∀ scope, (a.number? unit scope).isSome = (b.number? unit scope).isSome

theorem Commensurable.isSome_eq (h : a.Commensurable b)
    (hunit : a.constrains unit = b.constrains unit) (scope : TimeUnit) :
    (a.number? unit scope).isSome = (b.number? unit scope).isSome := by
  cases ha : a.constrains unit with
  | true => exact h unit ha (hunit ▸ ha) scope
  | false =>
      -- Without rules there are no numbers.
      have hb : b.constrains unit = false := hunit ▸ ha
      rw [Bool.eq_false_iff.mpr fun hn => Bool.false_ne_true (ha ▸ constrains_of_number? hn),
        Bool.eq_false_iff.mpr fun hn => Bool.false_ne_true (hb ▸ constrains_of_number? hn)]

end RuleSet

namespace Frequency

variable {a b c : RuleSet} {f g h : Frequency} {unit scope : TimeUnit}

/-- Compares the numbers required within one scope, if both are. -/
def compareWithin (a b : RuleSet) (unit scope : TimeUnit) : Ordering :=
  match a.number? unit scope, b.number? unit scope with
  | some m, some n => Ord.compare m.toInt n.toInt
  | _, _ => .eq

theorem swap_compareWithin : (compareWithin a b unit scope).swap = compareWithin b a unit scope := by
  unfold compareWithin
  cases a.number? unit scope with
  | none => cases b.number? unit scope <;> rfl
  | some m =>
      cases b.number? unit scope with
      | none => rfl
      | some n =>
          have hswap : Ord.compare n.toInt m.toInt = (Ord.compare m.toInt n.toInt).swap :=
            Std.OrientedOrd.eq_swap
          exact hswap.symm

/-- A walk over the rules of a unit compares the numbers within one legal scope after the other,
whichever side it goes over. -/
theorem compareNumbers_of (a b : RuleSet) (unit : TimeUnit) :
    compareNumbers b (a.of unit) = firstDifference (compareWithin a b unit) unit.legalScopes := by
  rw [RuleSet.of_eq_filterMap]
  generalize unit.legalScopes = scopes
  induction scopes with
  | nil => rfl
  | cons scope scopes ih =>
      rw [firstDifference_cons, ← ih]
      cases hget : a.get? unit scope with
      | none =>
          have hwithin : compareWithin a b unit scope = .eq := by
            simp [compareWithin, RuleSet.number?, hget]
          rw [List.filterMap_cons_none hget, hwithin]
          rfl
      | some rule =>
          obtain ⟨-, hunit, hscope⟩ := RuleSet.get?_eq_some_iff.mp hget
          have hnumber : a.number? unit scope = rule.requirement.fixed? := by
            rw [RuleSet.number?, hget, Option.bind_some]
          rw [List.filterMap_cons_some hget, compareNumbers, hunit, hscope, compareWithin, hnumber]
          rfl

/-- Whether there is a rule on the unit comes first, and then the numbers. -/
theorem compareUnit_eq (a b : RuleSet) (unit : TimeUnit) :
    compareUnit a b unit = (Ord.compare (a.constrains unit) (b.constrains unit)).then
      (firstDifference (compareWithin a b unit) unit.legalScopes) := by
  rw [← compareNumbers_of, compareUnit, RuleSet.constrains, RuleSet.constrains]
  cases ha : a.of unit with
  | nil => cases b.of unit <;> rfl
  | cons => cases b.of unit <;> rfl

theorem swap_compareUnit : (compareUnit a b unit).swap = compareUnit b a unit := by
  have hswap : (Ord.compare (a.constrains unit) (b.constrains unit)).swap =
      Ord.compare (b.constrains unit) (a.constrains unit) := Std.OrientedOrd.eq_swap.symm
  rw [compareUnit_eq, compareUnit_eq, Ordering.swap_then, hswap, swap_firstDifference]
  exact congrArg _ (firstDifference_congr fun scope => swap_compareWithin)

theorem compare_eq_firstDifference (f g : Frequency) :
    f.compare g = firstDifference (compareUnit f.rules g.rules) TimeUnit.constrainable := rfl

/-- The answer is reversed when the sides change places. -/
theorem swap_compare (f g : Frequency) : (f.compare g).swap = g.compare f := by
  rw [compare_eq_firstDifference, compare_eq_firstDifference, swap_firstDifference]
  exact firstDifference_congr fun unit => swap_compareUnit

theorem compare_self (f : Frequency) : f.compare f = .eq := by
  have hswap := f.swap_compare f
  cases h : f.compare f with
  | eq => rfl
  | lt => simp [h] at hswap
  | gt => simp [h] at hswap

theorem beq_iff_rules : (f == g) = true ↔ f.rules = g.rules := decide_eq_true_iff

theorem compare_of_beq (h : (f == g) = true) : f.compare g = .eq := by
  rw [compare_eq_firstDifference, ← beq_iff_rules.mp h]
  exact f.compare_self

/-! ## Orders -/

theorem coherent_compareWithin
    (hab : (a.number? unit scope).isSome = (b.number? unit scope).isSome)
    (hbc : (b.number? unit scope).isSome = (c.number? unit scope).isSome) :
    Coherent (compareWithin a b unit scope) (compareWithin b c unit scope)
      (compareWithin a c unit scope) := by
  unfold compareWithin
  cases hb : b.number? unit scope with
  | none =>
      rw [hb, Option.isSome_none] at hab
      rw [Option.isSome_eq_false_iff.mp hab |> Option.isNone_iff_eq_none.mp]
      exact ⟨fun _ => rfl, fun _ => rfl, fun _ => rfl⟩
  | some n =>
      rw [hb, Option.isSome_some] at hab hbc
      obtain ⟨m, ha⟩ := Option.isSome_iff_exists.mp hab
      obtain ⟨k, hc⟩ := Option.isSome_iff_exists.mp hbc.symm
      rw [ha, hc]
      exact Coherent.of_transOrd m.toInt n.toInt k.toInt

theorem coherent_compareUnit (hab : a.Commensurable b) (hbc : b.Commensurable c) :
    Coherent (compareUnit a b unit) (compareUnit b c unit) (compareUnit a c unit) := by
  rw [compareUnit_eq, compareUnit_eq, compareUnit_eq]
  refine (Coherent.of_transOrd _ _ _).andThen fun ha hb => ?_
  refine coherent_firstDifference fun scope _ => coherent_compareWithin ?_ ?_
  · exact hab.isSome_eq (Std.LawfulEqOrd.eq_of_compare ha) scope
  · exact hbc.isSome_eq (Std.LawfulEqOrd.eq_of_compare hb) scope

/-- The answers for commensurable frequencies fit together. -/
theorem coherent_compare (hfg : f.rules.Commensurable g.rules)
    (hgh : g.rules.Commensurable h.rules) :
    Coherent (f.compare g) (g.compare h) (f.compare h) :=
  coherent_firstDifference fun _ _ => coherent_compareUnit hfg hgh

/-- The comparison is transitive on some frequencies. -/
def TransitiveOn (fs : List Frequency) : Prop :=
  ∀ f ∈ fs, ∀ g ∈ fs, ∀ h ∈ fs,
    (f.compare g).isLE = true → (g.compare h).isLE = true → (f.compare h).isLE = true

instance (fs : List Frequency) : Decidable (TransitiveOn fs) :=
  inferInstanceAs (Decidable (∀ f ∈ fs, ∀ g ∈ fs, ∀ h ∈ fs,
    (f.compare g).isLE = true → (g.compare h).isLE = true → (f.compare h).isLE = true))

theorem transitiveOn_of_commensurable {fs : List Frequency}
    (hfs : ∀ f ∈ fs, ∀ g ∈ fs, f.rules.Commensurable g.rules) : TransitiveOn fs :=
  fun f hf g hg h hh => (coherent_compare (hfs f hf g hg) (hfs g hg h hh)).isLE_trans

/-! ## Numbers within default scopes -/

/-- All rules require numbers, within the default scopes of their units. -/
structure IsPlain (f : Frequency) : Prop where
  fixed : ∀ rule ∈ f.rules.toList, rule.requirement.fixed?.isSome = true
  scope : ∀ rule ∈ f.rules.toList, rule.hasDefaultScope = true

namespace IsPlain

theorem exists_fixed (hf : f.IsPlain) {rule : Rule} (hrule : rule ∈ f.rules.toList) :
    ∃ n, rule.requirement = .fixed n := by
  have hfixed := hf.fixed rule hrule
  cases hreq : rule.requirement with
  | fixed n => exact ⟨n, rfl⟩
  | predicate name => simp [hreq, Requirement.fixed?] at hfixed

theorem isSome_number?_iff (hf : f.IsPlain) (hunit : f.rules.constrains unit = true) :
    (f.rules.number? unit scope).isSome = true ↔ scope = unit.defaultScope := by
  constructor
  · intro hsome
    obtain ⟨n, hn⟩ := Option.isSome_iff_exists.mp hsome
    obtain ⟨rule, hget, -⟩ := Option.bind_eq_some_iff.mp hn
    obtain ⟨hrule, rfl, rfl⟩ := RuleSet.get?_eq_some_iff.mp hget
    exact of_decide_eq_true (hf.scope rule hrule)
  · rintro rfl
    obtain ⟨rule, hrule, rfl⟩ := RuleSet.constrains_iff.mp hunit
    obtain ⟨n, hn⟩ := hf.exists_fixed hrule
    have hscope : rule.scope = rule.unit.defaultScope := of_decide_eq_true (hf.scope rule hrule)
    rw [← hscope, (RuleSet.mem_iff_number? hn).mp hrule, Option.isSome_some]

theorem commensurable (hf : f.IsPlain) (hg : g.IsPlain) : f.rules.Commensurable g.rules := by
  intro unit hfunit hgunit scope
  rw [Bool.eq_iff_iff, hf.isSome_number?_iff hfunit, hg.isSome_number?_iff hgunit]

/-- If the comparison makes no difference, the rules of one side are rules of the other. -/
theorem mem_of_compare_eq (hf : f.IsPlain) (hg : g.IsPlain) (heq : f.compare g = .eq) {rule : Rule}
    (hrule : rule ∈ f.rules.toList) : rule ∈ g.rules.toList := by
  have hunits := firstDifference_eq_eq_iff.mp heq
  have hunit := hunits rule.unit
    (by cases hu : rule.unit <;> simp_all [TimeUnit.constrainable, rule.unit_ne_epoch])
  rw [compareUnit_eq, Ordering.then_eq_eq] at hunit
  obtain ⟨hconstrains, hnumbers⟩ := hunit
  have hwithin := firstDifference_eq_eq_iff.mp hnumbers rule.scope
    (List.contains_iff_mem.mp rule.legal)
  obtain ⟨m, hm⟩ := hf.exists_fixed hrule
  have hnumber := (RuleSet.mem_iff_number? hm).mp hrule
  -- The other side requires a number of this unit within this scope as well.
  have hsome := (hf.commensurable hg).isSome_eq (Std.LawfulEqOrd.eq_of_compare hconstrains) rule.scope
  rw [hnumber, Option.isSome_some] at hsome
  obtain ⟨n, hn⟩ := Option.isSome_iff_exists.mp hsome.symm
  have hmn : m = n := by
    simp only [compareWithin, hnumber, hn] at hwithin
    exact Int64.toInt_inj.mp (Std.LawfulEqOrd.eq_of_compare hwithin)
  exact (RuleSet.mem_iff_number? hm).mpr (hmn ▸ hn)

theorem beq_of_compare_eq (hf : f.IsPlain) (hg : g.IsPlain) (heq : f.compare g = .eq) :
    (f == g) = true := by
  have heq' : g.compare f = .eq := by rw [← swap_compare, heq, Ordering.swap_eq]
  exact beq_iff_rules.mpr (RuleSet.eq_of_mem_iff fun rule =>
    ⟨hf.mem_of_compare_eq hg heq, hg.mem_of_compare_eq hf heq'⟩)

end IsPlain

/-- Comparing the other way round reverses the answer, and equal frequencies compare equal.  On
frequencies that require only numbers, within default scopes, the comparison is transitive and tells
all different frequencies apart. -/
theorem compare_laws (f g : Frequency) :
    g.compare f = (f.compare g).swap ∧
      ((f == g) = true → f.compare g = .eq) ∧
      (f.IsPlain → g.IsPlain →
        (f.compare g = .eq → (f == g) = true) ∧
        ∀ h : Frequency, h.IsPlain → (f.compare g).isLE = true → (g.compare h).isLE = true →
          (f.compare h).isLE = true) :=
  ⟨(swap_compare f g).symm, compare_of_beq, fun hf hg =>
    ⟨hf.beq_of_compare_eq hg, fun _ hh hfg hgh =>
      (coherent_compare (hf.commensurable hg) (hg.commensurable hh)).isLE_trans hfg hgh⟩⟩

/-- Every tenth hour of a day. -/
def tenthHours : Frequency := ((empty .empty).on .hour (.fixed 10) none).toOption.get rfl

/-- The tenth hour of every first day of a month. -/
def firstDays : Frequency := (tenthHours.on .day (.fixed 1) none).toOption.get rfl

/-- Every second day of a month. -/
def secondDays : Frequency := ((empty .empty).on .day (.fixed 2) none).toOption.get rfl

/-- A rule on days counts for more than one on hours, and of two days the later one. -/
theorem compare_hours_days :
    (tenthHours.IsPlain ∧ firstDays.IsPlain ∧ secondDays.IsPlain) ∧
      ((firstDays == firstDays) = true ∧ firstDays.compare firstDays = .eq) ∧
      (tenthHours.compare firstDays).isLE = true ∧ (firstDays.compare secondDays).isLE = true ∧
      (tenthHours.compare secondDays).isLE = true := by
  have hhours : tenthHours.IsPlain := ⟨by decide, by decide⟩
  have hfirst : firstDays.IsPlain := ⟨by decide, by decide⟩
  have hsecond : secondDays.IsPlain := ⟨by decide, by decide⟩
  have hle : (tenthHours.compare firstDays).isLE = true := by decide
  have hle' : (firstDays.compare secondDays).isLE = true := by decide
  have hsame : (firstDays == firstDays) = true := by decide
  exact ⟨⟨hhours, hfirst, hsecond⟩, ⟨hsame, (compare_laws firstDays firstDays).2.1 hsame⟩, hle, hle',
    ((compare_laws tenthHours firstDays).2.2 hhours hfirst).2 secondDays hsecond hle hle'⟩

end Frequency

end Cadence

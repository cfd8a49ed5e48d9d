import Cadence.Proofs.Civil.Usual
import Cadence.Proofs.Search.Earliest

/-!
# Searches within the usual scopes

Searches whose rules are all within the usual scopes, without any about weeks.  A carry of such a
search goes through the finest coarser unit that no number is required of
(`Usual.freeParent_spec`).  All units between that one and the carried unit show their numbers when
the carry begins, so the first later period that may hold a match is the next one of the free
parent (`Usual.visit_le`).  That they do is an invariant of tours (`Usual.tour_ready`): as long as
the rules of a tour are satisfied it stays where it is, and once it has moved all finer units have
their first values, from which nothing is carried.
-/

namespace Cadence

open Civil

namespace Search

/-- Every rule is within the usual scope of its unit, and none is about weeks. -/
structure Usual (s : Search) : Prop where
  subtracts : s.Subtracts
  scope : ∀ rule ∈ s.rules.toList, rule.hasDefaultScope = true
  week : ∀ rule ∈ s.rules.toList, rule.unit ≠ .week

/-! ## Rules with numbers -/

section Fixed

variable {s : Search} {unit : TimeUnit}

theorem isFixed_iff : s.rules.isFixed unit = true ↔
    ∃ rule ∈ s.rules.toList, rule.unit = unit ∧ ∃ target, rule.requirement = .fixed target := by
  simp only [RuleSet.isFixed, List.any_eq_true, RuleSet.mem_of]
  constructor
  · rintro ⟨rule, ⟨hrule, hunit⟩, hfixed⟩
    refine ⟨rule, hrule, hunit, ?_⟩
    cases hreq : rule.requirement with
    | fixed target => exact ⟨target, rfl⟩
    | predicate name => simp [hreq, Requirement.fixed?] at hfixed
  · rintro ⟨rule, hrule, hunit, target, hreq⟩
    exact ⟨rule, ⟨hrule, hunit⟩, by rw [hreq]; rfl⟩

theorem isFixed_year : s.rules.isFixed .year = false := by
  rw [← Bool.not_eq_true, isFixed_iff]
  rintro ⟨rule, -, hunit, target, hreq⟩
  exact unit_ne_year hreq hunit

end Fixed

/-! ## The free parent -/

/-- The last of some units that are listed from coarse to fine is the finest. -/
theorem le_getLastD {units : List TimeUnit} (hsorted : units.Pairwise (· ≤ ·)) {u : TimeUnit}
    (hu : u ∈ units) (default : TimeUnit) :
    u ≤ units.getLastD default ∧ units.getLastD default ∈ units := by
  induction units generalizing u default with
  | nil => simp at hu
  | cons a units ih =>
      obtain ⟨hfirst, hrest⟩ := List.pairwise_cons.mp hsorted
      rw [List.getLastD_cons]
      cases units with
      | nil =>
          rw [List.mem_singleton.mp hu]
          exact ⟨Nat.le_refl _, List.mem_singleton_self _⟩
      | cons b units =>
          have hlast := (ih hrest List.mem_cons_self a).2
          refine ⟨?_, List.mem_cons_of_mem _ hlast⟩
          rcases List.mem_cons.mp hu with rfl | hu
          · exact hfirst _ hlast
          · exact (ih hrest hu a).1

/-- The usual scopes of a unit and of the coarser ones. -/
def usualScopes (unit : TimeUnit) : List TimeUnit :=
  (TimeUnit.constrainable.filter (· ≤ unit)).map TimeUnit.defaultScope

theorem usualScopes_sorted (unit : TimeUnit) : (usualScopes unit).Pairwise (· ≤ ·) := by
  cases unit <;> decide

theorem week_notMem_usualScopes (unit : TimeUnit) : .week ∉ usualScopes unit := by
  cases unit <;> decide

/-- Apart from weeks, years and everything between them and the unit are usual scopes. -/
theorem mem_usualScopes {unit u : TimeUnit} (hunit : TimeUnit.year < unit ∧ unit ≠ .week)
    (hyear : TimeUnit.year ≤ u) (hlt : u < unit) (hweek : u ≠ .week) :
    u ∈ usualScopes unit ∧ u ≤ unit.defaultScope := by
  revert hunit hyear hlt hweek
  cases unit <;> cases u <;> decide

namespace Usual

variable {s : Search} {x y m : DateTime} {rule : Rule}

theorem scope_eq (h : s.Usual) (hrule : rule ∈ s.rules.toList) :
    rule.scope = rule.unit.defaultScope := by
  simpa [Rule.hasDefaultScope] using h.scope rule hrule

theorem measured (h : s.Usual) (hrule : rule ∈ s.rules.toList) :
    measured rule.unit rule.scope = true := by
  rw [h.scope_eq hrule]
  exact measured_defaultScope rule.unit_ne_epoch

/-- No two rules are about one unit, and coarser units come first. -/
theorem sorted (h : s.Usual) : s.rules.toList.Pairwise fun a b => a.unit < b.unit := by
  refine s.rules.sorted.imp_of_mem ?_
  intro a b ha hb hlt
  -- The usual scope comes first among the scopes of a unit, so the units decide the order.
  have hrank (unit : TimeUnit) : unit.scopeRank unit.defaultScope = 0 := by
    cases unit <;> decide
  rw [Rule.place, Rule.place, h.scope_eq ha, h.scope_eq hb, hrank, hrank] at hlt
  rw [TimeUnit.lt_def]
  omega

theorem of_eq (h : s.Usual) (unit : TimeUnit) :
    s.rules.of unit = [] ∨
      ∃ rule ∈ s.rules.toList, rule.unit = unit ∧ s.rules.of unit = [rule] := by
  have hsorted : (s.rules.of unit).Pairwise fun a b => a.unit < b.unit := h.sorted.filter _
  have hmem {rule : Rule} (hrule : rule ∈ s.rules.of unit) := RuleSet.mem_of.mp hrule
  cases hof : s.rules.of unit with
  | nil => exact Or.inl rfl
  | cons first rest =>
      rw [hof] at hsorted hmem
      obtain ⟨hrule, hunit⟩ := hmem List.mem_cons_self
      refine Or.inr ⟨first, hrule, hunit, ?_⟩
      cases rest with
      | nil => rfl
      | cons second rest =>
          have hlt := (List.pairwise_cons.mp hsorted).1 second List.mem_cons_self
          have hunit' := (hmem (List.mem_cons_of_mem _ List.mem_cons_self)).2
          rw [hunit, hunit', TimeUnit.lt_def] at hlt
          exact absurd hlt (Nat.lt_irrefl _)

theorem eq_of_unit_eq (h : s.Usual) {a b : Rule} (ha : a ∈ s.rules.toList)
    (hb : b ∈ s.rules.toList) (hunit : a.unit = b.unit) : a = b := by
  have hmem := RuleSet.mem_of.mpr ⟨ha, hunit⟩
  have hmem' := RuleSet.mem_of.mpr ⟨hb, rfl⟩
  obtain hof | ⟨rule, -, -, hof⟩ := h.of_eq b.unit
  · rw [hof] at hmem
    cases hmem
  · rw [hof] at hmem hmem'
    exact (List.mem_singleton.mp hmem).trans (List.mem_singleton.mp hmem').symm

/-- The scopes in play are the usual ones, once each. -/
theorem freeParent_eq (h : s.Usual) (unit scope : TimeUnit) :
    s.freeParent unit scope = ((usualScopes unit).filter fun u =>
      u ≤ scope && !s.rules.isFixed u).getLastD .epoch := by
  refine congrArg (fun units : List TimeUnit => (units.filter fun u =>
    u ≤ scope && !s.rules.isFixed u).getLastD .epoch) ?_
  rw [usualScopes, List.map_eq_flatMap]
  refine congrArg (List.flatMap · _) (funext fun u => ?_)
  obtain hof | ⟨rule, hrule, rfl, hof⟩ := h.of_eq u
  · simp only [hof]
  · simp only [hof, List.map_cons, List.map_nil, h.scope_eq hrule]

/-- The free parent of a unit is the finest coarser unit that no number is required of. -/
theorem freeParent_spec (h : s.Usual) (hrule : rule ∈ s.rules.toList) {target : Int64}
    (hreq : rule.requirement = .fixed target) :
    s.freeParent rule.unit rule.scope ≠ .epoch ∧ s.freeParent rule.unit rule.scope ≠ .week ∧
      s.rules.isFixed (s.freeParent rule.unit rule.scope) = false ∧
      ∀ u, s.freeParent rule.unit rule.scope < u → u < rule.unit → u ≠ .week →
        s.rules.isFixed u = true := by
  have hunit : TimeUnit.year < rule.unit ∧ rule.unit ≠ .week := by
    have hyear := unit_ne_year hreq
    have hweek := h.week rule hrule
    have hepoch := rule.unit_ne_epoch
    revert hyear hweek hepoch
    cases rule.unit <;> decide
  rw [h.freeParent_eq, h.scope_eq hrule]
  have hsorted := (usualScopes_sorted rule.unit).filter fun u =>
    u ≤ rule.unit.defaultScope && !s.rules.isFixed u
  -- Whatever is free is a candidate, and the last candidate is the finest.
  have hfree {u : TimeUnit} (hyear : TimeUnit.year ≤ u) (hlt : u < rule.unit) (hweek : u ≠ .week)
      (hfixed : s.rules.isFixed u = false) := by
    obtain ⟨hmem, hle⟩ := mem_usualScopes hunit hyear hlt hweek
    exact le_getLastD hsorted (List.mem_filter.mpr ⟨hmem, by simp [hle, hfixed]⟩) .epoch
  obtain ⟨hyear, hmem⟩ := hfree (Nat.le_refl _) hunit.1 (by decide) isFixed_year
  obtain ⟨hscopes, hkeep⟩ := List.mem_filter.mp hmem
  refine ⟨?_, ?_, ?_, ?_⟩
  · intro hepoch
    rw [hepoch] at hyear
    exact absurd hyear (by decide)
  · intro hweek
    rw [hweek] at hscopes
    exact week_notMem_usualScopes _ hscopes
  · simp only [Bool.and_eq_true, Bool.not_eq_true'] at hkeep
    exact hkeep.2
  · intro u hlow hhigh hweek
    by_contra hfixed
    have hlow' := Nat.le_trans hyear (Nat.le_of_lt hlow)
    have hle := (hfree hlow' hhigh hweek (by simpa using hfixed)).1
    exact absurd hlow (Nat.not_lt.mpr hle)

theorem scope_ne_week (h : s.Usual) (hrule : rule ∈ s.rules.toList) : rule.scope ≠ .week := by
  rw [h.scope_eq hrule]
  cases rule.unit <;> decide

theorem scope_ne_epoch (h : s.Usual) (hrule : rule ∈ s.rules.toList) {first : Int}
    (hfirst : rule.unit.resetValue = some first) : rule.scope ≠ .epoch := by
  obtain ⟨hepoch, hyear, -⟩ := resetValue_ne_none_of_some hfirst
  rw [h.scope_eq hrule]
  revert hepoch hyear
  cases rule.unit <;> decide

/-- A coarser unit that has a rule covers the scope of a finer one. -/
theorem covers_scope (h : s.Usual) {coarse fine : Rule} (hcoarse : coarse ∈ s.rules.toList)
    (hfine : fine ∈ s.rules.toList) (hlt : coarse.unit < fine.unit) :
    Covers coarse.unit fine.scope := by
  have hweek := h.week coarse hcoarse
  have hweek' := h.week fine hfine
  have hepoch := coarse.unit_ne_epoch
  rw [h.scope_eq hfine]
  revert hlt hweek hweek' hepoch
  cases coarse.unit <;> cases fine.unit <;> decide

theorem value_eq_of_isFixed (h : s.Usual) {u : TimeUnit} (hfixed : s.rules.isFixed u = true)
    (hx : ∀ r ∈ s.rules.toList, r.unit = u → s.satisfies x r = .ok true)
    (hm : ∀ r ∈ s.rules.toList, r.unit = u → s.satisfies m r = .ok true) :
    value u u.defaultScope x.second = value u u.defaultScope m.second := by
  obtain ⟨r, hr, rfl, target, hreq⟩ := isFixed_iff.mp hfixed
  rw [← h.scope_eq hr, value_of_satisfied hreq (hx r hr rfl), value_of_satisfied hreq (hm r hr rfl)]

/-! ## Carries -/

/-- A later match that shows a lower number lies in a later period of the free parent, if all
coarser rules are satisfied. -/
theorem freeParent_lt (h : s.Usual) (hrule : rule ∈ s.rules.toList) {target : Int64}
    (hreq : rule.requirement = .fixed target)
    (hcoarser : ∀ r ∈ s.rules.toList, r.unit < rule.unit → s.satisfies x r = .ok true)
    (hmatch : s.Matches m) (hle : x.second ≤ m.second)
    (hpast : target.toInt < value rule.unit rule.scope x.second) :
    ordinal (s.freeParent rule.unit rule.scope) x.second <
      ordinal (s.freeParent rule.unit rule.scope) m.second := by
  obtain ⟨-, hparent, -, hfixed⟩ := h.freeParent_spec hrule hreq
  have hvalue := value_of_satisfied hreq (hmatch rule hrule)
  by_contra hnot
  -- Otherwise the match would agree with the date on all units down to the carried one.
  have hback : ordinal rule.unit m.second ≤ ordinal rule.unit x.second := by
    refine ordinal_le_of_values_le hparent (h.week rule hrule)
      (Nat.le_trans freeParent_le (Nat.le_of_lt (TimeUnit.legal_coarser rule.legal)))
      (Int.not_lt.mp hnot) ?_
    intro u hlow hhigh hweek
    by_cases heq : u = rule.unit
    · rw [heq, ← h.scope_eq hrule]
      omega
    · have hlt : u < rule.unit :=
        Nat.lt_of_le_of_ne hhigh fun hrank => heq (TimeUnit.rank_injective hrank)
      refine Int.le_of_eq (h.value_eq_of_isFixed (hfixed u hlow hlt hweek) ?_ ?_)
      · exact fun r hr _ => hmatch r hr
      · rintro r hr rfl
        exact hcoarser r hr hlt
  have heq := Int.le_antisymm hback (ordinal_mono rule.unit hle)
  have := value_congr (h.measured hrule) heq
  omega

/-- In the first period of the free parent that may hold a match, the unit is entered no later than
the match. -/
theorem scope_le (h : s.Usual) (hrule : rule ∈ s.rules.toList) {target : Int64}
    (hreq : rule.requirement = .fixed target)
    (hcoarser : ∀ r ∈ s.rules.toList, r.unit < rule.unit → s.satisfies x r = .ok true)
    (hmatch : s.Matches m) {b : Int}
    (hparent : ordinal (s.freeParent rule.unit rule.scope) b ≤
      ordinal (s.freeParent rule.unit rule.scope) m.second)
    (hvalues : ∀ u, s.freeParent rule.unit rule.scope < u → u ≠ .week →
      value u u.defaultScope b ≤ value u u.defaultScope x.second) :
    ordinal rule.scope b ≤ ordinal rule.scope m.second := by
  obtain ⟨-, hnoweek, -, hfixed⟩ := h.freeParent_spec hrule hreq
  refine ordinal_le_of_values_le hnoweek (h.scope_ne_week hrule) freeParent_le hparent ?_
  intro u hlow hhigh hweek
  have hlt : u < rule.unit := Nat.lt_of_le_of_lt hhigh (TimeUnit.legal_coarser rule.legal)
  refine Int.le_trans (hvalues u hlow hweek) (Int.le_of_eq ?_)
  refine h.value_eq_of_isFixed (hfixed u hlow hlt hweek) ?_ fun r hr _ => hmatch r hr
  rintro r hr rfl
  exact hcoarser r hr hlt

/-- Moving the free parent on never raises the values of the finer units. -/
theorem values_le_of_filterAll {parent : TimeUnit} (hparent : parent ≠ .epoch ∧ parent ≠ .week)
    {a b : DateTime} (ha : x.shift parent 1 = .ok a) (hb : (s.filterAll parent a).result = .ok b) :
    ∀ u, parent < u → u ≠ .week →
      value u u.defaultScope b.second ≤ value u u.defaultScope x.second := by
  intro u hlow hweek
  have hshift {t t' : DateTime} (ht : t.shift parent 1 = .ok t') :
      value u u.defaultScope t'.second ≤ value u u.defaultScope t.second := by
    rw [(shift_eq_ok.mp ht).2.2.1]
    exact value_moved_le hparent hweek hlow _ _
  refine filterAll_preserves_of_shift (P := fun t : DateTime =>
    value u u.defaultScope t.second ≤ value u u.defaultScope x.second) ?_ hb (hshift ha)
  intro c d hnext hc
  exact Int.le_trans (hshift hnext) hc

/-- Between the free parent and the unit there is nothing to reset. -/
theorem resetBetween_eq (h : s.Usual) (hrule : rule ∈ s.rules.toList) {target : Int64}
    (hreq : rule.requirement = .fixed target) (t : DateTime) :
    s.resetBetween t (s.freeParent rule.unit rule.scope) rule.unit = .ok t := by
  obtain ⟨-, -, -, hfixed⟩ := h.freeParent_spec hrule hreq
  have hnone : ∀ u ∈ (TimeUnit.between (s.freeParent rule.unit rule.scope) rule.unit).filter
      (fun u => !s.rules.isFixed u), u.resetValue = none := by
    intro u hu
    simp only [TimeUnit.between, List.mem_filter, Bool.and_eq_true, decide_eq_true_eq,
      Bool.not_eq_true'] at hu
    obtain ⟨⟨-, hlow, hhigh⟩, hfree⟩ := hu
    by_cases hweek : u = .week
    · rw [hweek]
      rfl
    · rw [hfixed u hlow hhigh hweek] at hfree
      cases hfree
  rw [resetBetween]
  revert hnone
  generalize (TimeUnit.between (s.freeParent rule.unit rule.scope) rule.unit).filter
    (fun u => !s.rules.isFixed u) = units
  intro hnone
  induction units with
  | nil => rfl
  | cons u units ih =>
      rw [List.foldlM_cons, resetDefault_of_none (hnone u List.mem_cons_self)]
      exact ih fun u hu => hnone u (List.mem_cons_of_mem _ hu)

/-- A carry does not pass over a match, if all coarser rules are satisfied. -/
theorem carry_le (h : s.Usual) (hd : s.Predicates Predicate.DependsOnValue)
    (hrule : rule ∈ s.rules.toList) {target : Int64} (hreq : rule.requirement = .fixed target)
    (hcoarser : ∀ r ∈ s.rules.toList, r.unit < rule.unit → s.satisfies x r = .ok true)
    (hmatch : s.Matches m) (hle : x.second ≤ m.second)
    (hpast : target.toInt < value rule.unit rule.scope x.second)
    (hcarry : (s.carry x rule.unit rule.scope target.toInt).result = .ok y) :
    y.second ≤ m.second := by
  have hlater := h.freeParent_lt hrule hreq hcoarser hmatch hle hpast
  have hvalue := value_of_satisfied hreq (hmatch rule hrule)
  obtain ⟨hparent, hscope, a, b, c, ha, hb, hc, -, -, -, hy⟩ := carry_civil h.subtracts hcarry
  rw [h.resetBetween_eq hrule hreq] at hc
  cases hc
  have hnext := ordinal_shift ha
  have hreached := filterAll_ordinal_le hd hmatch hb (by omega)
  have hnoweek := (h.freeParent_spec hrule hreq).2.1
  cases hfirst : rule.unit.resetValue with
  | none => exact absurd (unit_eq_week hreq hfirst) (h.week rule hrule)
  | some first =>
      rw [(enter_first_second h.subtracts hfirst hscope (h.measured hrule) hy).1]
      refine enter_first_le hfirst hscope hvalue ?_
      exact h.scope_le hrule hreq hcoarser hmatch hreached
        (values_le_of_filterAll ⟨hparent, hnoweek⟩ ha hb)

end Usual

/-! ## Where legs start -/

/-- The unit of a rule has its first value. -/
def AtFirst (rule : Rule) (a : Int) : Prop :=
  ∀ first, rule.unit.resetValue = some first → value rule.unit rule.scope a = first

/-- The rules that were visited are satisfied, or the units of the others have their first
values. -/
def Ready (s : Search) (visited rest : List Rule) (x : DateTime) : Prop :=
  (∀ rule ∈ visited, s.satisfies x rule = .ok true) ∨ ∀ rule ∈ rest, AtFirst rule x.second

/-- A leg starts on a date that is ready for its rule. -/
def Leg.Ready (s : Search) (leg : Leg DateTime) : Prop :=
  ∃ visited rest, s.rules.toList = visited ++ leg.rule :: rest ∧
    s.Ready visited (leg.rule :: rest) leg.start

namespace Usual

variable {s : Search} {x y m : DateTime} {rule : Rule}

/-- On the beginning of a coarser period a unit has its first value. -/
theorem atFirst_of_startOf (h : s.Usual) {coarse fine : Rule} (hcoarse : coarse ∈ s.rules.toList)
    (hfine : fine ∈ s.rules.toList) (hlt : coarse.unit < fine.unit) {a : Int}
    (hstart : startOf coarse.unit a = a) : AtFirst fine a := by
  intro first hfirst
  have hscope := (h.covers_scope hcoarse hfine hlt).startOf_eq hstart
  rw [value_eq_first_iff hfirst (h.scope_ne_epoch hfine hfirst), hscope]

theorem lt_of_split (h : s.Usual) {visited rest : List Rule}
    (hsplit : s.rules.toList = visited ++ rule :: rest) :
    rule ∈ s.rules.toList ∧ (∀ r ∈ visited, r.unit < rule.unit) ∧
      ∀ r ∈ rest, rule.unit < r.unit := by
  have hsorted := h.sorted
  rw [hsplit] at hsorted ⊢
  obtain ⟨-, hrest, hbefore⟩ := List.pairwise_append.mp hsorted
  exact ⟨by simp, fun r hr => hbefore r hr rule List.mem_cons_self,
    (List.pairwise_cons.mp hrest).1⟩

/-- Rules about coarser units are visited earlier. -/
theorem mem_of_lt (h : s.Usual) {visited rest : List Rule}
    (hsplit : s.rules.toList = visited ++ rule :: rest) {r : Rule} (hr : r ∈ s.rules.toList)
    (hlt : r.unit < rule.unit) : r ∈ visited := by
  obtain ⟨-, -, hafter⟩ := h.lt_of_split hsplit
  rw [hsplit] at hr
  rcases List.mem_append.mp hr with hr | hr
  · exact hr
  · rcases List.mem_cons.mp hr with rfl | hr
    · exact absurd hlt (Nat.lt_irrefl _)
    · exact absurd hlt (Nat.lt_asymm (hafter r hr))

/-- A visit leaves a date that is ready for the remaining rules. -/
theorem ready_visit (h : s.Usual) {visited rest : List Rule}
    (hsplit : s.rules.toList = visited ++ rule :: rest)
    (hready : s.Ready visited (rule :: rest) x) (hvisit : (s.visit x rule).result = .ok y) :
    s.Ready (visited ++ [rule]) rest y := by
  obtain ⟨hrule, -, hafter⟩ := h.lt_of_split hsplit
  rcases (visit_stays_or_starts h.subtracts hvisit).1 with ⟨rfl, hsat⟩ | hstart
  · rcases hready with hvisited | hfirst
    · left
      intro r hr
      rcases List.mem_append.mp hr with hr | hr
      · exact hvisited r hr
      · rw [List.mem_singleton.mp hr]
        exact hsat
    · exact Or.inr fun r hr => hfirst r (List.mem_cons_of_mem _ hr)
  · -- A visit that moves leaves all finer units at their first values.
    right
    intro r hr
    refine h.atFirst_of_startOf hrule ?_ (hafter r hr) hstart
    rw [hsplit]
    exact List.mem_append_right _ (List.mem_cons_of_mem _ hr)

/-- Every leg of a tour starts on a date that is ready for its rule. -/
theorem tour_ready (h : s.Usual) {visited rest : List Rule} {legs : List (Leg DateTime)}
    (htour : Tour s rest x legs y) (hsplit : s.rules.toList = visited ++ rest)
    (hready : s.Ready visited rest x) : ∀ leg ∈ legs, leg.Ready s := by
  induction htour generalizing visited with
  | nil x => simp
  | @cons rule rest x y z legs hvisit htour ih =>
      intro leg hleg
      rcases List.mem_cons.mp hleg with rfl | hleg
      · exact ⟨visited, rest, hsplit, hready⟩
      · exact ih (by rw [hsplit, List.append_assoc]; rfl) (h.ready_visit hsplit hready hvisit)
          leg hleg

theorem run_ready (h : s.Usual) {legs : List (Leg DateTime)} (hrun : Run s x legs y) :
    ∀ leg ∈ legs, leg.Ready s := by
  induction hrun with
  | settled htour hmatch => exact h.tour_ready htour (List.nil_append _).symm (Or.inl (by simp))
  | repaired htour hviolation hrun ih =>
      intro leg hleg
      rcases List.mem_append.mp hleg with hleg | hleg
      · exact h.tour_ready htour (List.nil_append _).symm (Or.inl (by simp)) leg hleg
      · exact ih leg hleg

/-- Where a date is ready for a rule whose number it is past, it satisfies all coarser rules. -/
theorem coarser_of_ready (h : s.Usual) {visited rest : List Rule}
    (hsplit : s.rules.toList = visited ++ rule :: rest)
    (hready : s.Ready visited (rule :: rest) x) {target : Int64}
    (hreq : rule.requirement = .fixed target) (hmatch : s.Matches m)
    (hpast : target.toInt < value rule.unit rule.scope x.second) :
    ∀ r ∈ s.rules.toList, r.unit < rule.unit → s.satisfies x r = .ok true := by
  obtain ⟨hrule, -, -⟩ := h.lt_of_split hsplit
  rcases hready with hvisited | hfirst
  · exact fun r hr hlt => hvisited r (h.mem_of_lt hsplit hr hlt)
  · -- From the first value nothing is carried, because the match shows a value, too.
    exfalso
    have hvalue := value_of_satisfied hreq (hmatch rule hrule)
    cases hreset : rule.unit.resetValue with
    | none => exact h.week rule hrule (unit_eq_week hreq hreset)
    | some first =>
        have hge := first_le_value hreset (h.scope_ne_epoch hrule hreset) m.second
        have hat := hfirst rule List.mem_cons_self first hreset
        omega

/-- A visit from a date that is ready does not pass over a match. -/
theorem visit_le (h : s.Usual) (hd : s.Predicates Predicate.DependsOnValue)
    (hmatch : s.Matches m) {visited rest : List Rule}
    (hsplit : s.rules.toList = visited ++ rule :: rest)
    (hready : s.Ready visited (rule :: rest) x) (hvisit : (s.visit x rule).result = .ok y)
    (hle : x.second ≤ m.second) : y.second ≤ m.second := by
  obtain ⟨hrule, -, -⟩ := h.lt_of_split hsplit
  by_cases hdetour : Leg.Detours s ⟨rule, x, y⟩
  · obtain ⟨target, v, hreq, hread, hpast, -⟩ := hdetour
    obtain ⟨-, rfl⟩ := read_eq_ok.mp hread
    simp only at hreq hpast
    have hcoarser := h.coarser_of_ready hsplit hready hreq hmatch hpast
    obtain ⟨-, ⟨heq, -⟩ | ⟨hlt, -⟩ | ⟨-, hcarry⟩⟩ := visit_fixed_civil h.subtracts hreq hvisit
    · omega
    · omega
    · exact h.carry_le hd hrule hreq hcoarser hmatch hle hpast hcarry
  · exact Search.visit_le h.subtracts hd hmatch hrule hdetour hvisit hle

/-- A run from a date on or before a match settles on or before the match. -/
theorem run_le (h : s.Usual) (hd : s.Predicates Predicate.DependsOnValue)
    (hmatch : s.Matches m) {legs : List (Leg DateTime)} (hrun : Run s x legs y)
    (hle : x.second ≤ m.second) : y.second ≤ m.second := by
  refine hrun.preserves (P := fun t : DateTime => t.second ≤ m.second) ?_ hle
  intro leg hleg hstart
  obtain ⟨visited, rest, hsplit, hready⟩ := h.run_ready hrun leg hleg
  exact h.visit_le hd hmatch hsplit hready (hrun.leg hleg).2 hstart

theorem not_slips (h : s.Usual) : ¬s.Slips := by
  rintro ⟨rule, hrule, -, hscope, -⟩
  exact h.scope_ne_week hrule hscope

end Usual

end Search

end Cadence

import Cadence.Proofs.Search.Cycle

/-!
# How many passes a search takes

A search within the usual scopes that requires numbers alone finds a match whenever there is one.
No visit fails, because none leads past the match (`Usual.exists_visit`).  A pass that does not end
on a match either reaches a later cycle of months or leaves a rule violated that is about a coarser
unit than the first one violated before (`Usual.unit_lt_or_cycle_lt`).  With eight cycles and seven
units this takes fewer passes than are made.
-/

namespace Cadence

open Civil

namespace Civil

/-- The range ends with the end of a year, and so of any unit but weeks. -/
theorem le_lastSecond {unit : TimeUnit} (hunit : unit ≠ .epoch ∧ unit ≠ .week) {a : Int}
    (h : ordinal unit a ≤ ordinal unit lastSecond) : a ≤ lastSecond := by
  have hend : begins unit (ordinal unit lastSecond + 1) = lastSecond + 1 := by
    obtain ⟨hepoch, hweek⟩ := hunit
    cases unit with
    | epoch => exact absurd rfl hepoch
    | week => exact absurd rfl hweek
    | year | month | day | hour | minute | second => decide +kernel
  have hlt := (ordinal_lt_iff hunit.1 (k := ordinal unit lastSecond + 1)).mp
    (show ordinal unit a < ordinal unit lastSecond + 1 by omega)
  omega

/-- A short shift forward succeeds if it does not lead past the period of another date. -/
theorem exists_shift_le (t m : DateTime) {unit : TimeUnit} (hunit : unit ≠ .epoch ∧ unit ≠ .week)
    {k : Int} (hk : 0 ≤ k ∧ k ≤ 60) (h : ordinal unit t.second + k ≤ ordinal unit m.second) :
    ∃ t', t.shift unit k = .ok t' := by
  have hlimit : withinShiftLimit unit k = true := by
    simp only [withinShiftLimit, Bool.and_eq_true, decide_eq_true_eq]
    obtain ⟨hepoch, -⟩ := hunit
    cases unit <;> simp only [shiftLimit, ne_eq, not_true_eq_false] at hepoch ⊢ <;> omega
  have hreached := ordinal_moved hunit.1 t.second k
  have hlast := ordinal_mono unit m.inRange.2
  obtain ⟨t', ht, -⟩ := exists_shift t hunit.1 hlimit
    ⟨Int.le_trans t.inRange.1 (le_moved hunit.1 _ hk.1), le_lastSecond hunit (by omega)⟩
  exact ⟨t', ht⟩

end Civil

namespace Search

variable {s : Search} {x y m : DateTime} {rule : Rule}

/-- Without predicates there is nothing to try. -/
theorem AllFixed.filterAll_eq (hf : s.AllFixed) (unit : TimeUnit) (t : DateTime) :
    (s.filterAll unit t).result = .ok t := by
  have hrules : ∀ rule ∈ s.rules.of unit, ∃ target, rule.requirement = .fixed target :=
    fun rule hrule => hf.target (RuleSet.mem_of.mp hrule).1
  rw [filterAll, Logged.result_foldlM]
  revert hrules
  generalize s.rules.of unit = rules
  intro hrules
  induction rules with
  | nil => rfl
  | cons rule rules ih =>
      obtain ⟨target, hreq⟩ := hrules rule List.mem_cons_self
      rw [List.foldlM_cons]
      simp only [hreq]
      exact ih fun r hr => hrules r (List.mem_cons_of_mem _ hr)

namespace Usual

/-- A rule with a number is about a unit that has a first value, and the number is not below it
if some date shows it. -/
theorem first_le_target (h : s.Usual) (hrule : rule ∈ s.rules.toList) {target : Int64}
    (hreq : rule.requirement = .fixed target) (hmatch : s.Matches m) :
    ∃ first, rule.unit.resetValue = some first ∧ first ≤ target.toInt ∧
      target.toInt ≤ first + 59 := by
  cases hfirst : rule.unit.resetValue with
  | none => exact absurd (unit_eq_week hreq hfirst) (h.week rule hrule)
  | some first =>
      have hvalue := value_of_satisfied hreq (hmatch rule hrule)
      have hlow := first_le_value hfirst (h.scope_ne_epoch hrule hfirst) m.second
      have hhigh := value_defaultScope_le hfirst m.second
      rw [← h.scope_eq hrule] at hhigh
      exact ⟨first, rfl, by omega, by omega⟩

/-! ## Passes succeed -/

/-- A carry succeeds if there is a match to carry to. -/
theorem exists_carry (h : s.Usual) (hf : s.AllFixed) (hrule : rule ∈ s.rules.toList)
    {target : Int64} (hreq : rule.requirement = .fixed target)
    (hcoarser : ∀ r ∈ s.rules.toList, r.unit < rule.unit → s.satisfies x r = .ok true)
    (hmatch : s.Matches m) (hle : x.second ≤ m.second)
    (hpast : target.toInt < value rule.unit rule.scope x.second) :
    ∃ y, (s.carry x rule.unit rule.scope target.toInt).result = .ok y := by
  obtain ⟨first, hfirst, hlow, hhigh⟩ := h.first_le_target hrule hreq hmatch
  obtain ⟨hparent, hnoweek, -, -⟩ := h.freeParent_spec hrule hreq
  have hscope := h.scope_ne_epoch hrule hfirst
  have hlater := h.freeParent_lt hrule hreq hcoarser hmatch hle hpast
  obtain ⟨a, ha⟩ := exists_shift_le x m ⟨hparent, hnoweek⟩ (k := 1) (by decide) hlater
  have hnext := ordinal_shift ha
  have hb := hf.filterAll_eq (s.freeParent rule.unit rule.scope) a
  -- The unit is entered on or before the match, so the last shift stays in range.
  have hbefore := h.scope_le hrule hreq hcoarser hmatch (b := a.second) (by omega)
    (values_le_of_filterAll ⟨hparent, hnoweek⟩ ha hb)
  have hentry := enter_first_le hfirst hscope
    (value_of_satisfied hreq (hmatch rule hrule)) hbefore
  rw [← le_ordinal_iff rule.unit_ne_epoch] at hentry
  obtain ⟨y, hy⟩ := exists_shift_le (a.floor rule.scope) m
    ⟨rule.unit_ne_epoch, h.week rule hrule⟩ (k := target.toInt - first) (by omega) hentry
  refine ⟨y, carry_eq_ok.mpr ⟨hparent, a, a, a, ha, hb, h.resetBetween_eq hrule hreq a, ?_⟩⟩
  rw [enter_first_eq h.subtracts hfirst hscope (h.measured hrule)]
  exact hy

/-- A visit from a date that is ready succeeds if there is a match at or after the date. -/
theorem exists_visit (h : s.Usual) (hf : s.AllFixed) (hmatch : s.Matches m)
    {visited rest : List Rule} (hsplit : s.rules.toList = visited ++ rule :: rest)
    (hready : s.Ready visited (rule :: rest) x) (hle : x.second ≤ m.second) :
    ∃ y, (s.visit x rule).result = .ok y := by
  obtain ⟨hrule, -, -⟩ := h.lt_of_split hsplit
  obtain ⟨target, hreq⟩ := hf.target hrule
  obtain ⟨first, hfirst, hlow, hhigh⟩ := h.first_le_target hrule hreq hmatch
  have hepoch := rule.unit_ne_epoch
  have hvalue := value_of_satisfied hreq (hmatch rule hrule)
  have hread : Calendar.read x rule.unit rule.scope =
      .ok (value rule.unit rule.scope x.second) := read_eq_ok.mpr ⟨h.measured hrule, rfl⟩
  rcases Int.lt_trichotomy (value rule.unit rule.scope x.second) target.toInt with hlt | heq | hgt
  · -- A raise does not lead past the match, so its shift stays in range.
    have hge := first_le_value hfirst (h.scope_ne_epoch hrule hfirst) x.second
    obtain ⟨z, hz⟩ := exists_shift_le x m ⟨hepoch, h.week rule hrule⟩
      (k := target.toInt - value rule.unit rule.scope x.second) (by omega)
      (raise_ordinal_le hle hvalue)
    refine ⟨z.floor rule.unit, (visit_fixed hreq).mpr ⟨_, hread, Or.inr (Or.inl ⟨hlt, z, ?_, ?_⟩)⟩⟩
    · rw [shift_civil, h.subtracts]
      exact hz
    · exact resetBelow_self h.subtracts hepoch z
  · exact ⟨x, (visit_fixed hreq).mpr ⟨_, hread, Or.inl ⟨heq, rfl⟩⟩⟩
  · have hcoarser := h.coarser_of_ready hsplit hready hreq hmatch hgt
    obtain ⟨y, hy⟩ := h.exists_carry hf hrule hreq hcoarser hmatch hle hgt
    exact ⟨y, (visit_fixed hreq).mpr ⟨_, hread, Or.inr (Or.inr ⟨hgt, hy⟩)⟩⟩

theorem le_visit (h : s.Usual) (hmatch : s.Matches m) (hrule : rule ∈ s.rules.toList)
    (hvisit : (s.visit x rule).result = .ok y) : x.second ≤ y.second := by
  refine visit_forward h.subtracts h.not_slips hrule ?_ hvisit
  intro target first hreq hfirst hscope
  rw [← value_of_satisfied hreq (hmatch rule hrule)]
  exact first_le_value hfirst hscope _

theorem le_tour (h : s.Usual) (hmatch : s.Matches m) {rules : List Rule}
    (hrules : ∀ rule ∈ rules, rule ∈ s.rules.toList) {legs : List (Leg DateTime)}
    (htour : Tour s rules x legs y) : x.second ≤ y.second := by
  refine htour.preserves (P := fun t : DateTime => x.second ≤ t.second) ?_ (Int.le_refl _)
  intro leg hleg hstart
  obtain ⟨hrule, hvisit⟩ := htour.leg hleg
  exact Int.le_trans hstart (h.le_visit hmatch (hrules _ hrule) hvisit)

/-- From a date that is ready a tour succeeds, and ends on or before the match. -/
theorem exists_tour (h : s.Usual) (hf : s.AllFixed) (hmatch : s.Matches m)
    {visited rest : List Rule} (hsplit : s.rules.toList = visited ++ rest)
    (hready : s.Ready visited rest x) (hle : x.second ≤ m.second) :
    ∃ legs y, Tour s rest x legs y ∧ y.second ≤ m.second := by
  induction rest generalizing x visited with
  | nil => exact ⟨[], x, .nil x, hle⟩
  | cons rule rest ih =>
      obtain ⟨z, hvisit⟩ := h.exists_visit hf hmatch hsplit hready hle
      obtain ⟨legs, y, htour, hy⟩ := ih (by rw [hsplit, List.append_assoc]; rfl)
        (h.ready_visit hsplit hready hvisit)
        (h.visit_le hf.predicates hmatch hsplit hready hvisit hle)
      exact ⟨_, y, .cons hvisit htour, hy⟩

/-! ## What a pass repairs -/

/-- Before days only months can require a number. -/
theorem eq_month_of_lt_day (h : s.Usual) (hrule : rule ∈ s.rules.toList) {target : Int64}
    (hreq : rule.requirement = .fixed target) (hlt : rule.unit < .day) : rule.unit = .month := by
  have hepoch := rule.unit_ne_epoch
  have hweek := h.week rule hrule
  have hyear := unit_ne_year hreq
  revert hlt hepoch hyear hweek
  cases rule.unit <;> decide

/-- A unit that is raised to a number shows it, in the same period of the scope, unless the month
has too few days. -/
theorem reach (h : s.Usual) (hrule : rule ∈ s.rules.toList) {target : Int64}
    (hreq : rule.requirement = .fixed target) (hmatch : s.Matches m) {a b : Int}
    (hb : ordinal rule.unit b = ordinal rule.unit a +
      (target.toInt - value rule.unit rule.scope a))
    (hday : rule.unit = .day → ordinal .month b = ordinal .month a) :
    value rule.unit rule.scope b = target.toInt ∧
      ordinal rule.scope b = ordinal rule.scope a := by
  obtain ⟨first, hfirst, -, -⟩ := h.first_le_target hrule hreq hmatch
  have hvalue := value_of_satisfied hreq (hmatch rule hrule)
  have hscope := h.scope_eq hrule
  cases hper : perScope rule.unit with
  | none =>
      have hunit := eq_day_of_perScope_none hfirst hper
      rw [hunit] at hscope hb ⊢
      rw [hscope] at hb ⊢
      have hmonth := hday hunit
      have hbase : base .day .month b = base .day .month a :=
        base_eq_of_ordinal_eq (by decide) hmonth
      refine ⟨?_, hmonth⟩
      show ordinal .day b - base .day .month b = _
      change ordinal .day b = ordinal .day a +
        (target.toInt - (ordinal .day a - base .day .month a)) at hb
      omega
  | some n =>
      rw [hscope] at hb hvalue ⊢
      rw [← hvalue] at hb ⊢
      exact (reach_perScope hper hfirst hb).symm

/-- A visit of a rule whose number is not past leaves it satisfied and stays in the period of the
scope, unless the month has too few days. -/
theorem visit_not_past (h : s.Usual) (hrule : rule ∈ s.rules.toList) {target : Int64}
    (hreq : rule.requirement = .fixed target) (hmatch : s.Matches m)
    (hvisit : (s.visit x rule).result = .ok y)
    (hle : value rule.unit rule.scope x.second ≤ target.toInt)
    (hday : rule.unit = .day → ordinal .month y.second = ordinal .month x.second) :
    s.satisfies y rule = .ok true ∧ ordinal rule.scope y.second = ordinal rule.scope x.second := by
  have hsat {t : DateTime} (ht : value rule.unit rule.scope t.second = target.toInt) :
      s.satisfies t rule = .ok true := by
    refine satisfies_civil.mpr ⟨h.measured hrule, ?_⟩
    rw [hreq]
    exact ht
  obtain ⟨-, ⟨heq, rfl⟩ | ⟨-, hsecond, -⟩ | ⟨hpast, -⟩⟩ := visit_fixed_civil h.subtracts hreq hvisit
  · exact ⟨hsat heq, rfl⟩
  · have hordinal : ordinal rule.unit y.second = ordinal rule.unit x.second +
        (target.toInt - value rule.unit rule.scope x.second) := by
      rw [hsecond, ordinal_begins rule.unit_ne_epoch]
    obtain ⟨hvalue, hkeep⟩ := h.reach hrule hreq hmatch hordinal hday
    exact ⟨hsat hvalue, hkeep⟩
  · omega

/-- A carry counts from the beginning of a period of the scope that lies in a later period of the
free parent. -/
theorem carry_from (h : s.Usual) (hrule : rule ∈ s.rules.toList) {target : Int64}
    (hreq : rule.requirement = .fixed target) (hmatch : s.Matches m)
    (hcarry : (s.carry x rule.unit rule.scope target.toInt).result = .ok y) :
    ∃ a, ordinal rule.unit y.second = ordinal rule.unit a +
        (target.toInt - value rule.unit rule.scope a) ∧ a ≤ y.second ∧
      ordinal (s.freeParent rule.unit rule.scope) x.second <
        ordinal (s.freeParent rule.unit rule.scope) a := by
  obtain ⟨first, hfirst, hlow, -⟩ := h.first_le_target hrule hreq hmatch
  have hm := h.measured hrule
  obtain ⟨hparent, hscope, a, b, c, -, -, -, hkeep, hlater, -, hy⟩ := carry_civil h.subtracts hcarry
  have hsecond := (enter_first_second h.subtracts hfirst hscope hm hy).1
  have hvalue : value rule.unit rule.scope (startOf rule.scope c.second) = first := by
    rw [value_eq_first_iff hfirst hscope, startOf_startOf]
  have hcovers : Covers (s.freeParent rule.unit rule.scope) rule.scope :=
    Covers.of_le hparent freeParent_le fun hweek => absurd hweek (h.scope_ne_week hrule)
  have hperiod := hcovers.ordinal_eq (ordinal_startOf rule.scope c.second)
  refine ⟨startOf rule.scope c.second, ?_, ?_, ?_⟩
  · rw [hsecond, ordinal_begins rule.unit_ne_epoch, hvalue]
  · exact startOf_le_enter h.subtracts hfirst hscope hm hlow hy
  · rw [hperiod, hkeep]
    exact hlater

/-- A visit of the first rule that is violated leaves it satisfied, as long as the cycle stays. -/
theorem satisfies_of_visit (h : s.Usual) (hrule : rule ∈ s.rules.toList) {target : Int64}
    (hreq : rule.requirement = .fixed target) (hmatch : s.Matches m)
    (hcoarser : ∀ r ∈ s.rules.toList, r.unit < rule.unit → s.satisfies x r = .ok true)
    (hvisit : (s.visit x rule).result = .ok y) (hcycle : s.cycle y.second = s.cycle x.second) :
    s.satisfies y rule = .ok true := by
  have hmonth : rule.unit = .day → ordinal .month y.second = ordinal .month x.second := by
    intro hunit
    refine month_eq_of_cycle_eq ?_ (h.le_visit hmatch hrule hvisit) hcycle
    intro r hr hr'
    exact hcoarser r hr (by rw [hr', hunit]; decide)
  by_cases hpast : target.toInt < value rule.unit rule.scope x.second
  · obtain ⟨hm, ⟨heq, -⟩ | ⟨hlt, -⟩ | ⟨-, hcarry⟩⟩ := visit_fixed_civil h.subtracts hreq hvisit
    · omega
    · omega
    · obtain ⟨a, hordinal, hle, hlater⟩ := h.carry_from hrule hreq hmatch hcarry
      have hnotday : rule.unit ≠ .day := by
        -- A carry of days ends in a later month, and so in a later cycle.
        intro hunit
        have hscope := h.scope_eq hrule
        rw [hunit] at hscope
        have hle' : s.freeParent rule.unit rule.scope ≤ TimeUnit.month :=
          Nat.le_trans freeParent_le (by rw [hscope]; decide)
        obtain ⟨hepoch, -, -, -⟩ := h.freeParent_spec hrule hreq
        have hlt : ordinal .month x.second < ordinal .month a :=
          (Covers.of_le hepoch hle' nofun).ordinal_lt hlater
        have hmono := ordinal_mono .month hle
        have := hmonth hunit
        omega
      refine satisfies_civil.mpr ⟨hm, ?_⟩
      rw [hreq]
      exact (h.reach hrule hreq hmatch hordinal fun hunit => absurd hunit hnotday).1
  · exact (h.visit_not_past hrule hreq hmatch hvisit (Int.not_lt.mp hpast) hmonth).1

/-- A rule about a unit that is coarser than another one stays satisfied while the period of the
other one's scope stays. -/
theorem satisfies_of_scope_eq (h : s.Usual) (hf : s.AllFixed) {r : Rule}
    (hr : r ∈ s.rules.toList) (hrule : rule ∈ s.rules.toList) (hlt : r.unit < rule.unit)
    (hkeep : ordinal rule.scope y.second = ordinal rule.scope x.second)
    (hsat : s.satisfies x r = .ok true) : s.satisfies y r = .ok true := by
  have hordinal : ordinal r.unit x.second = ordinal r.unit y.second :=
    (h.covers_scope hr hrule hlt).ordinal_eq hkeep.symm
  exact satisfies_of_value_eq hf.predicates hr (value_congr (h.measured hr) hordinal) hsat

/-- A tour from first values satisfies the rules that it visits and keeps satisfied what is about
coarser units, as long as the cycle stays. -/
theorem satisfies_of_tour (h : s.Usual) (hf : s.AllFixed) (hmatch : s.Matches m)
    {before done rest : List Rule} (hsplit : s.rules.toList = before ++ (done ++ rest))
    {legs : List (Leg DateTime)} (htour : Tour s rest x legs y)
    (hfirst : ∀ rule ∈ rest, AtFirst rule x.second)
    (hdone : ∀ rule ∈ done, s.satisfies x rule = .ok true)
    (hmonth : ∀ rule ∈ rest, rule.unit = .day → ∀ r ∈ s.rules.toList, r.unit = .month → r ∈ done)
    (hcycle : s.cycle y.second = s.cycle x.second) :
    ∀ rule ∈ done ++ rest, s.satisfies y rule = .ok true := by
  induction htour generalizing done with
  | nil x => simpa using hdone
  | @cons rule rest x y z legs hvisit htour ih =>
      have hsplit' : s.rules.toList = (before ++ done) ++ rule :: rest := by
        rw [hsplit, List.append_assoc]
      obtain ⟨hrule, hbefore, hafter⟩ := h.lt_of_split hsplit'
      have hrest : ∀ r ∈ rest, r ∈ s.rules.toList := by
        intro r hr
        rw [hsplit']
        exact List.mem_append_right _ (List.mem_cons_of_mem _ hr)
      have hdone' : ∀ r ∈ done, r ∈ s.rules.toList ∧ r.unit < rule.unit := by
        intro r hr
        have hmem := List.mem_append_right before hr
        exact ⟨by rw [hsplit']; exact List.mem_append_left _ hmem, hbefore r hmem⟩
      obtain ⟨target, hreq⟩ := hf.target hrule
      -- The cycle stays at every visit, because neither this one nor the others go back.
      have hforward := h.le_visit hmatch hrule hvisit
      have hlow := cycle_mono (s := s) hforward
      have hhigh := cycle_mono (s := s) (h.le_tour hmatch hrest htour)
      have hvalue : value rule.unit rule.scope x.second ≤ target.toInt := by
        obtain ⟨first, hreset, hle, -⟩ := h.first_le_target hrule hreq hmatch
        rw [hfirst rule List.mem_cons_self first hreset]
        exact hle
      obtain ⟨hsat, hkeep⟩ := h.visit_not_past hrule hreq hmatch hvisit hvalue (by
        intro hunit
        refine month_eq_of_cycle_eq (s := s) ?_ hforward (by omega)
        intro r hr hr'
        exact hdone r (hmonth rule List.mem_cons_self hunit r hr hr'))
      have hready := h.ready_visit hsplit' (Or.inr hfirst) hvisit
      have hnext : s.rules.toList = before ++ ((done ++ [rule]) ++ rest) := by
        rw [hsplit]
        simp
      have hall := ih hnext ?_ ?_ ?_ (by omega)
      · intro r hr
        exact hall r (by simpa using hr)
      · rcases (visit_stays_or_starts h.subtracts hvisit).1 with ⟨rfl, -⟩ | hstart
        · exact fun r hr => hfirst r (List.mem_cons_of_mem _ hr)
        · exact fun r hr => h.atFirst_of_startOf hrule (hrest r hr) (hafter r hr) hstart
      · intro r hr
        rcases List.mem_append.mp hr with hr | hr
        · obtain ⟨hmem, hlt⟩ := hdone' r hr
          exact h.satisfies_of_scope_eq hf hmem hrule hlt hkeep (hdone r hr)
        · rw [List.mem_singleton.mp hr]
          exact hsat
      · intro r hr hunit r' hr' hunit'
        exact List.mem_append_left _ (hmonth r (List.mem_cons_of_mem _ hr) hunit r' hr' hunit')

/-- After a pass the first violated rule is about a coarser unit than before, or the cycle is a
later one. -/
theorem unit_lt_or_cycle_lt (h : s.Usual) (hf : s.AllFixed) (hmatch : s.Matches m)
    {legs : List (Leg DateTime)} (htour : Tour s s.rules.toList x legs y) {unit unit' : TimeUnit}
    (hx : s.violation x = .ok (some unit)) (hy : s.violation y = .ok (some unit')) :
    unit' < unit ∨ s.cycle x.second < s.cycle y.second := by
  by_cases hlater : s.cycle x.second < s.cycle y.second
  · exact Or.inr hlater
  · left
    obtain ⟨before, rule, rest, hsplit, rfl, hsat, hviolated⟩ := violationIn_eq_some hx
    obtain ⟨hrule, hbefore, hafter⟩ := h.lt_of_split hsplit
    obtain ⟨target, hreq⟩ := hf.target hrule
    -- The tour stays until it visits the rule, and leaves all finer units at their first values.
    rw [hsplit] at htour
    obtain ⟨x', _, more, hstay, htour⟩ := htour.of_append
    rw [hstay.eq_of_satisfied hsat] at htour
    cases htour with
    | @cons _ _ _ z _ _ hvisit htour =>
        have hrest : ∀ r ∈ rest, r ∈ s.rules.toList := by
          intro r hr
          rw [hsplit]
          exact List.mem_append_right _ (List.mem_cons_of_mem _ hr)
        have hlow := cycle_mono (s := s) (h.le_visit hmatch hrule hvisit)
        have hhigh := cycle_mono (s := s) (h.le_tour hmatch hrest htour)
        have hrepaired := h.satisfies_of_visit hrule hreq hmatch
          (fun r hr hlt => hsat r (h.mem_of_lt hsplit hr hlt)) hvisit (by omega)
        have hstart := starts_of_violated h.subtracts hviolated hvisit
        have hnext : s.rules.toList = before ++ ([rule] ++ rest) := hsplit
        have hall := h.satisfies_of_tour hf hmatch hnext htour
          (fun r hr => h.atFirst_of_startOf hrule (hrest r hr) (hafter r hr) hstart)
          (by simpa using hrepaired) ?_ (by omega)
        · obtain ⟨_, r, _, hsplit', rfl, -, hr⟩ := violationIn_eq_some hy
          have hmem : r ∈ s.rules.toList := by
            rw [hsplit']
            simp
          rw [hsplit] at hmem
          rcases List.mem_append.mp hmem with hmem | hmem
          · exact hbefore r hmem
          · rw [hall r (by simpa using hmem)] at hr
            cases hr
        · -- Before days only months can require a number, so the violated rule is about months.
          intro r hr hunit r' hr' hunit'
          have hmonth := h.eq_month_of_lt_day hrule hreq (hunit ▸ hafter r hr)
          exact List.mem_singleton.mpr (h.eq_of_unit_eq hr' hrule (hunit'.trans hmonth.symm))

/-! ## Searches succeed -/

theorem exists_violation (h : s.Usual) (hf : s.AllFixed) (t : DateTime) :
    ∃ violation, s.violation t = .ok violation := by
  have hrules : ∀ rule ∈ s.rules.toList, ∃ satisfied, s.satisfies t rule = .ok satisfied := by
    intro rule hrule
    obtain ⟨target, hreq⟩ := hf.target hrule
    refine ⟨decide (value rule.unit rule.scope t.second = target.toInt), ?_⟩
    simp only [satisfies, read_eq_ok.mpr ⟨h.measured hrule, rfl⟩, hreq]
    rfl
  rw [violation]
  revert hrules
  generalize s.rules.toList = rules
  intro hrules
  induction rules with
  | nil => exact ⟨none, rfl⟩
  | cons rule rest ih =>
      obtain ⟨satisfied, hsat⟩ := hrules rule List.mem_cons_self
      obtain ⟨violation, hrest⟩ := ih fun r hr => hrules r (List.mem_cons_of_mem _ hr)
      cases satisfied with
      | true => exact ⟨violation, by simp [violationIn, hsat, bind, Except.bind, hrest]⟩
      | false =>
          exact ⟨some rule.unit, by simp [violationIn, hsat, bind, Except.bind, pure, Except.pure]⟩

theorem rank_pos_of_violation {unit : TimeUnit} (hx : s.violation x = .ok (some unit)) :
    0 < unit.rank := by
  obtain ⟨_, rule, _, -, rfl, -, -⟩ := violationIn_eq_some hx
  have hepoch := rule.unit_ne_epoch
  revert hepoch
  cases rule.unit <;> decide

/-- What may be left to do before a match: the cycles until then, with a pass for every unit in
each, and the units down to the first one violated. -/
def potential (s : Search) (m x : DateTime) (unit : TimeUnit) : Int :=
  7 * (s.cycle m.second - s.cycle x.second) + unit.rank

/-- A pass that does not end on a match lowers the potential. -/
theorem potential_lt (h : s.Usual) (hf : s.AllFixed) (hmatch : s.Matches m)
    {legs : List (Leg DateTime)} (htour : Tour s s.rules.toList x legs y) {unit unit' : TimeUnit}
    (hx : s.violation x = .ok (some unit)) (hy : s.violation y = .ok (some unit')) :
    potential s m y unit' < potential s m x unit := by
  have hforward := cycle_mono (s := s) (h.le_tour hmatch (fun _ hr => hr) htour)
  have hlow := rank_pos_of_violation hx
  have hhigh : unit'.rank ≤ 7 := by
    cases unit' <;> decide
  unfold potential
  rcases h.unit_lt_or_cycle_lt hf hmatch htour hx hy with hlt | hlt
  · rw [TimeUnit.lt_def] at hlt
    omega
  · -- A later cycle outweighs any difference between two units.
    omega

/-- A search that may make a pass for every step of the potential settles. -/
theorem exists_settle (h : s.Usual) (hf : s.AllFixed) (hmatch : s.Matches m) (reference : DateTime)
    (failing : TimeUnit) {remaining : Nat} (hle : x.second ≤ m.second)
    (hstart : (s.Matches x ∧ 0 < remaining) ∨
      ∃ unit, s.violation x = .ok (some unit) ∧ potential s m x unit ≤ remaining) :
    ∃ d, (s.settle reference remaining failing x).result = .ok d := by
  induction remaining generalizing x failing with
  | zero =>
      obtain ⟨-, hpos⟩ | ⟨unit, hx, hpotential⟩ := hstart
      · cases hpos
      · -- A violated date before the match still has a potential.
        have hcycle := cycle_mono (s := s) hle
        have hrank := rank_pos_of_violation hx
        unfold potential at hpotential
        omega
  | succ remaining ih =>
      obtain ⟨legs, y, htour, hy⟩ := h.exists_tour hf hmatch (List.nil_append _).symm
        (Or.inl (by simp)) hle
      obtain ⟨violation, hviolation⟩ := h.exists_violation hf y
      simp only [settle, Logged.result_bind_eq_ok_iff, Logged.result_lift]
      cases violation with
      | none => exact ⟨_, y, pass_eq_ok.mpr ⟨legs, htour⟩, none, hviolation, rfl⟩
      | some unit' =>
          have hnext : ∃ unit, s.violation y = .ok (some unit) ∧
              potential s m y unit ≤ remaining := by
            obtain ⟨hx, -⟩ | ⟨unit, hx, hpotential⟩ := hstart
            · rw [htour.eq_of_satisfied hx, violation_eq_none_iff.mpr hx] at hviolation
              cases hviolation
            · have hlt := h.potential_lt hf hmatch htour hx hviolation
              exact ⟨unit', hviolation, by omega⟩
          obtain ⟨d, hd⟩ := ih unit' hy (Or.inr hnext)
          exact ⟨d, y, pass_eq_ok.mpr ⟨legs, htour⟩, some unit', hviolation, hd⟩

/-- The passes that are made suffice to find a match within eight cycles. -/
theorem exists_next (h : s.Usual) (hf : s.AllFixed) (hmatch : s.Matches m) {reference : DateTime}
    (hle : reference.second ≤ m.second) : ∃ d, (s.next reference).result = .ok d := by
  obtain ⟨n, hn, hbefore, hnear⟩ := h.exists_near_match (x := reference.truncate) hf hmatch hle
  obtain ⟨violation, hviolation⟩ := h.exists_violation hf reference.truncate
  have hstart : (s.Matches reference.truncate ∧ 0 < maxPasses) ∨
      ∃ unit, s.violation reference.truncate = .ok (some unit) ∧
        potential s n reference.truncate unit ≤ maxPasses := by
    cases violation with
    | none => exact Or.inl ⟨violation_eq_none_iff.mp hviolation, by decide⟩
    | some unit =>
        refine Or.inr ⟨unit, hviolation, ?_⟩
        have hhigh : unit.rank ≤ 7 := by
          cases unit <;> decide
        simp only [potential, maxPasses]
        omega
  obtain ⟨d, hd⟩ := h.exists_settle hf hn reference .year hbefore hstart
  refine ⟨d, ?_⟩
  simp only [next, Logged.result_tell_bind, Logged.result_bind_eq_ok_iff, Logged.result_lift]
  exact ⟨reference.truncate, rfl, hd⟩

end Usual

end Search

namespace Frequency

variable {f : Frequency}

theorem search_usual
    (h : ∀ rule ∈ f.rules.toList, rule.hasDefaultScope = true ∧ rule.unit ≠ .week) :
    f.search.Usual :=
  ⟨f.search_subtracts, fun rule hrule => (h rule hrule).1, fun rule hrule => (h rule hrule).2⟩

/-- Within the usual scopes and without weeks, an answer is the earliest match at or after the
reference, and where numbers alone are required there is an answer whenever there is a match. -/
theorem next_exact (f : Frequency)
    (h : ∀ rule ∈ f.rules.toList, rule.hasDefaultScope = true ∧ rule.unit ≠ .week)
    (hd : f.search.Predicates Predicate.DependsOnValue) :
    (∀ r d : DateTime, f.next r = .ok d → f.isMatch d = .ok true ∧ ¬d < r ∧
      ∀ m : DateTime, m.nano = 0 → ¬m < r → m < d → f.isMatch m ≠ .ok true) ∧
    ((∀ rule ∈ f.rules.toList, rule.requirement.fixed?.isSome = true) →
      ∀ r m : DateTime, ¬m < r → f.isMatch m = .ok true → ∃ d, f.next r = .ok d) := by
  have husual := search_usual h
  constructor
  · intro r d hnext
    obtain ⟨hmatch, hle⟩ := isMatch_next_of_not_slips
      (fun rule hrule name hreq p hp => (hd rule hrule name hreq p hp).ignoresFractions)
      husual.not_slips hnext
    refine ⟨hmatch, hle, ?_⟩
    intro m hm hstart hlt hmatch'
    obtain ⟨x, legs, e, htruncate, hrun, hanswer⟩ := next_eq_ok hnext
    cases htruncate
    obtain ⟨hbefore, hafter⟩ := skipped_of_next hrun hanswer hm hstart hlt
    have hnano := hrun.nano_eq f.search_subtracts
    rw [Search.lt_iff_second_lt hm hnano] at hafter
    rw [Search.lt_iff_second_lt hm rfl] at hbefore
    have := husual.run_le hd (isMatch_iff.mp hmatch') hrun (by omega)
    omega
  · intro hf r m hle hmatch
    refine husual.exists_next hf (isMatch_iff.mp hmatch) ?_
    rw [DateTime.lt_def] at hle
    omega

/-- February 29. -/
def leapDay : Frequency :=
  (do
    let months ← (empty .empty).on .month (.fixed 2) none
    months.on .day (.fixed 29) none : Except Error Frequency).toOption.get rfl

/-- The day after which no year is a leap year until 1904. -/
def march1896 : DateTime := (DateTime.atDate? ⟨1896, 3, 1⟩ 0 0).get rfl

def february1904 : DateTime := (DateTime.atDate? ⟨1904, 2, 29⟩ 0 0).get rfl

/-- The search for February 29 finds its way across the year 1900. -/
theorem next_leapDay_exact :
    (∀ rule ∈ leapDay.rules.toList, rule.hasDefaultScope = true ∧ rule.unit ≠ .week) ∧
      leapDay.search.Predicates Predicate.DependsOnValue ∧
      ∃ d, leapDay.next march1896 = .ok d ∧ leapDay.isMatch d = .ok true ∧ ¬d < march1896 ∧
        ∀ m : DateTime, m.nano = 0 → ¬m < march1896 → m < d → leapDay.isMatch m ≠ .ok true := by
  have h : ∀ rule ∈ leapDay.rules.toList, rule.hasDefaultScope = true ∧ rule.unit ≠ .week := by
    decide
  have hd : leapDay.search.Predicates Predicate.DependsOnValue :=
    Search.predicates_of_registry fun entry hentry => absurd hentry List.not_mem_nil
  obtain ⟨hexact, hexists⟩ := next_exact leapDay h hd
  obtain ⟨d, hnext⟩ := hexists (by decide) march1896 february1904 (by decide) (by decide +kernel)
  exact ⟨h, hd, d, hnext, hexact march1896 d hnext⟩

end Frequency

end Cadence

import Cadence.Proofs.Search.Usual

/-!
# Cycles of months

What makes a search within the usual scopes take several passes is the day of the month: it may not
exist in the month reached.  The months in which the search tries the day are counted by cycles:
every month is one if no number is required of months, and else twelve months are, which end with
the month required.  A search for a day that some month has finds such a month within eight cycles
(`Usual.exists_near_match`), the worst case being February 29 across a century without a leap day.
-/

namespace Cadence

open Civil

namespace Civil

/-- Among the next two months one has 31 days. -/
theorem exists_long_month (k : Int) : ∃ j, k < j ∧ j ≤ k + 2 ∧ monthDays j = 31 := by
  by_cases hnext : monthDays (k + 1) = 31
  · exact ⟨k + 1, by omega, by omega, hnext⟩
  · refine ⟨k + 2, by omega, by omega, ?_⟩
    simp only [monthDays, monthLength] at hnext ⊢
    omega

/-- Among the next eight years one is a leap year, also across a century. -/
theorem exists_leap_year (year : Int) :
    ∃ leap, year < leap ∧ leap ≤ year + 8 ∧ isLeapYear leap = true := by
  by_cases hnext : isLeapYear (4 * (year / 4) + 4) = true
  · exact ⟨4 * (year / 4) + 4, by omega, by omega, hnext⟩
  · refine ⟨4 * (year / 4) + 8, by omega, by omega, ?_⟩
    simp only [isLeapYear, Bool.or_eq_true, Bool.and_eq_true, decide_eq_true_eq] at hnext ⊢
    omega

theorem monthLength_le_leap (leap : Bool) (month : Int) :
    monthLength leap month ≤ monthLength true month := by
  cases leap
  · simp only [monthLength, Bool.false_eq_true, if_false, if_true]
    omega
  · exact Int.le_refl _

end Civil

namespace Search

/-- The number that is required of months, if any. -/
def requiredMonth (s : Search) : Option Int :=
  ((s.rules.get? .month .year).bind (·.requirement.fixed?)).map (·.toInt)

/-- The cycle that a month belongs to. -/
def cycleOf (s : Search) (month : Int) : Int :=
  match s.requiredMonth with
  | none => month
  | some required => (month - required) / 12

/-- The cycle of months that a second lies in. -/
def cycle (s : Search) (a : Int) : Int := s.cycleOf (ordinal .month a)

/-- A number is required of every unit that has a rule. -/
def AllFixed (s : Search) : Prop :=
  ∀ rule ∈ s.rules.toList, rule.requirement.fixed?.isSome = true

variable {s : Search} {x y m : DateTime} {rule : Rule}

theorem AllFixed.target (hf : s.AllFixed) (hrule : rule ∈ s.rules.toList) :
    ∃ target, rule.requirement = .fixed target := by
  have hsome := hf rule hrule
  cases hreq : rule.requirement with
  | fixed target => exact ⟨target, rfl⟩
  | predicate name => simp [hreq, Requirement.fixed?] at hsome

theorem AllFixed.predicates (hf : s.AllFixed) {P : Predicate → Prop} : s.Predicates P := by
  intro rule hrule name hreq
  obtain ⟨target, hfixed⟩ := hf.target hrule
  rw [hfixed] at hreq
  cases hreq

theorem cycleOf_of_none (h : s.requiredMonth = none) (month : Int) : s.cycleOf month = month := by
  rw [cycleOf, h]

theorem cycleOf_of_some {required : Int} (h : s.requiredMonth = some required) (month : Int) :
    s.cycleOf month = (month - required) / 12 := by
  rw [cycleOf, h]

theorem cycleOf_mono {j k : Int} (h : j ≤ k) : s.cycleOf j ≤ s.cycleOf k := by
  unfold cycleOf
  split <;> omega

theorem cycle_mono {a b : Int} (h : a ≤ b) : s.cycle a ≤ s.cycle b :=
  cycleOf_mono (ordinal_mono .month h)

theorem exists_of_requiredMonth {required : Int}
    (hrequired : s.requiredMonth = some required) :
    ∃ rule ∈ s.rules.toList, rule.unit = .month ∧ rule.scope = .year ∧
      ∃ target, rule.requirement = .fixed target ∧ target.toInt = required := by
  simp only [requiredMonth, Option.map_eq_some_iff, Option.bind_eq_some_iff] at hrequired
  obtain ⟨target, ⟨rule, hget, hfixed⟩, htarget⟩ := hrequired
  obtain ⟨hrule, hunit⟩ := RuleSet.mem_of.mp (List.mem_of_find?_eq_some hget)
  refine ⟨rule, hrule, hunit, by simpa using List.find?_some hget, target, ?_, htarget⟩
  cases hreq : rule.requirement with
  | fixed value =>
      rw [hreq] at hfixed
      cases hfixed
      rfl
  | predicate name =>
      rw [hreq] at hfixed
      cases hfixed

/-- From a date that shows the required month every later month is in a later cycle. -/
theorem cycle_lt
    (hsat : ∀ rule ∈ s.rules.toList, rule.unit = .month → s.satisfies x rule = .ok true) {b : Int}
    (hlt : ordinal .month x.second < ordinal .month b) : s.cycle x.second < s.cycle b := by
  rw [cycle, cycle]
  cases hrequired : s.requiredMonth with
  | none =>
      rw [cycleOf_of_none hrequired, cycleOf_of_none hrequired]
      exact hlt
  | some required =>
      obtain ⟨rule, hrule, hunit, hscope, target, hreq, rfl⟩ := exists_of_requiredMonth hrequired
      have hvalue := value_of_satisfied hreq (hsat rule hrule hunit)
      rw [hunit, hscope] at hvalue
      have hmod : value .month .year x.second = ordinal .month x.second % 12 + 1 :=
        value_eq_mod rfl rfl x.second
      rw [cycleOf_of_some hrequired, cycleOf_of_some hrequired]
      omega

/-- As long as the cycle stays, a date that shows the required month stays in it. -/
theorem month_eq_of_cycle_eq
    (hsat : ∀ rule ∈ s.rules.toList, rule.unit = .month → s.satisfies x rule = .ok true) {b : Int}
    (hle : x.second ≤ b) (hcycle : s.cycle b = s.cycle x.second) :
    ordinal .month b = ordinal .month x.second := by
  have hmono := ordinal_mono .month hle
  by_contra hne
  have := cycle_lt hsat (show ordinal .month x.second < ordinal .month b by omega)
  omega

/-! ## Matches nearby -/

/-- Some month of the next eight cycles is as long as needed for the day of a match. -/
theorem exists_month (hmatch : s.Matches m) (cycle : Int) :
    ∃ month, cycle < s.cycleOf month ∧ s.cycleOf month ≤ cycle + 8 ∧
      value .day .month m.second ≤ monthDays month ∧
      ∀ required, s.requiredMonth = some required → month % 12 + 1 = required := by
  have hday := (value_day_bounds m.second).2
  cases hrequired : s.requiredMonth with
  | none =>
      obtain ⟨month, hlow, hhigh, hlong⟩ := exists_long_month cycle
      have hbound := (monthDays_bounds (ordinal .month m.second)).2
      refine ⟨month, ?_, ?_, by omega, by simp⟩
      · rw [cycleOf_of_none hrequired]
        exact hlow
      · rw [cycleOf_of_none hrequired]
        omega
  | some required =>
      obtain ⟨rule, hrule, hunit, hscope, target, hreq, rfl⟩ := exists_of_requiredMonth hrequired
      have hvalue := value_of_satisfied hreq (hmatch rule hrule)
      rw [hunit, hscope] at hvalue
      have hmod : value .month .year m.second = ordinal .month m.second % 12 + 1 :=
        value_eq_mod rfl rfl m.second
      obtain ⟨leap, hlow, hhigh, hleap⟩ := exists_leap_year (cycle + 1)
      -- The required month of a leap year is as long as that month ever is.
      have hyear : (12 * leap + (target.toInt - 1)) / 12 = leap := by omega
      have hmonth : (12 * leap + (target.toInt - 1)) % 12 + 1 = target.toInt := by omega
      refine ⟨12 * leap + (target.toInt - 1), ?_, ?_, ?_, ?_⟩
      · rw [cycleOf_of_some hrequired]
        omega
      · rw [cycleOf_of_some hrequired]
        omega
      · rw [monthDays, hyear, hmonth, hleap]
        refine Int.le_trans hday ?_
        rw [monthDays, show ordinal .month m.second % 12 + 1 = target.toInt by omega]
        exact monthLength_le_leap _ _
      · rintro _ ⟨⟩
        exact hmonth

namespace Usual

theorem requiredMonth_of_fixed (h : s.Usual) (hrule : rule ∈ s.rules.toList)
    (hunit : rule.unit = .month) {target : Int64} (hreq : rule.requirement = .fixed target) :
    s.requiredMonth = some target.toInt := by
  have hscope : rule.scope = .year := by
    rw [h.scope_eq hrule, hunit]
    rfl
  obtain hof | ⟨r, hr, hmonth, hof⟩ := h.of_eq .month
  · have hmem := RuleSet.mem_of.mpr ⟨hrule, hunit⟩
    rw [hof] at hmem
    cases hmem
  · rw [h.eq_of_unit_eq hr hrule (hmonth.trans hunit.symm)] at hof
    simp [requiredMonth, RuleSet.get?, hof, hscope, hreq, Requirement.fixed?]

/-- The match in another month that has its day. -/
theorem matches_monthsLater (h : s.Usual) (hf : s.AllFixed) (hmatch : s.Matches m) {month : Int}
    (hday : value .day .month m.second ≤ monthDays month)
    (hrequired : ∀ required, s.requiredMonth = some required → month % 12 + 1 = required)
    (hy : y.second = monthsLater m.second (month - ordinal .month m.second)) : s.Matches y := by
  intro rule hrule
  obtain ⟨target, hreq⟩ := hf.target hrule
  have hvalue := value_of_satisfied hreq (hmatch rule hrule)
  refine satisfies_civil.mpr ⟨h.measured hrule, ?_⟩
  rw [hreq]
  show value rule.unit rule.scope y.second = target.toInt
  rw [h.scope_eq hrule] at hvalue ⊢
  have hweek := h.week rule hrule
  have hepoch := rule.unit_ne_epoch
  have hreached : ordinal .month m.second + (month - ordinal .month m.second) = month := by omega
  -- The month is the required one and has the day, and the time of day is kept.
  cases hunit : rule.unit with
  | epoch => exact absurd hunit hepoch
  | week => exact absurd hunit hweek
  | year => exact absurd hunit (unit_ne_year hreq)
  | month =>
      rw [value_eq_mod (n := 12) rfl rfl, hy, ordinal_monthsLater, hreached]
      exact hrequired _ (h.requiredMonth_of_fixed hrule hunit hreq)
  | day =>
      rw [hunit] at hvalue
      change value .day .month m.second = _ at hvalue
      show value .day .month y.second = _
      rw [hy, value_day_monthsLater, hreached]
      omega
  | hour | minute | second =>
      rw [hunit] at hvalue
      rw [← hvalue]
      exact value_time_congr rfl (by rw [hy, monthsLater_mod])

/-- If some date at or after another one matches, one within the next eight cycles does. -/
theorem exists_near_match (h : s.Usual) (hf : s.AllFixed) (hmatch : s.Matches m)
    (hle : x.second ≤ m.second) :
    ∃ n : DateTime, s.Matches n ∧ x.second ≤ n.second ∧
      s.cycle n.second ≤ s.cycle x.second + 8 := by
  by_cases hnear : s.cycle m.second ≤ s.cycle x.second + 8
  · exact ⟨m, hmatch, hle, hnear⟩
  · obtain ⟨month, hlow, hhigh, hday, hrequired⟩ := exists_month hmatch (s.cycle x.second)
    have hordinal := ordinal_monthsLater m.second (month - ordinal .month m.second)
    rw [show ordinal .month m.second + (month - ordinal .month m.second) = month by omega]
      at hordinal
    have hcycle : s.cycle (monthsLater m.second (month - ordinal .month m.second)) =
        s.cycleOf month := by
      rw [cycle, hordinal]
    have hafter : x.second < monthsLater m.second (month - ordinal .month m.second) := by
      by_contra hnot
      have := cycle_mono (s := s) (Int.not_lt.mp hnot)
      omega
    have hbefore : monthsLater m.second (month - ordinal .month m.second) < m.second := by
      by_contra hnot
      have := cycle_mono (s := s) (Int.not_lt.mp hnot)
      omega
    -- Between two dates in range everything is in range.
    have hrange : firstSecond ≤ monthsLater m.second (month - ordinal .month m.second) ∧
        monthsLater m.second (month - ordinal .month m.second) ≤ lastSecond :=
      ⟨Int.le_trans x.inRange.1 (Int.le_of_lt hafter),
        Int.le_trans (Int.le_of_lt hbefore) m.inRange.2⟩
    refine ⟨⟨_, 0, hrange, by decide⟩, h.matches_monthsLater hf hmatch hday hrequired rfl,
      Int.le_of_lt hafter, ?_⟩
    show s.cycle (monthsLater m.second (month - ordinal .month m.second)) ≤ _
    omega

end Usual

end Search

end Cadence

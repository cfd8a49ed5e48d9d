import Cadence.Proofs.Civil.Usual
import Cadence.Proofs.Search.Visit

/-!
# When a search moves forward

The answer of a search is a match exactly when its run does not settle before the reference.  A
run on the civil calendar only moves forward unless it *slips*: a number is required of the hour,
minute or second of the week, the week is left through a free parent coarser than weeks, and no
number is required of the day.  The day is then reset to the first of a month, and the week in
which the first of a month lies may have begun before the date itself.
-/

namespace Cadence

open Civil

namespace Search

/-- Some number that is required of a time of the week is entered from the week that holds the
first of a month. -/
def Slips (s : Search) : Prop :=
  ∃ rule ∈ s.rules.toList, rule.unit.isTime = true ∧ rule.scope = .week ∧
    rule.requirement.fixed?.isSome = true ∧
    (s.freeParent rule.unit .week = .month ∨ s.freeParent rule.unit .week = .year) ∧
    s.rules.isFixed .day = false

instance (s : Search) : Decidable s.Slips :=
  inferInstanceAs (Decidable (∃ rule ∈ s.rules.toList, _))

variable {s : Search} {x y : DateTime}

/-! ## Days of the month -/

/-- A day of the month that every month has, or that is not before the last such day. -/
def KeepsDay (a b : Int) : Prop := min (value .day .month a) 28 ≤ value .day .month b

theorem KeepsDay.refl (a : Int) : KeepsDay a a := Int.min_le_left _ _

theorem KeepsDay.trans {a b c : Int} (hab : KeepsDay a b) (hbc : KeepsDay b c) : KeepsDay a c := by
  simp only [KeepsDay] at *
  omega

theorem keepsDay_of_ordinal_eq {a b : Int} (h : ordinal .day a = ordinal .day b) :
    KeepsDay a b := by
  have hvalue : value .day .month a = value .day .month b := value_congr (by decide) h
  rw [KeepsDay, hvalue]
  exact Int.min_le_left _ _

theorem keepsDay_monthsLater (a k : Int) : KeepsDay a (monthsLater a k) := by
  have hdays := monthDays_bounds (ordinal .month a + k)
  rw [KeepsDay, value_day_monthsLater]
  omega

theorem keepsDay_shift {unit : TimeUnit} (hunit : unit = .month ∨ unit = .year) {k : Int}
    (h : x.shift unit k = .ok y) : KeepsDay x.second y.second := by
  obtain ⟨-, -, hsecond, -⟩ := shift_eq_ok.mp h
  rw [hsecond]
  rcases hunit with rfl | rfl
  · exact keepsDay_monthsLater _ _
  · exact keepsDay_monthsLater _ _

theorem filterAll_keepsDay {unit : TimeUnit} (hunit : unit = .month ∨ unit = .year)
    (h : (s.filterAll unit x).result = .ok y) : KeepsDay x.second y.second := by
  refine filterAll_preserves_of_shift (P := fun t : DateTime => KeepsDay x.second t.second) ?_ h
    (KeepsDay.refl _)
  intro a b hshift ha
  exact ha.trans (keepsDay_shift hunit hshift)

/-- Time units are reset within the day or something finer. -/
theorem day_nests_finer {unit limit : TimeUnit} (hlimit : limit = .month ∨ limit = .year)
    (hunit : limit < unit) (hmonth : unit ≠ .month) (hday : unit ≠ .day)
    (hsome : unit.resetValue.isSome = true) :
    Covers .day (unit.defaultScope.finer limit) ∧ Nests (unit.defaultScope.finer limit) unit := by
  revert hunit hmonth hday hsome
  rcases hlimit with rfl | rfl <;> cases unit <;> decide

/-- Only a reset of the day changes the day of the month by more than a month's length does. -/
theorem resetDefault_keepsDay (hs : s.Subtracts) {unit limit : TimeUnit}
    (hlimit : limit = .month ∨ limit = .year) (hunit : limit < unit) (hday : unit ≠ .day)
    (h : s.resetDefault limit x unit = .ok y) : KeepsDay x.second y.second := by
  cases hfirst : unit.resetValue with
  | none =>
      rw [resetDefault_of_none hfirst] at h
      cases h
      exact KeepsDay.refl _
  | some first =>
      by_cases hmonth : unit = .month
      · subst hmonth
        -- The month moves back within its year by a shift of months.
        simp only [resetDefault, hfirst, reset, bind_eq_ok_iff] at h
        obtain ⟨v, -, h⟩ := h
        split at h
        · cases h
          exact KeepsDay.refl _
        · rw [shift_civil, hs] at h
          exact keepsDay_shift (Or.inl rfl) h
      · obtain ⟨y', hy', hstart, -, -, -⟩ := exists_resetDefault hs x hfirst hunit
        rw [h] at hy'
        cases hy'
        obtain ⟨hcovers, hnests⟩ := day_nests_finer hlimit hunit hmonth hday (by rw [hfirst]; rfl)
        have hkeep : ordinal (unit.defaultScope.finer limit) x.second =
            ordinal (unit.defaultScope.finer limit) y.second := by
          rw [← ordinal_startOf _ x.second, ← hstart]
          exact ordinal_eq_of_nests hnests (ordinal_startOf unit y.second)
        exact keepsDay_of_ordinal_eq (hcovers.ordinal_eq hkeep)

/-- The resets of a carry keep the day of the month if the day is required or carried itself. -/
theorem resetBetween_keepsDay (hs : s.Subtracts) {parent unit : TimeUnit}
    (hparent : parent = .month ∨ parent = .year)
    (hday : unit = .day ∨ s.rules.isFixed .day = true)
    (h : s.resetBetween x parent unit = .ok y) : KeepsDay x.second y.second := by
  refine foldlM_preserves (P := fun t : DateTime => KeepsDay x.second t.second) ?_ h
    (KeepsDay.refl _)
  intro u hu a b hreset ha
  simp only [TimeUnit.between, List.mem_filter, Bool.and_eq_true, decide_eq_true_eq,
    Bool.not_eq_true'] at hu
  obtain ⟨⟨-, hafter, hbefore⟩, hfree⟩ := hu
  refine ha.trans (resetDefault_keepsDay hs hparent hafter ?_ hreset)
  rintro rfl
  rcases hday with rfl | hfixed
  · exact absurd hbefore (by decide)
  · rw [hfree] at hfixed
    cases hfixed

/-- A later month with the day kept is more than a week later. -/
theorem lt_startOf_week {a b : Int} (hmonth : ordinal .month a < ordinal .month b)
    (hday : KeepsDay a b) : a < startOf .week b := by
  have ha := monthStart_ordinal_bounds a
  have hdays := monthDays_bounds (ordinal .month a)
  have hnext := monthStart_succ (ordinal .month a)
  have hstart : begins .month (ordinal .month a + 1) ≤ begins .month (ordinal .month b) :=
    begins_le_begins (by decide) (by omega)
  -- At least 28 days lie between the two dates, and at most six since the later Monday.
  simp only [KeepsDay, value_day_month] at hday
  simp only [begins] at hstart
  have hlater : a / 86400 + 28 ≤ b / 86400 := by omega
  simp only [startOf, begins, ordinal]
  omega

/-! ## Carries -/

theorem lt_startOf {unit : TimeUnit} (hunit : unit ≠ .epoch) {a b : Int}
    (h : ordinal unit a < ordinal unit b) : a < startOf unit b :=
  (ordinal_lt_iff hunit).mp h

/-- Unless the search slips, the period of the scope in which a unit is entered begins later. -/
theorem carry_scope_lt (hs : s.Subtracts) (hslip : ¬s.Slips) {rule : Rule}
    (hrule : rule ∈ s.rules.toList) {target : Int64} (hreq : rule.requirement = .fixed target)
    {a b c : DateTime} (hparent : s.freeParent rule.unit rule.scope ≠ .epoch)
    (ha : x.shift (s.freeParent rule.unit rule.scope) 1 = .ok a)
    (hb : (s.filterAll (s.freeParent rule.unit rule.scope) a).result = .ok b)
    (hc : s.resetBetween b (s.freeParent rule.unit rule.scope) rule.unit = .ok c)
    (hlater : ordinal (s.freeParent rule.unit rule.scope) x.second <
      ordinal (s.freeParent rule.unit rule.scope) c.second) :
    x.second < startOf rule.scope c.second := by
  have hle : s.freeParent rule.unit rule.scope ≤ rule.scope := freeParent_le
  by_cases hcross : rule.scope = .week ∧ s.freeParent rule.unit rule.scope ≠ .week
  · -- The week is entered from a month or a year, so the day decides.
    obtain ⟨hscope, hne⟩ := hcross
    have hcoarse : s.freeParent rule.unit rule.scope = .month ∨
        s.freeParent rule.unit rule.scope = .year := by
      rw [hscope] at hle hne hparent ⊢
      revert hle hne hparent
      cases s.freeParent rule.unit .week <;> decide
    have hday : rule.unit = .day ∨ s.rules.isFixed .day = true := by
      by_contra hfree
      obtain ⟨hunit, hfree⟩ := not_or.mp hfree
      refine hslip ⟨rule, hrule, ?_, hscope, by rw [hreq]; rfl, hscope ▸ hcoarse,
        by simpa using hfree⟩
      have hlegal := rule.legal
      rw [hscope] at hlegal
      revert hlegal hunit
      cases rule.unit <;> decide
    have hkeep := ((keepsDay_shift hcoarse ha).trans (filterAll_keepsDay hcoarse hb)).trans
      (resetBetween_keepsDay hs hcoarse hday hc)
    rw [hscope]
    refine lt_startOf_week (Covers.ordinal_lt ?_ hlater) hkeep
    rcases hcoarse with hcoarse | hcoarse
    · rw [hcoarse]
      decide
    · rw [hcoarse]
      decide
  · have hcovers : Covers (s.freeParent rule.unit rule.scope) rule.scope := by
      refine Covers.of_le hparent hle ?_
      intro hscope
      by_contra hne
      exact hcross ⟨hscope, hne⟩
    exact Int.lt_of_lt_of_le (lt_startOf hparent hlater) (hcovers.startOf_le _)

/-- A carry of weeks moves forward: the number is reached from a later month, and no week that is
left lies before the date's own, whose number is too high. -/
theorem carry_week_lt (hs : s.Subtracts) {scope parent : TimeUnit} {target : Int} {c : DateTime}
    (hparent : parent ≤ .month) (hlater : ordinal .month x.second < ordinal .month c.second)
    (hpast : target < value .week scope x.second)
    (h : s.enter c .week scope parent target = .ok y) : x.second ≤ y.second := by
  have hfloor : floorScope .week parent = .month := finer_of_le hparent
  obtain ⟨b, z, v, hb, hread, hv, hz, rfl, -⟩ := enter_none_eq_ok hs (by decide)
    (Nat.le_trans hparent (by decide)) rfl h
  obtain ⟨hm, rfl⟩ := read_eq_ok.mp hread
  rw [hfloor] at hb
  have hxb : x.second < b.second :=
    Int.lt_of_lt_of_le (lt_startOf (by decide) hlater) hb
  have hordinal := ordinal_shift hz
  by_contra hback
  -- Otherwise the date lies in the week reached, which is then the week of `b`.
  have hbx := ordinal_mono .week (Int.le_of_lt hxb)
  have hzx := ordinal_mono .week (Int.le_of_lt (Int.not_le.mp hback))
  rw [DateTime.floor_second, ordinal_startOf] at hzx
  have heq : ordinal .week x.second = ordinal .week b.second := by omega
  have := value_congr hm heq
  omega

/-! ## Runs -/

/-- A carry of a number that the unit can have moves forward. -/
theorem carry_forward (hs : s.Subtracts) (hslip : ¬s.Slips) {rule : Rule}
    (hrule : rule ∈ s.rules.toList) {target : Int64} (hreq : rule.requirement = .fixed target)
    (htarget : ∀ first, rule.unit.resetValue = some first → rule.scope ≠ .epoch →
      first ≤ target.toInt)
    (hm : measured rule.unit rule.scope = true)
    (hpast : target.toInt < value rule.unit rule.scope x.second)
    (h : (s.carry x rule.unit rule.scope target.toInt).result = .ok y) : x.second ≤ y.second := by
  obtain ⟨hparent, hscope, a, b, c, ha, hb, hc, hkeep, hlater, -, hy⟩ := carry_civil hs h
  rw [← hkeep] at hlater
  cases hfirst : rule.unit.resetValue with
  | some first =>
      have hlt := carry_scope_lt hs hslip hrule hreq hparent ha hb hc hlater
      have hle := startOf_le_enter hs hfirst hscope hm (htarget first hfirst hscope) hy
      exact Int.le_trans (Int.le_of_lt hlt) hle
  | none =>
      -- What has no first value is a week, which is measured and carried within years alone.
      have hweek := unit_eq_week hreq hfirst
      have hyear : rule.scope = .year := by
        rw [hweek] at hm
        revert hm hscope
        cases rule.scope <;> decide
      have hle : s.freeParent rule.unit rule.scope ≤ .year :=
        hyear ▸ freeParent_le
      have hparent' : s.freeParent rule.unit rule.scope = .year := by
        revert hle hparent
        cases s.freeParent rule.unit rule.scope <;> decide
      rw [hparent'] at hlater
      rw [hweek] at hpast hy
      rw [hweek] at hle
      exact carry_week_lt hs (Nat.le_trans hle (by decide))
        (ordinal_lt_of_nests (show Nests .year .month by decide) hlater) hpast hy

/-- Unless the search slips, a visit moves forward. -/
theorem visit_forward (hs : s.Subtracts) (hslip : ¬s.Slips) {rule : Rule}
    (hrule : rule ∈ s.rules.toList)
    (htarget : ∀ target first, rule.requirement = .fixed target →
      rule.unit.resetValue = some first → rule.scope ≠ .epoch → first ≤ target.toInt)
    (h : (s.visit x rule).result = .ok y) : x.second ≤ y.second := by
  have hepoch := rule.unit_ne_epoch
  cases hreq : rule.requirement with
  | fixed target =>
      obtain ⟨hm, ⟨-, rfl⟩ | ⟨hlt, hsecond, -⟩ | ⟨hpast, hcarry⟩⟩ := visit_fixed_civil hs hreq h
      · exact Int.le_refl _
      · rw [hsecond]
        refine Int.le_of_lt ((ordinal_lt_iff hepoch).mp ?_)
        omega
      · exact carry_forward hs hslip hrule hreq (fun first => htarget target first hreq) hm hpast
          hcarry
  | predicate name =>
      obtain ⟨p, n, z, -, hretried, ⟨-, rfl, -⟩ | ⟨rfl, hn⟩⟩ := visit_predicate_civil hs hreq h
      · exact Int.le_refl _
      · refine Int.le_of_lt (lt_startOf hepoch ?_)
        have := hretried.ordinal_eq
        omega

/-- A run that does not slip settles on its start or later. -/
theorem Run.forward (hs : s.Subtracts) (hslip : ¬s.Slips) {legs : List (Leg DateTime)}
    (h : Run s x legs y) : x.second ≤ y.second := by
  refine h.preserves (P := fun t : DateTime => x.second ≤ t.second) ?_ (Int.le_refl _)
  intro leg hleg hstart
  obtain ⟨hrule, hvisit⟩ := h.leg hleg
  refine Int.le_trans hstart (visit_forward hs hslip hrule ?_ hvisit)
  intro target first hreq hfirst hscope
  -- The date on which the run settles shows the number.
  rw [← value_of_satisfied hreq (h.matches_end _ hrule)]
  exact first_le_value hfirst hscope _

end Search

/-! ## Answers -/

namespace Frequency

variable {f : Frequency}

/-- On the civil calendar the answer is a match exactly when the run does not settle before the
whole second of the reference. -/
theorem isMatch_next_civil_iff (hf : f.search.Predicates Predicate.IgnoresFractions)
    {r d : DateTime} (h : f.next r = .ok d) :
    ∃ legs e, f.search.Run r.truncate legs e ∧ d = (if e < r then r else e) ∧
      (f.isMatch d = .ok true ↔ ¬e < r.truncate) := by
  obtain ⟨x, legs, e, htruncate, hrun, hd⟩ := next_eq_ok h
  cases htruncate
  refine ⟨legs, e, hrun, hd, ?_⟩
  have hnano := hrun.nano_eq f.search_subtracts
  rw [DateTime.truncate_nano] at hnano
  have hmatch := hrun.matches_end
  rw [isMatch_iff]
  by_cases hback : e < r
  · rw [if_pos hback] at hd
    subst hd
    constructor
    · intro hd
      -- A reference that matches is where the run already begins.
      rw [hrun.eq_of_matches ((Search.matches_truncate_iff hf).mpr hd)]
      exact DateTime.lt_irrefl _
    · intro hnot
      rw [DateTime.lt_def] at hback hnot
      rw [DateTime.truncate_second, DateTime.truncate_nano] at hnot
      have heq : e = d.truncate :=
        DateTime.eq_of_second (by rw [DateTime.truncate_second]; omega) hnano
      exact (Search.matches_truncate_iff hf).mp (heq ▸ hmatch)
  · rw [if_neg hback] at hd
    subst hd
    refine iff_of_true hmatch ?_
    rw [DateTime.lt_def] at hback ⊢
    rw [DateTime.truncate_second, DateTime.truncate_nano]
    omega

/-- A search that does not slip answers a match that is not before the reference. -/
theorem isMatch_next_of_not_slips (hf : f.search.Predicates Predicate.IgnoresFractions)
    (hslip : ¬f.search.Slips) {r d : DateTime} (h : f.next r = .ok d) :
    f.isMatch d = .ok true ∧ ¬d < r := by
  refine ⟨?_, (next_sound_of_irrefl DateTime.lt_irrefl h).1⟩
  obtain ⟨legs, e, hrun, -, hmatch⟩ := isMatch_next_civil_iff hf h
  rw [hmatch, DateTime.lt_def]
  have hforward := hrun.forward f.search_subtracts hslip
  rw [DateTime.truncate_second] at hforward ⊢
  rw [DateTime.truncate_nano]
  omega

/-- The answer of a search is never before the reference.  It is a match exactly when the search
does not settle before the reference, and on the civil calendar it is one whenever the search does
not slip. -/
theorem isMatch_next_iff (f : Frequency)
    (hf : f.search.Predicates Predicate.IgnoresFractions) :
    (∀ r d : DateTime, f.next r = .ok d → ¬d < r ∧
      (∃ legs e, f.search.Run r.truncate legs e ∧ d = (if e < r then r else e) ∧
        (f.isMatch d = .ok true ↔ ¬e < r.truncate)) ∧
      (¬f.search.Slips → f.isMatch d = .ok true)) ∧
    (∀ r d : Zoned, f.next r = .ok d → ¬d < r ∧
      ∃ x legs e, Calendar.truncate r = .ok x ∧ f.search.Run x legs e ∧
        d = (if e < r then r else e) ∧
        (f.isMatch d = .ok true ↔ ¬e < r ∨ f.isMatch r = .ok true)) := by
  refine ⟨fun r d h => ?_, fun r d h => next_sound_of_irrefl Zoned.lt_irrefl h⟩
  exact ⟨(next_sound_of_irrefl DateTime.lt_irrefl h).1, isMatch_next_civil_iff hf h,
    fun hslip => (isMatch_next_of_not_slips hf hslip h).1⟩

/-- The fifth hour of odd weeks. -/
def oddWeeks : Frequency :=
  (do
    let weeks ← (empty (Registry.empty.register "odd" .odd)).on .week (.predicate "odd") none
    weeks.on .hour (.fixed 5) (some .week) : Except Error Frequency).toOption.get rfl

/-- The fifth hour of the first week of the year. -/
def firstWeek : Frequency :=
  (do
    let weeks ← (empty .empty).on .week (.fixed 1) none
    weeks.on .hour (.fixed 5) (some .week) : Except Error Frequency).toOption.get rfl

/-- A Wednesday in the first week of 2015. -/
def newYearsEve : DateTime := (DateTime.atDate? ⟨2014, 12, 31⟩ 0 0).get rfl

/-- From the first week of 2015 the search waits for the third one. -/
theorem isMatch_next_oddWeeks :
    oddWeeks.search.Predicates Predicate.IgnoresFractions ∧ ∃ d,
      oddWeeks.next newYearsEve = .ok d ∧ ¬d < newYearsEve ∧ ¬oddWeeks.search.Slips ∧
        oddWeeks.isMatch d = .ok true := by
  have hf : oddWeeks.search.Predicates Predicate.IgnoresFractions := by
    have hentries : oddWeeks.search.predicates.entries = [("odd", .odd)] := rfl
    refine Search.predicates_of_registry ?_
    intro entry hentry
    rw [hentries] at hentry
    rw [List.mem_singleton.mp hentry]
    exact Predicate.odd_dependsOnValue.ignoresFractions
  have hslip : ¬oddWeeks.search.Slips := by decide
  have hnext : oddWeeks.next newYearsEve = .ok ⟨735975 * 86400 + 18000, 0, by decide, by decide⟩ :=
    rfl
  obtain ⟨hle, -, hmatch⟩ := (isMatch_next_iff oddWeeks hf).1 _ _ hnext
  exact ⟨hf, _, hnext, hle, hslip, hmatch hslip⟩

/-- The first week of 2015 holds the first of January, so the search goes back to its Monday and
the reference is answered, which is no match. -/
theorem next_firstWeek_slips :
    firstWeek.search.Predicates Predicate.IgnoresFractions ∧ firstWeek.search.Slips ∧
      firstWeek.next newYearsEve = .ok newYearsEve ∧
      firstWeek.isMatch newYearsEve = .ok false := by
  refine ⟨?_, by decide, rfl, rfl⟩
  exact Search.predicates_of_registry fun entry hentry => absurd hentry List.not_mem_nil

end Frequency

end Cadence

import Cadence.Proofs.Civil.Moved
import Cadence.Proofs.Search.Run

/-!
# Resets on the civil calendar

A reset moves a unit back to its first value within a scope.  Seen from the time line, the period
of the unit that holds the date then begins where the scope's period begins
(`exists_resetDefault`).  Resetting all units below one after the other therefore ends on the first
second of the period (`resetBelow_eq`).  Resets never fail: they move back, and no further than to
the beginning of a period, which is in range because the first year in range begins on a Monday.
-/

namespace Cadence

open Civil

/-! ## Beginnings of periods -/

namespace Civil

/-- The range begins with a year, a week and a midnight. -/
theorem startOf_firstSecond {unit : TimeUnit} (hunit : unit ≠ .epoch) :
    startOf unit firstSecond = firstSecond := by
  cases unit with
  | epoch => exact absurd rfl hunit
  | year | month | week | day | hour | minute | second => decide +kernel

theorem firstSecond_le_startOf {unit : TimeUnit} (hunit : unit ≠ .epoch) {s : Int}
    (h : firstSecond ≤ s) : firstSecond ≤ startOf unit s := by
  rw [← startOf_firstSecond hunit]
  exact begins_le_begins hunit (ordinal_mono unit h)

theorem startOf_inRange (unit : TimeUnit) {s : Int} (h : firstSecond ≤ s ∧ s ≤ lastSecond) :
    firstSecond ≤ startOf unit s ∧ startOf unit s ≤ lastSecond := by
  by_cases hunit : unit = .epoch
  · subst hunit
    simp only [startOf, begins]
    decide
  · exact ⟨firstSecond_le_startOf hunit h.1, Int.le_trans (startOf_bounds hunit s).1 h.2⟩

/-- The beginning of the period of a unit, with the fraction of the second that is shown. -/
def DateTime.floor (t : DateTime) (unit : TimeUnit) : DateTime :=
  ⟨startOf unit t.second, t.nano, startOf_inRange unit t.inRange, t.nano_lt⟩

@[simp] theorem DateTime.floor_second (t : DateTime) (unit : TimeUnit) :
    (t.floor unit).second = startOf unit t.second := rfl

@[simp] theorem DateTime.floor_nano (t : DateTime) (unit : TimeUnit) :
    (t.floor unit).nano = t.nano := rfl

theorem DateTime.eq_of_second {a b : DateTime} (hsecond : a.second = b.second)
    (hnano : a.nano = b.nano) : a = b := by
  cases a
  cases b
  simp only at hsecond hnano
  subst hsecond hnano
  rfl

/-- What precedes within a unit's limit of shifts is within reach of a shift. -/
theorem withinShiftLimit_back {unit scope : TimeUnit} (hm : measured unit scope = true)
    (hscope : scope ≠ .epoch) (hweek : unit ≠ .week) {s : Int}
    (hs : firstSecond ≤ s ∧ s ≤ lastSecond) :
    withinShiftLimit unit (ordinal unit (startOf scope s) - ordinal unit s) = true := by
  have hback := ordinal_mono unit (startOf_bounds hscope s).1
  have hlow := ordinal_mono unit (firstSecond_le_startOf hscope hs.1)
  have hhigh := ordinal_mono unit hs.2
  simp only [withinShiftLimit, Bool.and_eq_true, decide_eq_true_eq]
  cases unit with
  | epoch => exact absurd rfl (measured_ne_epoch hm)
  | year =>
      cases scope <;> simp [measured, TimeUnit.isLegalScope, TimeUnit.legalScopes] at hm hscope
  | month =>
      -- The whole range has more months than a shift may cross, but a year has twelve.
      cases scope <;> simp [measured, TimeUnit.isLegalScope, TimeUnit.legalScopes] at hm hscope
      have hyear := ordinal_month_div s
      rw [startOf, ordinal_month_begins_year] at hback ⊢
      simp only [shiftLimit]
      omega
  | week => exact absurd rfl hweek
  | day | hour | minute | second =>
      simp only [ordinal, shiftLimit, firstSecond, lastSecond] at hback hlow hhigh ⊢
      omega

end Civil

namespace Search

/-- Shifts by a difference of a search are shifts by the exact difference. -/
def Subtracts (s : Search) : Prop :=
  ∀ (t : DateTime) (unit : TimeUnit) (a b : Int),
    t.shift unit (s.difference a b) = t.shift unit (a - b)

/-- Differences beyond the 64-bit integers are beyond every limit, and so are the bounds that stand
for them. -/
theorem withinShiftLimit_saturatingDifference (unit : TimeUnit) (a b : Int) :
    withinShiftLimit unit (saturatingDifference a b) = withinShiftLimit unit (a - b) := by
  have hlimit : 0 ≤ shiftLimit unit ∧ shiftLimit unit ≤ 631107417600 := by
    cases unit <;> decide
  rw [Bool.eq_iff_iff]
  simp only [withinShiftLimit, Bool.and_eq_true, decide_eq_true_eq]
  simp only [saturatingDifference]
  omega

theorem saturatingDifference_eq {unit : TimeUnit} {a b : Int}
    (h : withinShiftLimit unit (a - b) = true) : saturatingDifference a b = a - b := by
  have hlimit : shiftLimit unit ≤ 631107417600 := by
    cases unit <;> decide
  simp only [withinShiftLimit, Bool.and_eq_true, decide_eq_true_eq] at h
  simp only [saturatingDifference]
  omega

end Search

/-- The search of a frequency subtracts exactly wherever a shift may succeed. -/
theorem Frequency.search_subtracts (f : Frequency) : f.search.Subtracts := by
  intro t unit a b
  show t.shift unit (Search.saturatingDifference a b) = t.shift unit (a - b)
  by_cases h : withinShiftLimit unit (a - b) = true
  · rw [Search.saturatingDifference_eq h]
  · have h' := Search.withinShiftLimit_saturatingDifference unit a b
    simp [DateTime.shift, h', h]

namespace Search

variable {s : Search} {t : DateTime}

theorem read_eq_ok {unit scope : TimeUnit} {v : Int} :
    Calendar.read t unit scope = .ok v ↔
      measured unit scope = true ∧ v = value unit scope t.second := by
  show t.read unit scope = .ok v ↔ _
  rw [DateTime.read_eq_ok]
  by_cases h : measured unit scope = true
  · simp [measure_eq t h, h, eq_comm]
  · rw [measure_eq_none t (by simpa using h)]
    simp [h]

theorem shift_civil {unit : TimeUnit} {k : Int} :
    Calendar.shift t unit k = t.shift unit k := rfl

/-! ## One unit -/

theorem resetValue_ne_none_of_some {unit : TimeUnit} {first : Int}
    (hfirst : unit.resetValue = some first) : unit ≠ .epoch ∧ unit ≠ .year ∧ unit ≠ .week := by
  cases unit <;> simp [TimeUnit.resetValue] at hfirst ⊢

/-- A reset succeeds and does not move forward.  After it the period of the unit begins where the
scope's period begins. -/
theorem exists_reset (hs : s.Subtracts) (t : DateTime) {unit scope : TimeUnit} {first : Int}
    (hfirst : unit.resetValue = some first) (hscope : scope ≠ .epoch)
    (hm : measured unit scope = true) :
    ∃ t', s.reset t unit scope first = .ok t' ∧
      ordinal unit t'.second = ordinal unit (startOf scope t.second) ∧
      startOf scope t.second ≤ t'.second ∧ t'.second ≤ t.second ∧ t'.nano = t.nano := by
  obtain ⟨hepoch, -, hweek⟩ := resetValue_ne_none_of_some hfirst
  have haligned := startOf_startOf_scope hm hscope hweek t.second
  have hvalue : first - value unit scope t.second =
      ordinal unit (startOf scope t.second) - ordinal unit t.second := by
    simp only [value, base, hscope, hweek, hfirst, if_false, Option.getD_some]
    omega
  simp only [reset, bind_eq_ok_iff, read_eq_ok.mpr ⟨hm, rfl⟩, Except.ok.injEq, exists_eq_left']
  split
  · -- The unit has its first value already.
    rename_i heq
    have hordinal := (value_eq_first_iff hfirst hscope _).mp heq
    exact ⟨t, rfl, hordinal, (startOf_bounds hscope _).1, Int.le_refl _, rfl⟩
  · -- The unit is shifted back to the period in which the scope's period begins.
    rename_i hne
    rw [shift_civil, hs, hvalue]
    have hback := ordinal_mono unit (startOf_bounds hscope t.second).1
    have hreached := ordinal_moved hepoch t.second
      (ordinal unit (startOf scope t.second) - ordinal unit t.second)
    have hlater : startOf scope t.second ≤ moved unit t.second
        (ordinal unit (startOf scope t.second) - ordinal unit t.second) := by
      refine Int.le_trans (Int.le_of_eq haligned.symm) (startOf_le_of_ordinal_le hepoch ?_)
      omega
    have hearlier : moved unit t.second
        (ordinal unit (startOf scope t.second) - ordinal unit t.second) < t.second := by
      refine @lt_of_ordinal_lt unit _ _ ?_
      have := (value_eq_first_iff hfirst hscope t.second).not.mp hne
      omega
    obtain ⟨t', hshift, hsecond, hnano⟩ := exists_shift t hepoch
      (withinShiftLimit_back hm hscope hweek t.inRange)
      ⟨Int.le_trans (startOf_inRange scope t.inRange).1 hlater,
        Int.le_trans (Int.le_of_lt hearlier) t.inRange.2⟩
    refine ⟨t', hshift, ?_, ?_, ?_, hnano⟩
    · rw [hsecond, hreached]
      omega
    · rw [hsecond]
      exact hlater
    · rw [hsecond]
      exact Int.le_of_lt hearlier

/-- The scope that a unit is reset within nests the unit and is no coarser than the limit. -/
theorem finer_defaultScope {unit limit : TimeUnit} {first : Int}
    (hfirst : unit.resetValue = some first) (hlimit : limit < unit) :
    unit.defaultScope.finer limit ≠ .epoch ∧
      measured unit (unit.defaultScope.finer limit) = true ∧
      (limit = .epoch ∨ Covers limit (unit.defaultScope.finer limit)) := by
  obtain ⟨hepoch, hyear, hweek⟩ := resetValue_ne_none_of_some hfirst
  clear hfirst
  revert hlimit hepoch hyear hweek
  cases unit <;> cases limit <;> decide

/-- A unit that is reset by default moves to where its scope begins, and stays in the period of
the limit. -/
theorem exists_resetDefault (hs : s.Subtracts) (t : DateTime) {unit limit : TimeUnit} {first : Int}
    (hfirst : unit.resetValue = some first) (hlimit : limit < unit) :
    ∃ t', s.resetDefault limit t unit = .ok t' ∧
      startOf unit t'.second = startOf (unit.defaultScope.finer limit) t.second ∧
      ordinal limit t'.second = ordinal limit t.second ∧ t'.second ≤ t.second ∧
      t'.nano = t.nano := by
  obtain ⟨hscope, hm, hcases⟩ := finer_defaultScope hfirst hlimit
  obtain ⟨-, -, hweek⟩ := resetValue_ne_none_of_some hfirst
  have hnests := nests_of_measured hm hscope hweek
  obtain ⟨t', hreset, hordinal, -, hback, hnano⟩ := exists_reset hs t hfirst hscope hm
  have hstart : startOf unit t'.second = startOf (unit.defaultScope.finer limit) t.second := by
    rw [startOf, hordinal]
    exact startOf_begins hnests _
  have hkeep : ordinal (unit.defaultScope.finer limit) t'.second =
      ordinal (unit.defaultScope.finer limit) t.second := by
    rw [ordinal_eq_of_nests hnests hordinal, ordinal_startOf]
  refine ⟨t', by simpa only [resetDefault, hfirst] using hreset, hstart, ?_, hback, hnano⟩
  rcases hcases with rfl | hcovers
  · rfl
  · exact hcovers.ordinal_eq hkeep

theorem resetDefault_of_none {unit limit : TimeUnit} (hfirst : unit.resetValue = none) :
    s.resetDefault limit t unit = .ok t := by
  simp [resetDefault, hfirst, pure, Except.pure]

/-! ## Some units between two others -/

/-- Resetting units that are finer than the limit succeeds, stays in the period of the limit and
does not move forward. -/
theorem exists_resetAll (hs : s.Subtracts) {limit : TimeUnit} {units : List TimeUnit}
    (hunits : ∀ unit ∈ units, limit < unit) (t : DateTime) :
    ∃ t', units.foldlM (s.resetDefault limit) t = .ok t' ∧
      ordinal limit t'.second = ordinal limit t.second ∧ t'.second ≤ t.second ∧
      t'.nano = t.nano := by
  induction units generalizing t with
  | nil => exact ⟨t, rfl, rfl, Int.le_refl _, rfl⟩
  | cons unit units ih =>
      simp only [List.foldlM_cons]
      have hrest := ih fun u hu => hunits u (List.mem_cons_of_mem _ hu)
      cases hfirst : unit.resetValue with
      | none =>
          rw [resetDefault_of_none hfirst]
          exact hrest t
      | some first =>
          obtain ⟨x, hx, -, hkeep, hback, hnano⟩ :=
            exists_resetDefault hs t hfirst (hunits unit List.mem_cons_self)
          obtain ⟨t', ht', hkeep', hback', hnano'⟩ := hrest x
          rw [hx]
          exact ⟨t', ht', hkeep'.trans hkeep, Int.le_trans hback' hback, hnano'.trans hnano⟩

theorem exists_resetBetween (hs : s.Subtracts) (t : DateTime) (parent unit : TimeUnit) :
    ∃ t', s.resetBetween t parent unit = .ok t' ∧
      ordinal parent t'.second = ordinal parent t.second ∧ t'.second ≤ t.second ∧
      t'.nano = t.nano := by
  refine exists_resetAll hs ?_ t
  intro u hu
  have hbetween := (List.mem_filter.mp hu).1
  simp only [TimeUnit.between, List.mem_filter, Bool.and_eq_true, decide_eq_true_eq] at hbetween
  exact hbetween.2.1

/-! ## All finer units -/

/-- The unit to whose beginning the units below another one are reset. -/
def floorScope (unit limit : TimeUnit) : TimeUnit :=
  if unit = .week then TimeUnit.month.finer limit else unit

theorem finer_of_le {unit limit : TimeUnit} (h : limit ≤ unit) : unit.finer limit = unit := by
  revert h
  cases unit <;> cases limit <;> decide

/-- Resetting the units below a unit, within a limit, leads to the beginning of a period. -/
def Floors (s : Search) (unit limit : TimeUnit) : Prop :=
  ∀ t : DateTime, s.resetBelow t unit limit = .ok (t.floor (floorScope unit limit))

theorem floors_second {limit : TimeUnit} : s.Floors .second limit := by
  intro t
  have hlist : TimeUnit.finerUnits .second = [] := by decide
  simp only [resetBelow, hlist, List.foldlM_nil, pure, Except.pure, Except.ok.injEq]
  exact DateTime.eq_of_second rfl rfl

/-- The next unit is first moved to the beginning, then the units below it. -/
theorem Floors.coarser (hs : s.Subtracts) {unit next limit : TimeUnit} {first : Int}
    (h : s.Floors next limit) (hlist : unit.finerUnits = next :: next.finerUnits)
    (hfirst : next.resetValue = some first) (hnext : unit < next) (hlimit : limit ≤ unit)
    (hscope : next.defaultScope.finer limit = floorScope unit limit) : s.Floors unit limit := by
  intro t
  obtain ⟨x, hx, hstart, -, -, hnano⟩ :=
    exists_resetDefault hs t hfirst (Nat.lt_of_le_of_lt hlimit hnext)
  obtain ⟨-, -, hweek⟩ := resetValue_ne_none_of_some hfirst
  simp only [resetBelow, hlist, List.foldlM_cons, hx]
  show s.resetBelow x next limit = _
  rw [h x]
  refine congrArg Except.ok (DateTime.eq_of_second ?_ hnano)
  simp only [DateTime.floor_second, floorScope, hweek, if_false]
  rw [hstart, hscope]
  rfl

/-- Weeks have no first value, so the units below months are the units below weeks. -/
theorem Floors.month {limit : TimeUnit} (h : s.Floors .week limit) (hlimit : limit ≤ .month) :
    s.Floors .month limit := by
  intro t
  have hlist : TimeUnit.finerUnits .month = .week :: TimeUnit.finerUnits .week := by decide
  have hscope : floorScope .week limit = .month := finer_of_le hlimit
  simp only [resetBelow, hlist, List.foldlM_cons, resetDefault_of_none (show
    TimeUnit.resetValue .week = none from rfl)]
  show s.resetBelow t .week limit = _
  rw [h t, hscope]
  rfl

/-- Resetting the units below a unit leads to the beginning of its period.  Below weeks, and
within a limit coarser than weeks, it leads to the beginning of the month. -/
theorem resetBelow_eq (hs : s.Subtracts) {unit limit : TimeUnit} (hunit : unit ≠ .epoch)
    (hlimit : limit ≤ unit) (t : DateTime) :
    s.resetBelow t unit limit = .ok (t.floor (floorScope unit limit)) := by
  -- From the finest unit up, each unit adds one reset to those of the next finer unit.
  have hsecond : s.Floors .second limit := floors_second
  have hminute (h : limit ≤ .minute) : s.Floors .minute limit :=
    hsecond.coarser hs (by decide) rfl (by decide) h (finer_of_le h)
  have hhour (h : limit ≤ .hour) : s.Floors .hour limit :=
    (hminute (Nat.le_trans h (by decide))).coarser hs (by decide) rfl (by decide) h
      (finer_of_le h)
  have hday (h : limit ≤ .day) : s.Floors .day limit :=
    (hhour (Nat.le_trans h (by decide))).coarser hs (by decide) rfl (by decide) h
      (finer_of_le h)
  have hweek (h : limit ≤ .week) : s.Floors .week limit :=
    (hday (Nat.le_trans h (by decide))).coarser hs (by decide) rfl (by decide) h rfl
  have hmonth (h : limit ≤ .month) : s.Floors .month limit :=
    (hweek (Nat.le_trans h (by decide))).month h
  have hyear (h : limit ≤ .year) : s.Floors .year limit :=
    (hmonth (Nat.le_trans h (by decide))).coarser hs (by decide) rfl (by decide) h
      (finer_of_le h)
  cases unit with
  | epoch => exact absurd rfl hunit
  | year => exact hyear hlimit t
  | month => exact hmonth hlimit t
  | week => exact hweek hlimit t
  | day => exact hday hlimit t
  | hour => exact hhour hlimit t
  | minute => exact hminute hlimit t
  | second => exact hsecond t

/-- Resetting the units below a unit within the unit itself leads to the beginning of its
period. -/
theorem resetBelow_self (hs : s.Subtracts) {unit : TimeUnit} (hunit : unit ≠ .epoch)
    (t : DateTime) : s.resetBelow t unit unit = .ok (t.floor unit) := by
  rw [resetBelow_eq hs hunit (Nat.le_refl _)]
  cases unit <;> rfl

end Search

end Cadence

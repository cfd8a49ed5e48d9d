import Cadence.Proofs.Civil.Period

/-!
# Values as differences of ordinals

The value of a unit within a scope is the distance of two ordinals of the unit: that of the second
at which it is read, and the base that the scope's period sets (`measure_eq`).  A base depends on
the unit's period alone and never moves back, so values only fall when a new period of the scope
begins.  The base of weeks within a year is the week of January 4, which may belong to another
year than the second itself.
-/

namespace Cadence.Civil

/-- Whether a unit can be measured within a scope.  Two legal scopes are not measured. -/
def measured (unit scope : TimeUnit) : Bool :=
  unit.isLegalScope scope && !(unit == .week && scope == .month) &&
    !(unit == .month && scope == .epoch)

/-- The ordinal of a unit that counts as zero within the scope's period. -/
def base (unit scope : TimeUnit) (s : Int) : Int :=
  if scope = .epoch then 0
  else if unit = .week then
    (daysBeforeYear (yearOfDay (7 * ordinal .week s + 5)) + 1) / 7 - 1
  else ordinal unit (startOf scope s) - unit.resetValue.getD 0

/-- The value of a unit within a scope at a second. -/
def value (unit scope : TimeUnit) (s : Int) : Int := ordinal unit s - base unit scope s

theorem measured_legal {unit scope : TimeUnit} (h : measured unit scope = true) :
    unit.isLegalScope scope = true := by
  simp only [measured, Bool.and_eq_true] at h
  exact h.1.1

theorem measured_ne_epoch {unit scope : TimeUnit} (h : measured unit scope = true) :
    unit ≠ .epoch := by
  rintro rfl
  cases scope <;> revert h <;> decide

theorem nests_of_measured {unit scope : TimeUnit} (h : measured unit scope = true)
    (hscope : scope ≠ .epoch) (hweek : unit ≠ .week) : Nests scope unit :=
  ⟨hscope, hweek, TimeUnit.legal_coarser (measured_legal h)⟩

/-- A period of a scope begins with a period of the unit that is measured. -/
theorem startOf_startOf_scope {unit scope : TimeUnit} (h : measured unit scope = true)
    (hscope : scope ≠ .epoch) (hweek : unit ≠ .week) (s : Int) :
    startOf unit (startOf scope s) = startOf scope s :=
  startOf_begins (nests_of_measured h hscope hweek) _

/-! ## What the clock shows -/

theorem ordinal_month_begins_year (year : Int) :
    ordinal .month (begins .year year) = 12 * year := by
  rw [begins_year_eq, ordinal_begins (by decide)]

theorem day_eq (t : DateTime) :
    t.day = t.second / 86400 - monthStart (ordinal .month t.second) + 1 := by
  have hnumber := Date.dayNumber_ofDayNumber (t.second / 86400)
  have hvalid := Date.ofDayNumber_isValid (t.second / 86400)
  rw [monthStart_eq]
  simp only [DateTime.day, DateTime.date, DateTime.dayNumber, secondsPerDay, ordinal]
  generalize Date.ofDayNumber (t.second / 86400) = date at hnumber hvalid ⊢
  obtain ⟨h₁, h₂, -, -⟩ := hvalid
  have hyear : (12 * date.year + (date.month - 1)) / 12 = date.year := by omega
  have hmonth : (12 * date.year + (date.month - 1)) % 12 + 1 = date.month := by omega
  rw [hyear, hmonth]
  simp only [Date.dayNumber, Date.dayOfYear] at hnumber
  omega

theorem dayOfYear_eq (n : Int) :
    (Date.ofDayNumber n).dayOfYear = n - daysBeforeYear (yearOfDay n) + 1 := by
  have hnumber := Date.dayNumber_ofDayNumber n
  have hyear : (Date.ofDayNumber n).year = yearOfDay n := rfl
  simp only [Date.dayNumber, hyear] at hnumber
  omega

theorem secondsInto_eq (t : DateTime) (scope : TimeUnit) :
    t.secondsInto scope = t.second - startOf scope t.second := by
  have hday := t.secondsInto_day
  simp only [DateTime.secondsInto] at hday
  cases scope with
  | month =>
      simp only [DateTime.secondsInto, hday, day_eq, startOf, begins, secondsPerDay,
        DateTime.secondOfDay]
      omega
  | year =>
      simp only [DateTime.secondsInto, hday]
      simp only [DateTime.dayOfYear, DateTime.date, dayOfYear_eq, startOf, begins, ordinal,
        secondsPerDay, DateTime.secondOfDay, DateTime.dayNumber]
      omega
  | epoch | week | day =>
      simp only [DateTime.secondsInto, hday]
      simp only [startOf, begins, ordinal, secondsPerDay, DateTime.secondOfDay,
        DateTime.dayNumber, DateTime.daysSinceMonday]
      omega
  | hour =>
      simp only [DateTime.secondsInto_hour, startOf, begins, ordinal, secondsPerDay,
        DateTime.secondOfDay]
      omega
  | minute | second =>
      simp only [DateTime.secondsInto, startOf, begins, ordinal, secondsPerDay,
        DateTime.secondOfDay, DateTime.secondOfMinute]
      omega

/-- The number of the week in its year, from the week of January 4. -/
theorem weekOfYear_eq (t : DateTime) : t.weekOfYear = value .week .year t.second := by
  have hthursday : t.dayNumber - t.daysSinceMonday + 3 = 7 * ordinal .week t.second + 5 := by
    simp only [DateTime.dayNumber, DateTime.daysSinceMonday, secondsPerDay, ordinal]
    omega
  simp only [DateTime.weekOfYear, hthursday, dayOfYear_eq, value, base, reduceCtorEq, if_false,
    if_true]
  omega

theorem secondsInto_div (t : DateTime) {unit scope : TimeUnit} (htime : unit.isTime = true)
    (h : measured unit scope = true) :
    t.secondsInto scope / secondsPer unit = value unit scope t.second := by
  rw [secondsInto_eq]
  by_cases hscope : scope = .epoch
  · subst hscope
    cases unit <;> simp [TimeUnit.isTime] at htime <;>
      simp [value, base, startOf, begins, ordinal, secondsPer]
  · -- The scope begins on a whole unit, so the quotient is a difference of two quotients.
    have hweek : unit ≠ .week := by
      rintro rfl
      simp [TimeUnit.isTime] at htime
    have hstart := startOf_startOf_scope h hscope hweek t.second
    simp only [value, base, hscope, hweek, if_false]
    generalize startOf scope t.second = b at hstart ⊢
    cases unit <;> simp [TimeUnit.isTime] at htime <;>
      simp only [ordinal, secondsPer, TimeUnit.resetValue, Option.getD_some, startOf,
        begins] at hstart ⊢ <;>
      omega

/-- A unit is read as the distance of its ordinal from the base of the scope's period. -/
theorem measure_eq (t : DateTime) {unit scope : TimeUnit} (h : measured unit scope = true) :
    t.measure unit scope = some (value unit scope t.second) := by
  have hlegal := measured_legal h
  simp only [DateTime.measure, hlegal, if_true]
  cases unit with
  | epoch => exact absurd rfl (measured_ne_epoch h)
  | year =>
      cases scope <;> simp [measured, TimeUnit.isLegalScope, TimeUnit.legalScopes] at h
      simp [DateTime.measureLegal, value, base, ordinal, DateTime.year, DateTime.date,
        Date.ofDayNumber, DateTime.dayNumber, secondsPerDay]
  | month =>
      cases scope <;> simp [measured, TimeUnit.isLegalScope, TimeUnit.legalScopes] at h
      simp only [DateTime.measureLegal, value, base, startOf, reduceCtorEq, if_false,
        ordinal_month_begins_year, TimeUnit.resetValue, Option.getD_some]
      simp only [ordinal, DateTime.month, DateTime.date, DateTime.dayNumber, secondsPerDay,
        Option.some.injEq, Date.ofDayNumber]
      omega
  | week =>
      cases scope <;> simp [measured, TimeUnit.isLegalScope, TimeUnit.legalScopes] at h
      · simp [DateTime.measureLegal, value, base, ordinal, DateTime.weekOfEpoch,
          DateTime.dayNumber, secondsPerDay]
      · simp [DateTime.measureLegal, weekOfYear_eq]
  | day =>
      cases scope <;> simp [measured, TimeUnit.isLegalScope, TimeUnit.legalScopes] at h
      · simp [DateTime.measureLegal, value, base, ordinal, DateTime.dayNumber, secondsPerDay]
      · simp only [DateTime.measureLegal, DateTime.dayOfYear, DateTime.date, dayOfYear_eq, value,
          base, startOf, begins, ordinal, reduceCtorEq, if_false, TimeUnit.resetValue,
          Option.getD_some, Option.some.injEq, DateTime.dayNumber, secondsPerDay]
        omega
      · simp only [DateTime.measureLegal, day_eq, value, base, startOf, begins, reduceCtorEq,
          if_false, TimeUnit.resetValue, Option.getD_some, Option.some.injEq]
        simp only [ordinal]
        omega
      · simp only [DateTime.measureLegal, DateTime.daysSinceMonday, value, base, startOf, begins,
          ordinal, reduceCtorEq, if_false, TimeUnit.resetValue, Option.getD_some,
          Option.some.injEq, DateTime.dayNumber, secondsPerDay]
        omega
  | hour | minute | second =>
      rw [← secondsInto_div t rfl h]
      simp [DateTime.measureLegal, secondsPer]

/-- Two legal scopes are not measured, and illegal ones never are. -/
theorem measure_eq_none (t : DateTime) {unit scope : TimeUnit} (h : measured unit scope = false) :
    t.measure unit scope = none := by
  simp only [DateTime.measure]
  split
  · rename_i hlegal
    cases unit <;> cases scope <;> revert hlegal h <;> simp [measured, TimeUnit.isLegalScope,
      TimeUnit.legalScopes, DateTime.measureLegal]
  · rfl

/-! ## How values move -/

/-- The base within a scope never moves back. -/
theorem base_mono {unit scope : TimeUnit} {s s' : Int} (h : s ≤ s') :
    base unit scope s ≤ base unit scope s' := by
  unfold base
  split
  · exact Int.le_refl _
  · rename_i hscope
    split
    · -- The year that numbers a week is that of its Thursday, which is no earlier in a later week.
      have hweek := ordinal_mono .week h
      have hyear := ordinal_mono .year
        (show (7 * ordinal .week s + 5) * 86400 ≤ (7 * ordinal .week s' + 5) * 86400 by omega)
      have hbegins := begins_le_begins (show TimeUnit.year ≠ .epoch by decide) hyear
      simp only [begins] at hbegins
      rw [show ordinal .year ((7 * ordinal .week s + 5) * 86400) =
          yearOfDay (7 * ordinal .week s + 5) by simp [ordinal],
        show ordinal .year ((7 * ordinal .week s' + 5) * 86400) =
          yearOfDay (7 * ordinal .week s' + 5) by simp [ordinal]] at hbegins
      omega
    · have hstart := begins_le_begins hscope (ordinal_mono scope h)
      have := ordinal_mono unit hstart
      simp only [startOf]
      omega

theorem base_congr {unit scope : TimeUnit} (hm : measured unit scope = true) {s s' : Int}
    (h : ordinal unit s = ordinal unit s') : base unit scope s = base unit scope s' := by
  unfold base
  split
  · rfl
  · rename_i hscope
    split
    · rename_i hweek
      subst hweek
      rw [h]
    · rename_i hweek
      unfold startOf
      rw [ordinal_eq_of_nests (nests_of_measured hm hscope hweek) h]

/-- A value depends on the unit's period alone. -/
theorem value_congr {unit scope : TimeUnit} (hm : measured unit scope = true) {s s' : Int}
    (h : ordinal unit s = ordinal unit s') : value unit scope s = value unit scope s' := by
  unfold value
  rw [base_congr hm h, h]

/-- As time goes on a value grows at most as much as its unit's ordinal. -/
theorem value_le_of_le {unit scope : TimeUnit} {s s' : Int} (h : s ≤ s') :
    value unit scope s' ≤ value unit scope s + (ordinal unit s' - ordinal unit s) := by
  have := @base_mono unit scope _ _ h
  unfold value
  omega

theorem base_eq_of_ordinal_eq {unit scope : TimeUnit} (hweek : unit ≠ .week) {s s' : Int}
    (h : ordinal scope s = ordinal scope s') : base unit scope s = base unit scope s' := by
  simp only [base, hweek, if_false, startOf, h]

/-- A value that has fallen belongs to a later period of the scope. -/
theorem ordinal_lt_of_value_lt {unit scope : TimeUnit} (hweek : unit ≠ .week) {s s' : Int}
    (hle : s ≤ s') (h : value unit scope s' < value unit scope s) :
    ordinal scope s < ordinal scope s' := by
  rcases Int.lt_or_eq_of_le (ordinal_mono scope hle) with hlt | heq
  · exact hlt
  · have hbase := base_eq_of_ordinal_eq hweek heq
    have := ordinal_mono unit hle
    unfold value at h
    omega

/-- Within a scope other than the epoch a value is never below the one that its unit starts
from. -/
theorem first_le_value {unit scope : TimeUnit} {first : Int} (hfirst : unit.resetValue = some first)
    (hscope : scope ≠ .epoch) (s : Int) : first ≤ value unit scope s := by
  have hweek : unit ≠ .week := by
    rintro rfl
    simp [TimeUnit.resetValue] at hfirst
  have := ordinal_mono unit (startOf_bounds hscope s).1
  simp only [value, base, hscope, hweek, if_false, hfirst, Option.getD_some]
  omega

/-- A unit has its first value exactly in the first of its periods that the scope's period
holds. -/
theorem value_eq_first_iff {unit scope : TimeUnit} {first : Int}
    (hfirst : unit.resetValue = some first) (hscope : scope ≠ .epoch) (s : Int) :
    value unit scope s = first ↔ ordinal unit s = ordinal unit (startOf scope s) := by
  have hweek : unit ≠ .week := by
    rintro rfl
    simp [TimeUnit.resetValue] at hfirst
  simp only [value, base, hscope, hweek, if_false, hfirst, Option.getD_some]
  omega

end Cadence.Civil

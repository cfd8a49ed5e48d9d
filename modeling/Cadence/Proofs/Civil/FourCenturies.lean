import Cadence.Calendar
import Cadence.Proofs.Civil.Moved

/-!
# Four centuries

Four centuries are a whole number of periods of every unit: of years and months, because leap years
repeat after 400 years, and also of weeks.  So whatever is measured within a scope other than the
epoch shows the same value four centuries later (`value_add`), and shifts lead to dates that are four
centuries apart (`moved_add`).  The year is 400 higher.
-/

namespace Cadence.Civil

/-- The number of seconds in four centuries. -/
def fourCenturies : Int := 146097 * 86400

/-- The number of periods of a unit in four centuries. -/
def periodsInFourCenturies : TimeUnit → Int
  | .epoch => 0
  | .year => 400
  | .month => 4800
  | .week => 20871
  | .day => 146097
  | .hour => 146097 * 24
  | .minute => 146097 * 1440
  | .second => 146097 * 86400

/-! ## Years and months -/

theorem isLeapYear_add (year : Int) : isLeapYear (year + 400) = isLeapYear year := by
  have h₄ : (year + 400) % 4 = year % 4 := by omega
  have h₁₀₀ : (year + 400) % 100 = year % 100 := by omega
  have h₄₀₀ : (year + 400) % 400 = year % 400 := by omega
  simp only [isLeapYear, h₄, h₁₀₀, h₄₀₀]

theorem daysBeforeYear_add (year : Int) :
    daysBeforeYear (year + 400) = daysBeforeYear year + 146097 := by
  simp only [daysBeforeYear]
  omega

theorem monthDays_add (k : Int) : monthDays (k + 4800) = monthDays k := by
  have hyear : (k + 4800) / 12 = k / 12 + 400 := by omega
  have hmonth : (k + 4800) % 12 = k % 12 := by omega
  rw [monthDays, monthDays, hyear, hmonth, isLeapYear_add]

theorem monthStart_add (k : Int) : monthStart (k + 4800) = monthStart k + 146097 := by
  have hyear : (k + 4800) / 12 = k / 12 + 400 := by omega
  have hmonth : (k + 4800) % 12 = k % 12 := by omega
  rw [monthStart_eq, monthStart_eq, hyear, hmonth, isLeapYear_add, daysBeforeYear_add]
  omega

/-! ## Periods -/

theorem begins_add {unit : TimeUnit} (hunit : unit ≠ .epoch) (k : Int) :
    begins unit (k + periodsInFourCenturies unit) = begins unit k + fourCenturies := by
  cases unit with
  | epoch => exact absurd rfl hunit
  | year =>
      have := daysBeforeYear_add k
      simp only [begins, periodsInFourCenturies, fourCenturies]
      omega
  | month =>
      have := monthStart_add k
      simp only [begins, periodsInFourCenturies, fourCenturies]
      omega
  | second => rfl
  | week | day | hour | minute =>
      simp only [begins, periodsInFourCenturies, fourCenturies]
      omega

theorem ordinal_add (unit : TimeUnit) (s : Int) :
    ordinal unit (s + fourCenturies) = ordinal unit s + periodsInFourCenturies unit := by
  by_cases hunit : unit = .epoch
  · subst hunit
    rfl
  · -- The second lies in its period, and four centuries later in the period that begins then.
    obtain ⟨hstart, hend⟩ := startOf_bounds hunit s
    rw [ordinal_eq_iff hunit, begins_add hunit,
      show ordinal unit s + periodsInFourCenturies unit + 1 =
        ordinal unit s + 1 + periodsInFourCenturies unit by omega, begins_add hunit]
    unfold startOf at hstart
    omega

theorem startOf_add {unit : TimeUnit} (hunit : unit ≠ .epoch) (s : Int) :
    startOf unit (s + fourCenturies) = startOf unit s + fourCenturies := by
  rw [startOf, ordinal_add, begins_add hunit, startOf]

theorem base_add {unit scope : TimeUnit} (hscope : scope ≠ .epoch) (s : Int) :
    base unit scope (s + fourCenturies) = base unit scope s + periodsInFourCenturies unit := by
  simp only [base, hscope, if_false]
  split
  · rename_i hweek
    subst hweek
    -- The Thursday of the week lies four centuries later, too, so its year is 400 higher.
    have hthursday := ordinal_add .year ((7 * ordinal .week s + 5) * 86400)
    rw [ordinal_add]
    simp only [ordinal, periodsInFourCenturies, fourCenturies] at hthursday ⊢
    rw [show 7 * ((s / 86400 - 2) / 7 + 20871) + 5 =
        ((7 * ((s / 86400 - 2) / 7) + 5) * 86400 + 146097 * 86400) / 86400 by omega, hthursday,
      daysBeforeYear_add,
      show (7 * ((s / 86400 - 2) / 7) + 5) * 86400 / 86400 = 7 * ((s / 86400 - 2) / 7) + 5 by omega]
    omega
  · rw [startOf_add hscope, ordinal_add]
    omega

/-- Within a scope other than the epoch the same value is shown. -/
theorem value_add {unit scope : TimeUnit} (hscope : scope ≠ .epoch) (s : Int) :
    value unit scope (s + fourCenturies) = value unit scope s := by
  simp only [value, ordinal_add, base_add hscope]
  omega

theorem value_year_add (s : Int) :
    value .year .epoch (s + fourCenturies) = value .year .epoch s + 400 := by
  simp only [value, base, ordinal_add, if_true, periodsInFourCenturies]
  omega

/-! ## Shifts -/

theorem monthsLater_add (s k : Int) :
    monthsLater (s + fourCenturies) k = monthsLater s k + fourCenturies := by
  have hmonth : ordinal .month (s + fourCenturies) = ordinal .month s + 4800 := ordinal_add _ _
  have horder : ordinal .month s + 4800 + k = ordinal .month s + k + 4800 := by omega
  simp only [monthsLater, hmonth, horder, monthStart_add, monthDays_add]
  simp only [fourCenturies]
  omega

theorem moved_add (unit : TimeUnit) (s k : Int) :
    moved unit (s + fourCenturies) k = moved unit s k + fourCenturies := by
  cases unit with
  | year | month => exact monthsLater_add _ _
  | epoch | week | day | hour | minute | second =>
      simp only [moved]
      omega

/-! ## Datetimes -/

namespace DateTime

/-- The same month, day and time 400 years later, if that is in range. -/
def fourCenturiesLater? (t : DateTime) : Option DateTime :=
  atDate? ⟨t.year + 400, t.month, t.day⟩ t.secondOfDay t.nano

theorem fourCenturiesLater?_eq_some {t t' : DateTime} :
    t.fourCenturiesLater? = some t' ↔
      t'.second = t.second + fourCenturies ∧ t'.nano = t.nano := by
  have hnumber : t.date.dayNumber = t.second / 86400 := Date.dayNumber_ofDayNumber _
  have hlater : (Date.mk (t.year + 400) t.month t.day).dayNumber = t.date.dayNumber + 146097 := by
    show daysBeforeYear (t.year + 400) +
        (daysBeforeMonth (isLeapYear (t.year + 400)) t.month + t.day) - 1 =
      daysBeforeYear t.year + (daysBeforeMonth (isLeapYear t.year) t.month + t.day) - 1 + 146097
    rw [isLeapYear_add, daysBeforeYear_add]
    omega
  rw [fourCenturiesLater?, atDate?, of?_eq_some, hlater, hnumber]
  simp only [secondsPerDay, secondOfDay, fourCenturies]
  omega

end DateTime

end Cadence.Civil

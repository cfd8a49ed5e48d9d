import Cadence.Proofs.Search.Reset

/-!
# The start of a period

Which period of a unit holds a datetime can be told from what a calendar and a clock show
(`DateTime.period`), and ordinals number these periods (`DateTime.period_eq_iff`).  Resetting all
units below a unit within the unit itself therefore leads to the first second of the period that
holds the datetime, and nothing that is read for the unit changes on the way
(`Frequency.resetBelow_periodStart`).
-/

namespace Cadence

namespace Civil.DateTime

/-- The period of a unit that holds a datetime: its fields down to the unit.  A week is told by the
day number of its Monday. -/
def period (t : DateTime) : TimeUnit → List Int
  | .epoch => []
  | .year => [t.year]
  | .month => [t.year, t.month]
  | .week => [t.dayNumber - t.daysSinceMonday]
  | .day => [t.year, t.month, t.day]
  | .hour => [t.year, t.month, t.day, t.hour]
  | .minute => [t.year, t.month, t.day, t.hour, t.minute]
  | .second => [t.year, t.month, t.day, t.hour, t.minute, t.secondOfMinute]

variable {a b : DateTime}

theorem fields_eq_iff : (a.year = b.year ∧ a.month = b.month ∧ a.day = b.day) ↔
    a.second / 86400 = b.second / 86400 := by
  constructor
  · rintro ⟨hyear, hmonth, hday⟩
    have hdate : a.date = b.date := by
      show Date.mk a.year a.month a.day = Date.mk b.year b.month b.day
      rw [hyear, hmonth, hday]
    have hnumber := congrArg Date.dayNumber hdate
    rwa [date, date, Date.dayNumber_ofDayNumber, Date.dayNumber_ofDayNumber] at hnumber
  · intro hnumber
    have hdate : a.date = b.date := congrArg Date.ofDayNumber hnumber
    exact ⟨congrArg Date.year hdate, congrArg Date.month hdate, congrArg Date.day hdate⟩

/-- Months are counted through the years. -/
theorem ordinal_month_eq (t : DateTime) :
    ordinal .month t.second = 12 * t.year + (t.month - 1) ∧ 1 ≤ t.month ∧ t.month ≤ 12 := by
  obtain ⟨hfirst, hlast, -, -⟩ := Date.ofDayNumber_isValid t.dayNumber
  exact ⟨rfl, hfirst, hlast⟩

/-- Ordinals number the periods of a unit. -/
theorem period_eq_iff (unit : TimeUnit) :
    a.period unit = b.period unit ↔ ordinal unit a.second = ordinal unit b.second := by
  have hfields := @fields_eq_iff a b
  cases unit with
  | epoch => exact iff_of_true rfl rfl
  | year => exact List.singleton_inj
  | month =>
      obtain ⟨ha, ha₁, ha₁₂⟩ := a.ordinal_month_eq
      obtain ⟨hb, hb₁, hb₁₂⟩ := b.ordinal_month_eq
      simp only [period, List.cons.injEq, and_true, ha, hb]
      omega
  | week =>
      simp only [period, List.cons.injEq, and_true, dayNumber, daysSinceMonday, secondsPerDay,
        ordinal]
      omega
  | day =>
      simp only [period, List.cons.injEq, and_true, ordinal]
      exact hfields
  | hour | minute | second =>
      simp only [period, List.cons.injEq, and_true, hour, minute, secondOfMinute, secondOfDay,
        secondsPerDay, ordinal]
      omega

end Civil.DateTime

open Civil

namespace Frequency

/-- Resetting all units below a unit within the unit itself leads to the first second of the period
that holds the datetime.  All that can be read for the unit is the same from there on. -/
theorem resetBelow_periodStart (f : Frequency) {unit : TimeUnit} (hunit : unit ≠ .epoch)
    (t : DateTime) :
    ∃ e, f.search.resetBelow t unit unit = .ok e ∧ e.nano = t.nano ∧ ¬t < e ∧
      (∀ m : DateTime, ¬m < e → ¬t < m →
        m.period unit = t.period unit ∧ ∀ scope, m.read unit scope = t.read unit scope) ∧
      ∀ m : DateTime, m.second < e.second → m.period unit ≠ t.period unit := by
  obtain ⟨hstart, hend⟩ := startOf_bounds hunit t.second
  refine ⟨t.floor unit, Search.resetBelow_self f.search_subtracts hunit t, rfl, ?_, ?_, ?_⟩
  · rw [DateTime.lt_def, DateTime.floor_second, DateTime.floor_nano]
    omega
  · intro m hfrom hto
    rw [DateTime.lt_def, DateTime.floor_second, DateTime.floor_nano] at hfrom
    rw [DateTime.lt_def] at hto
    have hordinal : ordinal unit m.second = ordinal unit t.second := by
      rw [ordinal_eq_iff hunit]
      exact ⟨show startOf unit t.second ≤ m.second by omega, by omega⟩
    refine ⟨(DateTime.period_eq_iff unit).mpr hordinal, fun scope => ?_⟩
    cases hm : measured unit scope with
    | true =>
        rw [DateTime.read, DateTime.read, measure_eq m hm, measure_eq t hm,
          value_congr hm hordinal]
    | false => rw [DateTime.read, DateTime.read, measure_eq_none m hm, measure_eq_none t hm]
  · intro m hbefore hperiod
    rw [DateTime.period_eq_iff] at hperiod
    have hreached := startOf_le_of_ordinal_le hunit (Int.le_of_eq hperiod.symm)
    rw [DateTime.floor_second] at hbefore
    omega

/-- The first Sunday of 2016, which is in the last week of 2015. -/
def firstSundayOf2016 : DateTime := (DateTime.atDate? ⟨2016, 1, 3⟩ 45296 0).get rfl

/-- The week of the first Sunday of 2016 began in 2015. -/
theorem resetBelow_firstSundayOf2016 :
    TimeUnit.week ≠ .epoch ∧ ∃ e,
      (empty .empty).search.resetBelow firstSundayOf2016 .week .week = .ok e ∧
      e.text = "2015-12-28T00:00:00" ∧
      (∀ m : DateTime, ¬m < e → ¬firstSundayOf2016 < m →
        m.period .week = firstSundayOf2016.period .week ∧
          ∀ scope, m.read .week scope = firstSundayOf2016.read .week scope) ∧
      ∀ m : DateTime, m.second < e.second → m.period .week ≠ firstSundayOf2016.period .week := by
  have hweek : TimeUnit.week ≠ .epoch := by decide
  obtain ⟨e, he, -, -, hsame, hother⟩ :=
    resetBelow_periodStart (empty .empty) hweek firstSundayOf2016
  refine ⟨hweek, e, he, ?_, hsame, hother⟩
  have htext : ((empty .empty).search.resetBelow firstSundayOf2016 .week .week).map
      DateTime.text = .ok "2015-12-28T00:00:00" := by
    decide +kernel
  rw [he] at htext
  exact Except.ok.inj htext

end Frequency

end Cadence

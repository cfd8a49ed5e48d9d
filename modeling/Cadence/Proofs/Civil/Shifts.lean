import Cadence.Proofs.Civil.Readings
import Cadence.Proofs.Civil.Usual

/-!
# What shifts do to readings

A shift moves exactly its unit.  Weeks and days move the day within the epoch and keep the time of
day, time units move the second within the epoch, and months and years move the month, keep the time
of day and shorten the day to the length of the month reached (`DateTime.IsLater`).  So a shift is
undone by the opposite one unless it has shortened the day (`DateTime.shift_exact`).
-/

namespace Cadence.Civil

/-- The length of a month that is counted from the first one of year zero. -/
theorem monthDays_eq {year month : Int} (h₁ : 1 ≤ month) (h₂ : month ≤ 12) :
    monthDays (12 * year + (month - 1)) = monthLength (isLeapYear year) month := by
  have hyear : (12 * year + (month - 1)) / 12 = year := by omega
  have hmonth : (12 * year + (month - 1)) % 12 + 1 = month := by omega
  rw [monthDays, hyear, hmonth]

/-- The range holds the years from -9999 to 9999. -/
theorem inRange_iff_year (s : Int) :
    (firstSecond ≤ s ∧ s ≤ lastSecond) ↔ -9999 ≤ ordinal .year s ∧ ordinal .year s ≤ 9999 := by
  have hfirst : begins .year (-9999) = firstSecond := by decide
  have hlast : begins .year 10000 = lastSecond + 1 := by decide
  have hlow := le_ordinal_iff (show TimeUnit.year ≠ .epoch by decide) (k := -9999) (s := s)
  have hhigh := ordinal_lt_iff (show TimeUnit.year ≠ .epoch by decide) (k := 10000) (s := s)
  rw [hfirst] at hlow
  rw [hlast] at hhigh
  omega

namespace DateTime

/-- A datetime lies a number of days after another one, at the same time of day. -/
structure IsDaysLater (t : DateTime) (k : Int) (t' : DateTime) : Prop where
  day : t'.readValue .day .epoch = t.readValue .day .epoch + k
  time : t'.readValue .second .day = t.readValue .second .day
  fraction : t'.nano = t.nano

/-- A datetime lies a number of seconds after another one. -/
structure IsSecondsLater (t : DateTime) (k : Int) (t' : DateTime) : Prop where
  second : t'.readValue .second .epoch = t.readValue .second .epoch + k
  fraction : t'.nano = t.nano

/-- A datetime lies a number of months after another one, at the same time of the same day, or of
the last day if the month has no such day. -/
structure IsMonthsLater (t : DateTime) (k : Int) (t' : DateTime) : Prop where
  month : 12 * t'.readValue .year .epoch + t'.readValue .month .year =
    12 * t.readValue .year .epoch + t.readValue .month .year + k
  day : t'.readValue .day .month = min (t.readValue .day .month)
    (monthLength (isLeapYear (t'.readValue .year .epoch)) (t'.readValue .month .year))
  time : t'.readValue .second .day = t.readValue .second .day
  fraction : t'.nano = t.nano

/-- What the readings of a datetime have to be for it to lie a number of units after another one. -/
def IsLater (t : DateTime) : TimeUnit → Int → DateTime → Prop
  | .epoch, _ => fun _ => False
  | .year, k => t.IsMonthsLater (12 * k)
  | .month, k => t.IsMonthsLater k
  | .week, k => t.IsDaysLater (7 * k)
  | .day, k => t.IsDaysLater k
  | .hour, k => t.IsSecondsLater (3600 * k)
  | .minute, k => t.IsSecondsLater (60 * k)
  | .second, k => t.IsSecondsLater k

/-- The time that lies a number of units after a datetime is in range. -/
def ReachesRange (t : DateTime) : TimeUnit → Int → Prop
  | .epoch, _ => False
  | .year, k => -9999 ≤ t.readValue .year .epoch + k ∧ t.readValue .year .epoch + k ≤ 9999
  | .month, k =>
      12 * -9999 + 1 ≤ 12 * t.readValue .year .epoch + t.readValue .month .year + k ∧
        12 * t.readValue .year .epoch + t.readValue .month .year + k ≤ 12 * 9999 + 12
  | unit, k =>
      firstSecond ≤ t.readValue .second .epoch + secondsPer unit * k ∧
        t.readValue .second .epoch + secondsPer unit * k ≤ lastSecond

/-! ## Months -/

theorem month_bounds (t : DateTime) : 1 ≤ t.month ∧ t.month ≤ 12 :=
  have hvalid : t.date.IsValid := Date.ofDayNumber_isValid t.dayNumber
  ⟨hvalid.1, hvalid.2.1⟩

theorem day_le_monthLength (t : DateTime) : t.day ≤ monthLength (isLeapYear t.year) t.month :=
  have hvalid : t.date.IsValid := Date.ofDayNumber_isValid t.dayNumber
  hvalid.2.2.2

theorem monthDays_ordinal (t : DateTime) :
    monthDays (ordinal .month t.second) = monthLength (isLeapYear t.year) t.month :=
  monthDays_eq t.month_bounds.1 t.month_bounds.2

/-- Month, day and time make up the second. -/
theorem second_eq_of_month (t : DateTime) :
    t.second =
      (monthStart (ordinal .month t.second) + (t.day - 1)) * 86400 + t.second % 86400 := by
  have hday := day_eq t
  omega

theorem isMonthsLater_iff {t t' : DateTime} {k : Int} :
    t.IsMonthsLater k t' ↔ t'.second = monthsLater t.second k ∧ t'.nano = t.nano := by
  have hmonth : ordinal .month t.second = 12 * t.year + (t.month - 1) := rfl
  have hmonth' : ordinal .month t'.second = 12 * t'.year + (t'.month - 1) := rfl
  have hday := day_eq t
  have hday' := t'.second_eq_of_month
  have hlength := t'.monthDays_ordinal
  constructor
  · rintro ⟨hmonths, hdays, htime, hnano⟩
    change 12 * t'.year + t'.month = 12 * t.year + t.month + k at hmonths
    change t'.day = min t.day (monthLength (isLeapYear t'.year) t'.month) at hdays
    rw [readValue_second_day, readValue_second_day] at htime
    have hreached : ordinal .month t'.second = ordinal .month t.second + k := by omega
    refine ⟨?_, hnano⟩
    rw [hreached] at hday' hlength
    simp only [monthsLater]
    omega
  · rintro ⟨hsecond, hnano⟩
    have hreached := ordinal_monthsLater t.second k
    have htime := monthsLater_mod t.second k
    have hdiv := monthsLater_div t.second k
    rw [← hsecond] at hreached htime hdiv
    rw [hreached] at hday' hlength
    rw [← readValue_second_day, ← readValue_second_day] at htime
    refine ⟨?_, ?_, htime, hnano⟩
    · show 12 * t'.year + t'.month = 12 * t.year + t.month + k
      omega
    · show t'.day = min t.day (monthLength (isLeapYear t'.year) t'.month)
      omega

/-- A shift by months is undone unless it has shortened the day. -/
theorem IsMonthsLater.symm_iff {t t' : DateTime} {k : Int} (h : t.IsMonthsLater k t') :
    t'.IsMonthsLater (-k) t ↔ t'.readValue .day .month = t.readValue .day .month := by
  have hlength := t.day_le_monthLength
  obtain ⟨hmonth, hday, htime, hnano⟩ := h
  constructor
  · intro hback
    have hday' := hback.day
    omega
  · intro hkept
    refine ⟨by omega, ?_, htime.symm, hnano.symm⟩
    change t'.day = t.day at hkept
    show t.day = min t'.day (monthLength (isLeapYear t.year) t.month)
    omega

/-! ## Shifts -/

theorem isLater_iff {t t' : DateTime} {unit : TimeUnit} (hunit : unit ≠ .epoch) {k : Int} :
    t.IsLater unit k t' ↔ t'.second = moved unit t.second k ∧ t'.nano = t.nano := by
  have hdays (n : Int) : t.IsDaysLater n t' ↔
      t'.second = t.second + 86400 * n ∧ t'.nano = t.nano := by
    constructor
    · rintro ⟨hday, htime, hnano⟩
      change t'.second / 86400 = t.second / 86400 + n at hday
      rw [readValue_second_day, readValue_second_day] at htime
      exact ⟨by omega, hnano⟩
    · rintro ⟨hsecond, hnano⟩
      refine ⟨?_, ?_, hnano⟩
      · show t'.second / 86400 = t.second / 86400 + n
        omega
      · rw [readValue_second_day, readValue_second_day]
        omega
  have hseconds (n : Int) : t.IsSecondsLater n t' ↔
      t'.second = t.second + n ∧ t'.nano = t.nano := by
    rw [← readValue_second_epoch t, ← readValue_second_epoch t']
    exact ⟨fun h => ⟨h.second, h.fraction⟩, fun h => ⟨h.1, h.2⟩⟩
  cases unit with
  | epoch => exact absurd rfl hunit
  | year | month => exact isMonthsLater_iff
  | week =>
      refine (hdays (7 * k)).trans ?_
      simp only [moved, secondsPer]
      omega
  | day => exact hdays k
  | hour => exact hseconds (3600 * k)
  | minute => exact hseconds (60 * k)
  | second =>
      refine (hseconds k).trans ?_
      simp only [moved, secondsPer]
      omega

theorem reachesRange_iff (t : DateTime) {unit : TimeUnit} (hunit : unit ≠ .epoch) (k : Int) :
    t.ReachesRange unit k ↔
      firstSecond ≤ moved unit t.second k ∧ moved unit t.second k ≤ lastSecond := by
  have hmonth : ordinal .month t.second = 12 * t.year + (t.month - 1) := rfl
  have hbounds := t.month_bounds
  cases unit with
  | epoch => exact absurd rfl hunit
  | year =>
      rw [inRange_iff_year, ordinal_moved hunit]
      rfl
  | month =>
      rw [inRange_iff_year, moved, ordinal_year_monthsLater, hmonth]
      show 12 * -9999 + 1 ≤ 12 * t.year + t.month + k ∧
        12 * t.year + t.month + k ≤ 12 * 9999 + 12 ↔ _
      omega
  | week | day | hour | minute | second =>
      simp only [ReachesRange, readValue_second_epoch]
      exact Iff.rfl

theorem withinShiftLimit_neg (unit : TimeUnit) (k : Int) :
    withinShiftLimit unit (-k) = withinShiftLimit unit k := by
  rw [Bool.eq_iff_iff]
  simp only [withinShiftLimit, Bool.and_eq_true, decide_eq_true_eq]
  omega

/-- Shifts by weeks and finer units are always undone by the opposite ones, shifts by months and
years if they have kept the day. -/
theorem isLater_neg_iff {t t' : DateTime} {unit : TimeUnit} {k : Int} (h : t.IsLater unit k t') :
    t'.IsLater unit (-k) t ↔
      (unit = .year ∨ unit = .month → t'.readValue .day .month = t.readValue .day .month) := by
  cases unit with
  | epoch => exact h.elim
  | year =>
      simp only [true_or, true_implies]
      rw [← IsMonthsLater.symm_iff h, IsLater, Int.mul_neg]
  | month =>
      simp only [or_true, true_implies]
      exact IsMonthsLater.symm_iff h
  | week | day =>
      obtain ⟨hday, htime, hnano⟩ := h
      simp only [reduceCtorEq, or_self, false_implies, iff_true]
      exact ⟨by omega, htime.symm, hnano.symm⟩
  | hour | minute | second =>
      obtain ⟨hsecond, hnano⟩ := h
      simp only [reduceCtorEq, or_self, false_implies, iff_true]
      exact ⟨by omega, hnano.symm⟩

/-- Within its limit and the range a shift leads to the datetime that lies a number of units later,
and otherwise it leaves the range.  The opposite shift leads back, unless the first one was by months
or years and has shortened the day. -/
theorem shift_exact (t : DateTime) {unit : TimeUnit} (hunit : unit ≠ .epoch) (k : Int) :
    (withinShiftLimit unit k = true → t.ReachesRange unit k →
      ∃ t', t.shift unit k = .ok t' ∧ t.IsLater unit k t' ∧
        (t'.shift unit (-k) = .ok t ↔
          (unit = .year ∨ unit = .month →
            t'.readValue .day .month = t.readValue .day .month))) ∧
      (withinShiftLimit unit k = false ∨ ¬t.ReachesRange unit k →
        t.shift unit k = .error .outOfRange) := by
  constructor
  · intro hlimit hrange
    obtain ⟨t', hshift, hmoved⟩ :=
      exists_shift t hunit hlimit ((t.reachesRange_iff hunit k).mp hrange)
    have hlater : t.IsLater unit k t' := (isLater_iff hunit).mpr hmoved
    refine ⟨t', hshift, hlater, ?_⟩
    rw [shift_eq_ok, ← isLater_iff hunit, isLater_neg_iff hlater, withinShiftLimit_neg]
    simp [hunit, hlimit]
  · intro hbeyond
    cases hshift : t.shift unit k with
    | error e => rw [shift_eq_error hunit hshift]
    | ok t' =>
        -- A shift that succeeds keeps to its limit and stays in range.
        obtain ⟨-, hlimit, hsecond, -⟩ := shift_eq_ok.mp hshift
        have hrange : t.ReachesRange unit k := by
          rw [t.reachesRange_iff hunit, ← hsecond]
          exact t'.inRange
        rcases hbeyond with hbeyond | hbeyond
        · rw [hlimit] at hbeyond
          cases hbeyond
        · exact absurd hrange hbeyond

/-- Ten o'clock on the last day of a January. -/
def endOfJanuary : DateTime := (atDate? ⟨2013, 1, 31⟩ 36000 0).get rfl

/-- Ten o'clock on the last day of the month after it. -/
def endOfFebruary : DateTime := (atDate? ⟨2013, 2, 28⟩ 36000 0).get rfl

/-- February is too short for the day, so the shift is not undone.  Many years are beyond the limit
of shifts. -/
theorem shift_endOfJanuary :
    (withinShiftLimit .month 1 = true ∧ endOfJanuary.ReachesRange .month 1 ∧
      endOfJanuary.shift .month 1 = .ok endOfFebruary ∧
      endOfJanuary.IsLater .month 1 endOfFebruary ∧
      endOfFebruary.shift .month (-1) ≠ .ok endOfJanuary) ∧
      withinShiftLimit .year 100000 = false ∧
      endOfJanuary.shift .year 100000 = .error .outOfRange := by
  have hlimit : withinShiftLimit .month 1 = true := by decide
  have hrange : endOfJanuary.ReachesRange .month 1 := ⟨by decide, by decide⟩
  have hfebruary : endOfJanuary.shift .month 1 = .ok endOfFebruary := by decide +kernel
  obtain ⟨t', hshift, hlater, hback⟩ := (endOfJanuary.shift_exact (by decide) 1).1 hlimit hrange
  rw [hfebruary] at hshift
  cases hshift
  refine ⟨⟨hlimit, hrange, hfebruary, hlater, ?_⟩, by decide, ?_⟩
  · intro h
    have hday := hback.mp h (.inr rfl)
    revert hday
    decide +kernel
  · exact (endOfJanuary.shift_exact (by decide) 100000).2 (.inl (by decide))

end DateTime

end Cadence.Civil

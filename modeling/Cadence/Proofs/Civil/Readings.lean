import Mathlib.Algebra.Order.BigOperators.Group.LocallyFinite
import Mathlib.Data.Int.ConditionallyCompleteOrder
import Mathlib.Data.Int.Interval
import Mathlib.Data.Int.SuccPred
import Cadence.Calendar
import Cadence.Proofs.Civil.Value

/-!
# Readings of one datetime

A datetime is read in about two dozen ways, each computed on its own.  They say the same thing
(`DateTime.read_agree`): days of the epoch are weeks and weekdays, days of the year are months and
days of the month, the week of the year is told by the Thursday of the week, and the time units
within every scope follow from the days that are over and the time of day.
-/

namespace Cadence.Civil

/-- The months before a month have as many days as their lengths add up to. -/
theorem daysBeforeMonth_eq_sum (leap : Bool) {month : Int} (h₁ : 1 ≤ month) (h₂ : month ≤ 12) :
    daysBeforeMonth leap month = ∑ m ∈ Finset.Ico 1 month, monthLength leap m := by
  induction month, h₁ using Int.leInduction with
  | base => rfl
  | succ month h₁ ih =>
      rw [daysBeforeMonth_succ leap h₁ (by omega), ih (by omega),
        Finset.sum_Ico_add_eq_sum_Ico_add_one h₁]

namespace DateTime

/-- The value that is read for a unit within a scope, and zero where none is. -/
def readValue (t : DateTime) (unit scope : TimeUnit) : Int := (t.measure unit scope).getD 0

theorem read_eq_readValue (t : DateTime) {unit scope : TimeUnit} (h : measured unit scope = true) :
    t.read unit scope = .ok (t.readValue unit scope) := by
  rw [read_eq_ok, readValue, measure_eq t h]
  rfl

/-- A datetime on the Thursday of the week of another one, where weeks begin on Monday. -/
structure OnThursdayOf (thursday t : DateTime) : Prop where
  week : thursday.readValue .week .epoch = t.readValue .week .epoch
  weekday : thursday.readValue .day .week = 4

/-- The number of days that are over of the period of a scope. -/
def daysOver (t : DateTime) : TimeUnit → Int
  | .week => t.readValue .day .week - 1
  | .month => t.readValue .day .month - 1
  | .year => t.readValue .day .year - 1
  | .epoch => t.readValue .day .epoch
  | _ => 0

/-- What the readings of a datetime have to do with one another. -/
structure ReadingsAgree (t : DateTime) : Prop where
  dayOfEpoch : t.readValue .day .epoch = 7 * t.readValue .week .epoch + t.readValue .day .week + 1
  dayOfYear : t.readValue .day .year = t.readValue .day .month +
    ∑ month ∈ Finset.Ico 1 (t.readValue .month .year),
      monthLength (isLeapYear (t.readValue .year .epoch)) month
  exists_thursday : ∃ thursday : DateTime, thursday.OnThursdayOf t
  weekOfYear (thursday : DateTime) (h : thursday.OnThursdayOf t) :
    t.readValue .week .year = 1 + (thursday.readValue .day .year - 1) / 7
  second (scope : TimeUnit) (h : scope ≤ .day) :
    t.readValue .second scope = 86400 * t.daysOver scope + t.readValue .second .day
  hour (scope : TimeUnit) (h : TimeUnit.hour.isLegalScope scope = true) :
    t.readValue .hour scope = t.readValue .second scope / 3600
  minute (scope : TimeUnit) (h : TimeUnit.minute.isLegalScope scope = true) :
    t.readValue .minute scope = t.readValue .second scope / 60
  secondOfHour : t.readValue .second .hour = t.readValue .second .day % 3600
  secondOfMinute : t.readValue .second .minute = t.readValue .second .day % 60

/-! ## Days -/

theorem readValue_day_epoch (t : DateTime) :
    t.readValue .day .epoch = 7 * t.readValue .week .epoch + t.readValue .day .week + 1 := by
  show t.dayNumber = 7 * ((t.dayNumber - 2) / 7) + ((t.dayNumber + 5) % 7 + 1) + 1
  omega

theorem readValue_day_year (t : DateTime) :
    t.readValue .day .year = t.readValue .day .month +
      ∑ month ∈ Finset.Ico 1 (t.readValue .month .year),
        monthLength (isLeapYear (t.readValue .year .epoch)) month := by
  obtain ⟨hfirst, hlast, -, -⟩ : t.date.IsValid := Date.ofDayNumber_isValid t.dayNumber
  change 1 ≤ t.month at hfirst
  change t.month ≤ 12 at hlast
  show daysBeforeMonth (isLeapYear t.year) t.month + t.day =
    t.day + ∑ month ∈ Finset.Ico 1 t.month, monthLength (isLeapYear t.year) month
  rw [daysBeforeMonth_eq_sum _ hfirst hlast, Int.add_comm]

/-! ## The week of the year -/

/-- The Thursday of a week is in range, since the range begins on a Monday and ends on a Friday. -/
theorem exists_onThursdayOf (t : DateTime) : ∃ thursday : DateTime, thursday.OnThursdayOf t := by
  have hrange := t.inRange
  have hthursday : firstSecond ≤ (t.second / 86400 - (t.second / 86400 + 5) % 7 + 3) * 86400 ∧
      (t.second / 86400 - (t.second / 86400 + 5) % 7 + 3) * 86400 ≤ lastSecond := by
    simp only [firstSecond, lastSecond] at hrange ⊢
    omega
  refine ⟨⟨_, 0, hthursday, by decide⟩, ?_, ?_⟩
  · show ((t.second / 86400 - (t.second / 86400 + 5) % 7 + 3) * 86400 / 86400 - 2) / 7 =
      (t.second / 86400 - 2) / 7
    omega
  · show ((t.second / 86400 - (t.second / 86400 + 5) % 7 + 3) * 86400 / 86400 + 5) % 7 + 1 = 4
    omega

theorem readValue_week_year {t thursday : DateTime} (h : thursday.OnThursdayOf t) :
    t.readValue .week .year = 1 + (thursday.readValue .day .year - 1) / 7 := by
  have hweek : (thursday.dayNumber - 2) / 7 = (t.dayNumber - 2) / 7 := h.week
  have hweekday : (thursday.dayNumber + 5) % 7 + 1 = 4 := h.weekday
  have hday : t.dayNumber - (t.dayNumber + 5) % 7 + 3 = thursday.dayNumber := by omega
  show ((Date.ofDayNumber (t.dayNumber - (t.dayNumber + 5) % 7 + 3)).dayOfYear - 1) / 7 + 1 =
    1 + ((Date.ofDayNumber thursday.dayNumber).dayOfYear - 1) / 7
  rw [hday, Int.add_comm]

/-! ## Times -/

theorem readValue_second (t : DateTime) {scope : TimeUnit} (h : scope ≤ .day) :
    t.readValue .second scope = 86400 * t.daysOver scope + t.readValue .second .day := by
  cases scope with
  | epoch =>
      show t.dayNumber * 86400 + t.secondsInto .day = 86400 * t.dayNumber + t.secondsInto .day
      omega
  | year =>
      show (t.dayOfYear - 1) * 86400 + t.secondsInto .day =
        86400 * (t.dayOfYear - 1) + t.secondsInto .day
      omega
  | month =>
      show (t.day - 1) * 86400 + t.secondsInto .day = 86400 * (t.day - 1) + t.secondsInto .day
      omega
  | week =>
      show t.daysSinceMonday * 86400 + t.secondsInto .day =
        86400 * (t.daysSinceMonday + 1 - 1) + t.secondsInto .day
      omega
  | day =>
      show t.secondsInto .day = 86400 * 0 + t.secondsInto .day
      omega
  | hour | minute | second => exact absurd h (by decide)

theorem readValue_second_day (t : DateTime) : t.readValue .second .day = t.second % 86400 :=
  t.secondsInto_day

theorem readValue_second_epoch (t : DateTime) : t.readValue .second .epoch = t.second := by
  rw [t.readValue_second (show TimeUnit.epoch ≤ .day by decide), readValue_second_day]
  show 86400 * (t.second / 86400) + t.second % 86400 = t.second
  omega

theorem readValue_second_hour (t : DateTime) :
    t.readValue .second .hour = t.readValue .second .day % 3600 := by
  show t.secondsInto .hour = t.secondsInto .day % 3600
  rw [secondsInto_hour, secondsInto_day]

theorem readValue_second_minute (t : DateTime) :
    t.readValue .second .minute = t.readValue .second .day % 60 := by
  show t.secondOfDay % 60 = t.secondsInto .day % 60
  rw [secondsInto_day]

/-- Hours and minutes are whole numbers of seconds, within every scope. -/
theorem readValue_time (t : DateTime) {unit scope : TimeUnit}
    (hunit : unit = .hour ∨ unit = .minute) (h : unit.isLegalScope scope = true) :
    t.readValue unit scope = t.readValue .second scope / secondsPer unit := by
  rcases hunit with rfl | rfl <;> cases scope <;> first | rfl | exact absurd h (by decide)

/-- All readings of one datetime agree. -/
theorem read_agree (t : DateTime) :
    (∀ unit scope, measured unit scope = true →
      t.read unit scope = .ok (t.readValue unit scope)) ∧ t.ReadingsAgree where
  left _ _ h := t.read_eq_readValue h
  right :=
    { dayOfEpoch := t.readValue_day_epoch
      dayOfYear := t.readValue_day_year
      exists_thursday := t.exists_onThursdayOf
      weekOfYear := fun _ h => readValue_week_year h
      second := fun _ h => t.readValue_second h
      hour := fun _ h => t.readValue_time (.inl rfl) h
      minute := fun _ h => t.readValue_time (.inr rfl) h
      secondOfHour := t.readValue_second_hour
      secondOfMinute := t.readValue_second_minute }

def firstOf2021 : DateTime := (atDate? ⟨2021, 1, 1⟩ 0 0).get rfl

/-- The last day of 2020, a Thursday. -/
def lastOf2020 : DateTime := (atDate? ⟨2020, 12, 31⟩ 0 0).get rfl

/-- The first day of 2021 is in the week of the last one of 2020, which is numbered there. -/
theorem read_agree_firstOf2021 :
    measured .week .year = true ∧ lastOf2020.OnThursdayOf firstOf2021 ∧
      firstOf2021.read .week .year = .ok (1 + (lastOf2020.readValue .day .year - 1) / 7) ∧
      lastOf2020.readValue .day .year = 366 := by
  have hm : measured .week .year = true := by decide
  have hthursday : lastOf2020.OnThursdayOf firstOf2021 :=
    ⟨by decide +kernel, by decide +kernel⟩
  obtain ⟨hread, hagree⟩ := firstOf2021.read_agree
  refine ⟨hm, hthursday, ?_, by decide +kernel⟩
  rw [← hagree.weekOfYear lastOf2020 hthursday]
  exact hread .week .year hm

end DateTime

end Cadence.Civil

/-!
# Civil dates

The proleptic Gregorian calendar with a year zero.  Days are numbered from 0000-01-01, which is
day 0.  `ofDayNumber_dayNumber` and `dayNumber_ofDayNumber` say that valid dates and day numbers
correspond one to one.
-/

namespace Cadence.Civil

/-- Whether a year has 366 days. -/
def isLeapYear (year : Int) : Bool := (year % 4 = 0 && year % 100 ≠ 0) || year % 400 = 0

/-- The number of days from 0000-01-01 to the first day of a year, negative before year zero. -/
def daysBeforeYear (year : Int) : Int :=
  365 * year + (year + 3) / 4 - (year + 99) / 100 + (year + 399) / 400

/-- The number of days in a month, counted from one. -/
def monthLength (leap : Bool) (month : Int) : Int :=
  if month = 2 then (if leap then 29 else 28)
  else if month = 4 ∨ month = 6 ∨ month = 9 ∨ month = 11 then 30
  else 31

/-- The number of days in a year before one of its months.  From March on the lengths 31, 30, 31,
30, 31 repeat, which makes 153 days in five months. -/
def daysBeforeMonth (leap : Bool) (month : Int) : Int :=
  if month ≤ 2 then 31 * (month - 1)
  else (153 * month - 457) / 5 + (if leap then 60 else 59)

/-- The month that contains a day of the year, counted from zero. -/
def monthOfDay (leap : Bool) (dayOfYear : Int) : Int :=
  let toMarch := if leap then 60 else 59
  if dayOfYear < toMarch then dayOfYear / 31 + 1 else (5 * (dayOfYear - toMarch) + 2) / 153 + 3

/-- The year that contains a day.  Four centuries have 146097 days, so the quotient misses it by
one year at most. -/
def yearOfDay (n : Int) : Int :=
  let guess := 400 * n / 146097
  if n < daysBeforeYear guess then guess - 1
  else if daysBeforeYear (guess + 1) ≤ n then guess + 1
  else guess

/-- A date of the calendar. -/
structure Date where
  year : Int
  month : Int
  day : Int
deriving DecidableEq, Inhabited

namespace Date

/-- Whether the month and the day exist. -/
def IsValid (date : Date) : Prop :=
  1 ≤ date.month ∧ date.month ≤ 12 ∧ 1 ≤ date.day ∧
    date.day ≤ monthLength (isLeapYear date.year) date.month

instance (date : Date) : Decidable date.IsValid := inferInstanceAs (Decidable (_ ∧ _))

/-- The day of the year, counted from one. -/
def dayOfYear (date : Date) : Int :=
  daysBeforeMonth (isLeapYear date.year) date.month + date.day

/-- The number of days since 0000-01-01. -/
def dayNumber (date : Date) : Int := daysBeforeYear date.year + date.dayOfYear - 1

/-- The date of a day number. -/
def ofDayNumber (n : Int) : Date :=
  let year := yearOfDay n
  let leap := isLeapYear year
  let dayOfYear := n - daysBeforeYear year
  let month := monthOfDay leap dayOfYear
  ⟨year, month, dayOfYear - daysBeforeMonth leap month + 1⟩

end Date

theorem daysBeforeYear_succ (year : Int) :
    daysBeforeYear (year + 1) = daysBeforeYear year + if isLeapYear year then 366 else 365 := by
  by_cases h₄ : year % 4 = 0 <;> by_cases h₁₀₀ : year % 100 = 0 <;>
    by_cases h₄₀₀ : year % 400 = 0 <;> simp [daysBeforeYear, isLeapYear, *] <;> omega

theorem month_cases {month : Int} (h₁ : 1 ≤ month) (h₂ : month ≤ 12) :
    month = 1 ∨ month = 2 ∨ month = 3 ∨ month = 4 ∨ month = 5 ∨ month = 6 ∨ month = 7 ∨
      month = 8 ∨ month = 9 ∨ month = 10 ∨ month = 11 ∨ month = 12 := by
  omega

theorem daysBeforeMonth_succ (leap : Bool) {month : Int} (h₁ : 1 ≤ month) (h₂ : month ≤ 12) :
    daysBeforeMonth leap (month + 1) = daysBeforeMonth leap month + monthLength leap month := by
  rcases month_cases h₁ h₂ with
    rfl | rfl | rfl | rfl | rfl | rfl | rfl | rfl | rfl | rfl | rfl | rfl <;> cases leap <;> rfl

theorem yearOfDay_bounds (n : Int) :
    daysBeforeYear (yearOfDay n) ≤ n ∧ n < daysBeforeYear (yearOfDay n + 1) := by
  simp only [yearOfDay]
  split
  · rename_i h
    rw [Int.sub_add_cancel]
    refine ⟨?_, h⟩
    simp only [daysBeforeYear] at *
    omega
  · split <;> simp only [daysBeforeYear] at * <;> omega

theorem daysBeforeYear_strictMono {a b : Int} (h : a < b) :
    daysBeforeYear a < daysBeforeYear b := by
  simp only [daysBeforeYear]
  omega

/-- A year is determined by any of its days. -/
theorem yearOfDay_eq {n year : Int} (h₁ : daysBeforeYear year ≤ n)
    (h₂ : n < daysBeforeYear (year + 1)) : yearOfDay n = year := by
  obtain ⟨hle, hlt⟩ := yearOfDay_bounds n
  rcases Int.lt_trichotomy (yearOfDay n) year with h | h | h
  · have hnext : daysBeforeYear (yearOfDay n + 1) ≤ daysBeforeYear year := by
      rcases Int.lt_or_eq_of_le (Int.add_one_le_of_lt h) with h | h
      · exact Int.le_of_lt (daysBeforeYear_strictMono h)
      · exact Int.le_of_eq (congrArg daysBeforeYear h)
    omega
  · exact h
  · have hnext : daysBeforeYear (year + 1) ≤ daysBeforeYear (yearOfDay n) := by
      rcases Int.lt_or_eq_of_le (Int.add_one_le_of_lt h) with h | h
      · exact Int.le_of_lt (daysBeforeYear_strictMono h)
      · exact Int.le_of_eq (congrArg daysBeforeYear h)
    omega

/-- Every day of a year lies in one of its twelve months. -/
theorem monthOfDay_bounds (leap : Bool) {d : Int} (h₁ : 0 ≤ d)
    (h₂ : d < if leap then 366 else 365) :
    1 ≤ monthOfDay leap d ∧ monthOfDay leap d ≤ 12 ∧ daysBeforeMonth leap (monthOfDay leap d) ≤ d ∧
      d < daysBeforeMonth leap (monthOfDay leap d) + monthLength leap (monthOfDay leap d) := by
  cases leap <;> simp only [monthOfDay, daysBeforeMonth, monthLength] at * <;> simp at * <;>
    (repeat' split) <;> omega

theorem monthOfDay_eq (leap : Bool) {month day : Int} (h₁ : 1 ≤ month) (h₂ : month ≤ 12)
    (h₃ : 1 ≤ day) (h₄ : day ≤ monthLength leap month) :
    monthOfDay leap (daysBeforeMonth leap month + day - 1) = month := by
  rcases month_cases h₁ h₂ with
    rfl | rfl | rfl | rfl | rfl | rfl | rfl | rfl | rfl | rfl | rfl | rfl <;>
    cases leap <;> simp [monthOfDay, daysBeforeMonth, monthLength] at * <;>
      (repeat' split) <;> omega

namespace Date

theorem dayOfYear_bounds {date : Date} (h : date.IsValid) :
    1 ≤ date.dayOfYear ∧ date.dayOfYear ≤ if isLeapYear date.year then 366 else 365 := by
  obtain ⟨h₁, h₂, h₃, h₄⟩ := h
  simp only [dayOfYear]
  generalize isLeapYear date.year = leap at *
  cases leap <;> simp only [daysBeforeMonth, monthLength] at * <;> simp at * <;>
    (repeat' split) <;> (repeat' split at h₄) <;> omega

theorem dayNumber_ofDayNumber (n : Int) : (ofDayNumber n).dayNumber = n := by
  simp only [ofDayNumber, dayNumber, dayOfYear]
  omega

theorem ofDayNumber_isValid (n : Int) : (ofDayNumber n).IsValid := by
  obtain ⟨hle, hlt⟩ := yearOfDay_bounds n
  rw [daysBeforeYear_succ] at hlt
  have hmonth := monthOfDay_bounds (isLeapYear (yearOfDay n))
    (d := n - daysBeforeYear (yearOfDay n)) (by omega) (by omega)
  simp only [IsValid, ofDayNumber]
  omega

theorem ofDayNumber_dayNumber {date : Date} (h : date.IsValid) :
    ofDayNumber date.dayNumber = date := by
  have hbounds := dayOfYear_bounds h
  have hyear : yearOfDay date.dayNumber = date.year := by
    apply yearOfDay_eq
    · simp only [dayNumber]
      omega
    · rw [daysBeforeYear_succ]
      simp only [dayNumber]
      omega
  obtain ⟨h₁, h₂, h₃, h₄⟩ := h
  have hday : date.dayNumber - daysBeforeYear date.year =
      daysBeforeMonth (isLeapYear date.year) date.month + date.day - 1 := by
    simp only [dayNumber, dayOfYear]
    omega
  have hmonth := monthOfDay_eq (isLeapYear date.year) h₁ h₂ h₃ h₄
  cases date
  simp only [ofDayNumber, hyear, hday, hmonth, Date.mk.injEq, true_and]
  omega

end Date

end Cadence.Civil

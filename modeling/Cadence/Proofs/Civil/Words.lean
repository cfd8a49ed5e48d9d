import Cadence.Proofs.Civil.Shifts

/-!
# Readings in 64 bits

Readings are sums, products and quotients of small numbers.  Here every one of these has to fit into
a signed integer of 64 bits, and a reading is given up as soon as one does not.  None is ever given
up, whatever the datetime, the unit and the scope (`DateTime.readInWords_eq`): the largest number
that is met counts the seconds of the whole range.
-/

namespace Cadence.Civil

/-- A number fits into a signed integer of 64 bits. -/
def FitsWord (n : Int) : Prop := -9223372036854775808 ≤ n ∧ n ≤ 9223372036854775807

instance (n : Int) : Decidable (FitsWord n) := inferInstanceAs (Decidable (_ ∧ _))

/-- A number, unless 64 bits are too few for it. -/
def word? (n : Int) : Option Int := if FitsWord n then some n else none

theorem word?_eq_some {n : Int} (h : FitsWord n) : word? n = some n := if_pos h

/-- Division by a positive number never leaves the words. -/
theorem FitsWord.ediv {n d : Int} (h : FitsWord n) (hd : 1 ≤ d) : FitsWord (n / d) := by
  obtain ⟨hlow, hhigh⟩ := h
  have hpos : 0 < d := hd
  constructor
  · rw [Int.le_ediv_iff_mul_le hpos]
    omega
  · refine Int.ediv_le_of_le_mul hpos ?_
    omega

namespace DateTime

/-! ## Readings -/

/-- The number of the day, from the seconds between the midnight that begins it and that of day
zero. -/
def dayNumberInWords (t : DateTime) : Option Int := do
  let seconds ← word? (t.dayNumber * secondsPerDay)
  word? (seconds / secondsPerDay)

/-- A number of days and some seconds, in seconds. -/
def daysAndSeconds (days : Option Int) (seconds : Int) : Option Int := do
  let whole ← word? ((← days) * secondsPerDay)
  word? (whole + seconds)

/-- The number of seconds since the period of a scope began.  The time of day is worked out whatever
the scope. -/
def secondsIntoInWords (t : DateTime) (scope : TimeUnit) : Option Int := do
  let minutes ← word? (t.minute * 60)
  let intoHour ← word? (minutes + t.secondOfMinute)
  let hours ← word? (t.hour * 3600)
  let intoDay ← word? (hours + intoHour)
  match scope with
  | .second => some 0
  | .minute => some t.secondOfMinute
  | .hour => some intoHour
  | .day => some intoDay
  | .week => daysAndSeconds (some t.daysSinceMonday) intoDay
  | .month => daysAndSeconds (word? (t.day - 1)) intoDay
  | .year => daysAndSeconds (word? (t.dayOfYear - 1)) intoDay
  | .epoch => daysAndSeconds t.dayNumberInWords intoDay

/-- The number of time units, each of some seconds, since the period of a scope began. -/
def timeInWords (t : DateTime) (per : Int) (scope : TimeUnit) : Option Int := do
  word? ((← t.secondsIntoInWords scope) / per)

/-- The value of a unit within one of its legal scopes, as far as it is measured. -/
def measureLegalInWords (t : DateTime) : TimeUnit → TimeUnit → Option (Option Int)
  | .year, .epoch => some <$> word? t.year
  | .month, .year => some <$> word? t.month
  | .week, .year => some <$> word? t.weekOfYear
  | .week, .epoch => do
      let fromMonday ← word? ((← t.dayNumberInWords) - 2)
      some <$> word? (fromMonday / 7)
  | .day, .month => some <$> word? t.day
  | .day, .year => some <$> word? t.dayOfYear
  | .day, .week => some <$> word? (t.daysSinceMonday + 1)
  | .day, .epoch => some <$> t.dayNumberInWords
  | .hour, scope => some <$> t.timeInWords 3600 scope
  | .minute, scope => some <$> t.timeInWords 60 scope
  | .second, scope => some <$> t.timeInWords 1 scope
  | _, _ => some none

/-- The value of a unit within a scope, unless 64 bits are too few for a number on the way to it. -/
def readInWords (t : DateTime) (unit scope : TimeUnit) : Option (Except Error Int) :=
  let refused : Except Error Int := .error (.unsupported unit scope)
  if unit.isLegalScope scope then do
    let value ← t.measureLegalInWords unit scope
    some (value.elim refused .ok)
  else
    some refused

/-! ## Bounds -/

/-- How large the numbers are that readings are made from. -/
structure Bounds (t : DateTime) : Prop where
  year : -9999 ≤ t.year ∧ t.year ≤ 9999
  month : 1 ≤ t.month ∧ t.month ≤ 12
  day : 1 ≤ t.day ∧ t.day ≤ 31
  dayOfYear : 1 ≤ t.dayOfYear ∧ t.dayOfYear ≤ 366
  weekOfYear : 1 ≤ t.weekOfYear ∧ t.weekOfYear ≤ 53
  dayNumber : -3652059 ≤ t.dayNumber ∧ t.dayNumber ≤ 3652424
  daysSinceMonday : 0 ≤ t.daysSinceMonday ∧ t.daysSinceMonday < 7
  secondOfDay : 0 ≤ t.secondOfDay ∧ t.secondOfDay < 86400

theorem dayOfYear_le (n : Int) :
    1 ≤ (Date.ofDayNumber n).dayOfYear ∧ (Date.ofDayNumber n).dayOfYear ≤ 366 := by
  obtain ⟨hfirst, hlast⟩ := Date.dayOfYear_bounds (Date.ofDayNumber_isValid n)
  refine ⟨hfirst, hlast.trans ?_⟩
  split <;> decide

theorem bounds (t : DateTime) : t.Bounds where
  year := (inRange_iff_year t.second).mp t.inRange
  month := ⟨(Date.ofDayNumber_isValid t.dayNumber).1, (Date.ofDayNumber_isValid t.dayNumber).2.1⟩
  day := by
    obtain ⟨-, -, hfirst, hlast⟩ := Date.ofDayNumber_isValid t.dayNumber
    refine ⟨hfirst, hlast.trans ?_⟩
    unfold monthLength
    split_ifs <;> decide
  dayOfYear := dayOfYear_le t.dayNumber
  weekOfYear := by
    have hthursday := dayOfYear_le (t.dayNumber - t.daysSinceMonday + 3)
    simp only [weekOfYear]
    omega
  dayNumber := by
    have hrange := t.inRange
    simp only [DateTime.dayNumber, secondsPerDay, firstSecond, lastSecond] at hrange ⊢
    omega
  daysSinceMonday := by
    simp only [DateTime.daysSinceMonday]
    omega
  secondOfDay := by
    simp only [DateTime.secondOfDay, secondsPerDay]
    omega

/-! ## Nothing is given up -/

variable (t : DateTime)

theorem dayNumberInWords_eq : t.dayNumberInWords = some t.dayNumber := by
  have hday := t.bounds.dayNumber
  have hproduct : FitsWord (t.dayNumber * 86400) := by
    unfold FitsWord
    omega
  have hquotient : t.dayNumber * 86400 / 86400 = t.dayNumber := by omega
  have hfits : FitsWord t.dayNumber := by
    unfold FitsWord
    omega
  simp only [dayNumberInWords, secondsPerDay, word?_eq_some hproduct, Option.bind_eq_bind,
    Option.bind_some, hquotient, word?_eq_some hfits]

/-- Days that a datetime can be apart from another one, and a time of day, fit as seconds. -/
theorem daysAndSeconds_eq {days seconds : Int} (hdays : -3652059 ≤ days ∧ days ≤ 3652424)
    (hseconds : 0 ≤ seconds ∧ seconds < 86400) :
    daysAndSeconds (some days) seconds = some (days * secondsPerDay + seconds) := by
  have hproduct : FitsWord (days * secondsPerDay) := by
    simp only [FitsWord, secondsPerDay]
    omega
  have hsum : FitsWord (days * secondsPerDay + seconds) := by
    simp only [FitsWord, secondsPerDay]
    omega
  simp only [daysAndSeconds, Option.bind_eq_bind, Option.bind_some, word?_eq_some hproduct,
    word?_eq_some hsum]

theorem secondsIntoInWords_eq (scope : TimeUnit) :
    t.secondsIntoInWords scope = some (t.secondsInto scope) := by
  obtain ⟨-, -, hday, hdayOfYear, -, hdayNumber, hmonday, htime⟩ := t.bounds
  have hintoHour : t.minute * 60 + t.secondOfMinute = t.secondOfDay % 3600 := t.secondsInto_hour
  have hintoDay : t.hour * 3600 + (t.minute * 60 + t.secondOfMinute) = t.secondOfDay :=
    t.secondsInto_day
  have hminutes : FitsWord (t.minute * 60) := by
    unfold FitsWord minute
    omega
  have hhour : FitsWord (t.minute * 60 + t.secondOfMinute) := by
    unfold FitsWord
    omega
  have hhours : FitsWord (t.hour * 3600) := by
    unfold FitsWord hour
    omega
  have hday' : FitsWord (t.hour * 3600 + (t.minute * 60 + t.secondOfMinute)) := by
    unfold FitsWord
    omega
  rw [← hintoDay] at htime
  simp only [secondsIntoInWords, word?_eq_some hminutes, Option.bind_eq_bind, Option.bind_some,
    word?_eq_some hhour, word?_eq_some hhours, word?_eq_some hday']
  cases scope with
  | second => rfl
  | minute => rfl
  | hour => rfl
  | day => rfl
  | week => exact daysAndSeconds_eq (by omega) htime
  | month =>
      have hfits : FitsWord (t.day - 1) := by
        unfold FitsWord
        omega
      rw [word?_eq_some hfits]
      exact daysAndSeconds_eq (by omega) htime
  | year =>
      have hfits : FitsWord (t.dayOfYear - 1) := by
        unfold FitsWord
        omega
      rw [word?_eq_some hfits]
      exact daysAndSeconds_eq (by omega) htime
  | epoch =>
      rw [dayNumberInWords_eq]
      exact daysAndSeconds_eq hdayNumber htime

/-- The seconds since the period of a scope began are never more than those of the whole range. -/
theorem secondsInto_bounds (scope : TimeUnit) :
    firstSecond ≤ t.secondsInto scope ∧ t.secondsInto scope ≤ lastSecond := by
  obtain ⟨-, -, hday, hdayOfYear, -, hdayNumber, hmonday, htime⟩ := t.bounds
  have hintoDay := t.secondsInto_day
  simp only [secondsInto] at hintoDay
  cases scope with
  | epoch | year | month | week | day =>
      simp only [secondsInto, hintoDay, secondsPerDay, firstSecond, lastSecond]
      omega
  | hour =>
      simp only [secondsInto_hour, firstSecond, lastSecond]
      omega
  | minute | second =>
      simp only [secondsInto, secondOfMinute, firstSecond, lastSecond]
      omega

theorem timeInWords_eq {per : Int} (hper : 1 ≤ per) (scope : TimeUnit) :
    t.timeInWords per scope = some (t.secondsInto scope / per) := by
  obtain ⟨hlow, hhigh⟩ := t.secondsInto_bounds scope
  have hseconds : FitsWord (t.secondsInto scope) := by
    simp only [FitsWord, firstSecond, lastSecond] at hlow hhigh ⊢
    omega
  simp only [timeInWords, secondsIntoInWords_eq, Option.bind_eq_bind, Option.bind_some]
  exact word?_eq_some (hseconds.ediv hper)

theorem measureLegalInWords_eq (unit scope : TimeUnit) :
    t.measureLegalInWords unit scope = some (t.measureLegal unit scope) := by
  obtain ⟨hyear, hmonth, hday, hdayOfYear, hweekOfYear, hdayNumber, hmonday, -⟩ := t.bounds
  have hsmall {n : Int} (h : -3652061 ≤ n ∧ n ≤ 3652424) : some <$> word? n = some (some n) := by
    have hfits : FitsWord n := by
      unfold FitsWord
      omega
    rw [word?_eq_some hfits]
    rfl
  cases unit with
  | epoch => rfl
  | year =>
      cases scope with
      | epoch => exact hsmall (by omega)
      | _ => rfl
  | month =>
      cases scope with
      | year => exact hsmall (by omega)
      | _ => rfl
  | week =>
      cases scope with
      | year => exact hsmall (by omega)
      | epoch =>
          have hfits : FitsWord (t.dayNumber - 2) := by
            unfold FitsWord
            omega
          simp only [measureLegalInWords, dayNumberInWords_eq, Option.bind_eq_bind,
            Option.bind_some, word?_eq_some hfits]
          exact hsmall (by omega)
      | _ => rfl
  | day =>
      cases scope with
      | month => exact hsmall (by omega)
      | year => exact hsmall (by omega)
      | week => exact hsmall (by omega)
      | epoch =>
          simp only [measureLegalInWords, dayNumberInWords_eq]
          rfl
      | _ => rfl
  | hour =>
      simp only [measureLegalInWords, t.timeInWords_eq (show (1 : Int) ≤ 3600 by decide)]
      rfl
  | minute =>
      simp only [measureLegalInWords, t.timeInWords_eq (show (1 : Int) ≤ 60 by decide)]
      rfl
  | second =>
      simp only [measureLegalInWords, t.timeInWords_eq (show (1 : Int) ≤ 1 by decide), Int.ediv_one]
      rfl

theorem readInWords_eq (unit scope : TimeUnit) :
    t.readInWords unit scope = some (t.read unit scope) := by
  unfold readInWords read measure
  rw [measureLegalInWords_eq]
  split_ifs
  · cases t.measureLegal unit scope <;> rfl
  · rfl

end DateTime

end Cadence.Civil

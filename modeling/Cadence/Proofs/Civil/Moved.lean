import Cadence.Proofs.Civil.Value

/-!
# Shifts on the time line

`moved unit s k` is the second that a shift by `k` units leads to from second `s`, whether or not
it is in range (`shift_eq_ok`).  A shift raises the ordinal of its unit by exactly the number of
units (`ordinal_moved`), so it never moves against its sign.  Shifts by months and years keep the
day of the month as far as the month reached has it.
-/

namespace Cadence.Civil

/-- The second a number of months after another one. -/
def monthsLater (s k : Int) : Int :=
  let reached := ordinal .month s + k
  (monthStart reached +
    min (s / 86400 - monthStart (ordinal .month s)) (monthDays reached - 1)) * 86400 + s % 86400

/-- The second that a shift by a number of units leads to. -/
def moved (unit : TimeUnit) (s k : Int) : Int :=
  match unit with
  | .year => monthsLater s (12 * k)
  | .month => monthsLater s k
  | _ => s + secondsPer unit * k

theorem of?_eq_some {second : Int} {nano : Nat} {t : DateTime} :
    DateTime.of? second nano = some t ↔ t.second = second ∧ t.nano = nano := by
  constructor
  · intro h
    simp only [DateTime.of?] at h
    split at h
    · cases h
      exact ⟨rfl, rfl⟩
    · cases h
  · rintro ⟨rfl, rfl⟩
    simp [DateTime.of?, t.inRange, t.nano_lt]

/-- Adding months leads to the day of the month that is kept or is the last one. -/
theorem addMonths?_eq (t : DateTime) (k : Int) :
    t.addMonths? k = DateTime.of? (monthsLater t.second k) t.nano := by
  have hday := day_eq t
  have hmonth : 12 * t.date.year + (t.date.month - 1) = ordinal .month t.second := rfl
  simp only [DateTime.day] at hday
  simp only [DateTime.addMonths?, DateTime.atDate?, hmonth, monthsLater, monthDays, monthStart_eq,
    Date.dayNumber, Date.dayOfYear, DateTime.secondOfDay, secondsPerDay]
  congr 1
  rw [hday, monthStart_eq]
  -- What is left is linear in the first day of the month and the length of the month reached.
  generalize daysBeforeYear (ordinal .month t.second / 12) +
    daysBeforeMonth (isLeapYear (ordinal .month t.second / 12))
      (ordinal .month t.second % 12 + 1) = start
  generalize monthLength (isLeapYear ((ordinal .month t.second + k) / 12))
    ((ordinal .month t.second + k) % 12 + 1) = length
  omega

theorem add?_eq (t : DateTime) {unit : TimeUnit} (hunit : unit ≠ .epoch) (k : Int) :
    t.add? unit k = DateTime.of? (moved unit t.second k) t.nano := by
  cases unit <;>
    simp_all [DateTime.add?, moved, addMonths?_eq, DateTime.addSeconds?]

/-- A shift succeeds within its limit, and leads to the second that is reached if a datetime may
show it. -/
theorem shift_eq_ok {t t' : DateTime} {unit : TimeUnit} {k : Int} :
    t.shift unit k = .ok t' ↔ unit ≠ .epoch ∧ withinShiftLimit unit k = true ∧
      t'.second = moved unit t.second k ∧ t'.nano = t.nano := by
  by_cases hunit : unit = .epoch
  · simp [DateTime.shift, hunit]
  by_cases hlimit : withinShiftLimit unit k = true
  · rw [← of?_eq_some, ← add?_eq t hunit]
    simp only [DateTime.shift, hunit, hlimit, if_true, if_false]
    cases t.add? unit k <;> simp [hunit]
  · simp [DateTime.shift, hunit, hlimit]

theorem exists_shift (t : DateTime) {unit : TimeUnit} (hunit : unit ≠ .epoch) {k : Int}
    (hlimit : withinShiftLimit unit k = true)
    (hrange : firstSecond ≤ moved unit t.second k ∧ moved unit t.second k ≤ lastSecond) :
    ∃ t', t.shift unit k = .ok t' ∧ t'.second = moved unit t.second k ∧ t'.nano = t.nano :=
  ⟨⟨moved unit t.second k, t.nano, hrange, t.nano_lt⟩,
    shift_eq_ok.mpr ⟨hunit, hlimit, rfl, rfl⟩, rfl, rfl⟩

/-- A shift of any unit but the epoch fails only by leaving the range. -/
theorem shift_eq_error {t : DateTime} {unit : TimeUnit} (hunit : unit ≠ .epoch) {k : Int}
    {e : Error} (h : t.shift unit k = .error e) : e = .outOfRange := by
  unfold DateTime.shift at h
  rw [if_neg hunit] at h
  split at h
  · split at h
    · cases h
    · cases h
      rfl
  · cases h
    rfl

/-! ## Ordinals -/

theorem ordinal_monthsLater (s k : Int) :
    ordinal .month (monthsLater s k) = ordinal .month s + k := by
  have hbounds := monthStart_ordinal_bounds s
  have hdays := monthDays_bounds (ordinal .month s + k)
  have hnext := monthStart_succ (ordinal .month s + k)
  rw [ordinal_eq_iff (by decide)]
  simp only [begins, monthsLater]
  omega

theorem ordinal_year_monthsLater (s k : Int) :
    ordinal .year (monthsLater s k) = (ordinal .month s + k) / 12 := by
  rw [← ordinal_month_div, ordinal_monthsLater]

/-- A shift raises the ordinal of its unit by the number of units. -/
theorem ordinal_moved {unit : TimeUnit} (hunit : unit ≠ .epoch) (s k : Int) :
    ordinal unit (moved unit s k) = ordinal unit s + k := by
  cases unit with
  | epoch => exact absurd rfl hunit
  | year =>
      unfold moved
      rw [ordinal_year_monthsLater, ← ordinal_month_div]
      omega
  | month => exact ordinal_monthsLater s k
  | week | day | hour | minute | second =>
      simp only [moved, ordinal, secondsPer]
      omega

theorem ordinal_shift {t t' : DateTime} {unit : TimeUnit} {k : Int}
    (h : t.shift unit k = .ok t') : ordinal unit t'.second = ordinal unit t.second + k := by
  obtain ⟨hunit, -, hsecond, -⟩ := shift_eq_ok.mp h
  rw [hsecond, ordinal_moved hunit]

theorem nano_shift {t t' : DateTime} {unit : TimeUnit} {k : Int}
    (h : t.shift unit k = .ok t') : t'.nano = t.nano :=
  (shift_eq_ok.mp h).2.2.2

theorem monthsLater_zero (s : Int) : monthsLater s 0 = s := by
  have hbounds := monthStart_ordinal_bounds s
  have hnext := monthStart_succ (ordinal .month s)
  simp only [monthsLater, Int.add_zero]
  omega

theorem moved_zero (unit : TimeUnit) (s : Int) : moved unit s 0 = s := by
  cases unit <;> simp [moved, monthsLater_zero]

theorem lt_moved {unit : TimeUnit} (hunit : unit ≠ .epoch) (s : Int) {k : Int} (h : 0 < k) :
    s < moved unit s k := by
  have := ordinal_moved hunit s k
  exact @lt_of_ordinal_lt unit _ _ (by omega)

theorem le_moved {unit : TimeUnit} (hunit : unit ≠ .epoch) (s : Int) {k : Int} (h : 0 ≤ k) :
    s ≤ moved unit s k := by
  rcases Int.lt_or_eq_of_le h with h | h
  · exact Int.le_of_lt (lt_moved hunit s h)
  · have hzero : moved unit s k = s := by rw [← h, moved_zero]
    exact Int.le_of_eq hzero.symm

theorem monthsLater_begins (k n : Int) :
    monthsLater (begins .month k) n = begins .month (k + n) := by
  have hdays := monthDays_bounds (k + n)
  have hday : begins .month k / 86400 = monthStart k := by
    simp only [begins]
    omega
  have hclock : begins .month k % 86400 = 0 := by
    simp only [begins]
    omega
  simp only [monthsLater, ordinal_begins (show TimeUnit.month ≠ .epoch by decide), hday, hclock]
  simp only [begins]
  omega

/-- A shift from the beginning of a period leads to the beginning of a period. -/
theorem moved_begins {unit : TimeUnit} (hunit : unit ≠ .epoch) (k n : Int) :
    moved unit (begins unit k) n = begins unit (k + n) := by
  cases unit with
  | epoch => exact absurd rfl hunit
  | year =>
      unfold moved
      rw [begins_year_eq, begins_year_eq, monthsLater_begins, Int.mul_add]
  | month => exact monthsLater_begins k n
  | week | day | hour | minute | second =>
      simp only [moved, begins, secondsPer]
      omega

theorem le_shift {t t' : DateTime} {unit : TimeUnit} {k : Int} (h : t.shift unit k = .ok t')
    (hk : 0 ≤ k) : t.second ≤ t'.second := by
  obtain ⟨hunit, -, hsecond, -⟩ := shift_eq_ok.mp h
  rw [hsecond]
  exact le_moved hunit _ hk

end Cadence.Civil

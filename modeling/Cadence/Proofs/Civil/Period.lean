import Mathlib.Tactic.Common
import Cadence.Civil.Measure
import Cadence.Civil.Shift

/-!
# Periods of the civil calendar

Every unit cuts the time line into periods: years, months, weeks from Monday to Sunday, days and
so on.  `ordinal unit s` is the number of the period that holds second `s`, and `begins unit k` is
the first second of the period with number `k`.  The two form a Galois connection
(`le_ordinal_iff`), and everything else about periods follows from it: ordinals grow with time, a
period holds exactly the seconds between two beginnings, and the periods of a fine unit nest in
those of a coarse one (`Nests`), except that weeks nest in nothing but the epoch.
-/

namespace Cadence.Civil

/-- The number of the first day of a month.  Months are counted from the first one of year
zero. -/
def monthStart (k : Int) : Int := (Date.mk (k / 12) (k % 12 + 1) 1).dayNumber

/-- The number of days in a month that is counted from the first one of year zero. -/
def monthDays (k : Int) : Int := monthLength (isLeapYear (k / 12)) (k % 12 + 1)

/-- The number of the period of a unit that holds a second. -/
def ordinal : TimeUnit → Int → Int
  | .epoch, _ => 0
  | .year, s => yearOfDay (s / 86400)
  | .month, s =>
      let date := Date.ofDayNumber (s / 86400)
      12 * date.year + (date.month - 1)
  | .week, s => (s / 86400 - 2) / 7
  | .day, s => s / 86400
  | .hour, s => s / 3600
  | .minute, s => s / 60
  | .second, s => s

/-- The first second of a period of a unit.  The epoch is its own only period; it is measured from
second zero. -/
def begins : TimeUnit → Int → Int
  | .epoch, _ => 0
  | .year, k => daysBeforeYear k * 86400
  | .month, k => monthStart k * 86400
  | .week, k => (7 * k + 2) * 86400
  | .day, k => k * 86400
  | .hour, k => k * 3600
  | .minute, k => k * 60
  | .second, k => k

/-- The first second of the period that holds a second. -/
def startOf (unit : TimeUnit) (s : Int) : Int := begins unit (ordinal unit s)

/-! ## Months -/

theorem monthLength_bounds (leap : Bool) (month : Int) :
    28 ≤ monthLength leap month ∧ monthLength leap month ≤ 31 := by
  unfold monthLength
  split
  · split <;> omega
  · split <;> omega

theorem monthDays_bounds (k : Int) : 28 ≤ monthDays k ∧ monthDays k ≤ 31 :=
  monthLength_bounds _ _

theorem monthStart_eq (k : Int) :
    monthStart k =
      daysBeforeYear (k / 12) + daysBeforeMonth (isLeapYear (k / 12)) (k % 12 + 1) := by
  simp only [monthStart, Date.dayNumber, Date.dayOfYear]
  omega

/-- A month ends where the next one begins, also at the turn of a year. -/
theorem monthStart_succ (k : Int) : monthStart (k + 1) = monthStart k + monthDays k := by
  have hlength := @daysBeforeMonth_succ (isLeapYear (k / 12)) (k % 12 + 1) (by omega) (by omega)
  by_cases hlast : k % 12 = 11
  · -- December ends where the next year begins.
    have hyear : (k + 1) / 12 = k / 12 + 1 := by omega
    have hmonth : (k + 1) % 12 = 0 := by omega
    rw [monthStart_eq, monthStart_eq, monthDays, hyear, hmonth, daysBeforeYear_succ]
    rw [hlast] at hlength ⊢
    have hfirst : daysBeforeMonth (isLeapYear (k / 12 + 1)) (0 + 1) = 0 := by
      simp [daysBeforeMonth]
    have hwhole : daysBeforeMonth (isLeapYear (k / 12)) (11 + 1 + 1) =
        if isLeapYear (k / 12) then 366 else 365 := by
      cases isLeapYear (k / 12) <;> rfl
    rw [hfirst]
    omega
  · have hyear : (k + 1) / 12 = k / 12 := by omega
    have hmonth : (k + 1) % 12 = k % 12 + 1 := by omega
    rw [monthStart_eq, monthStart_eq, monthDays, hyear, hmonth]
    omega

theorem monthStart_lt_succ (k : Int) : monthStart k < monthStart (k + 1) := by
  have := monthStart_succ k
  have := monthDays_bounds k
  omega

theorem monthStart_year (year : Int) : monthStart (12 * year) = daysBeforeYear year := by
  have hyear : 12 * year / 12 = year := by omega
  have hmonth : 12 * year % 12 = 0 := by omega
  rw [monthStart_eq, hyear, hmonth]
  simp [daysBeforeMonth]

/-- The month of a day begins on or before the day and ends after it. -/
theorem monthStart_ordinal_bounds (s : Int) :
    monthStart (ordinal .month s) ≤ s / 86400 ∧
      s / 86400 < monthStart (ordinal .month s + 1) := by
  have hnumber := Date.dayNumber_ofDayNumber (s / 86400)
  have hvalid := Date.ofDayNumber_isValid (s / 86400)
  rw [monthStart_succ, monthDays, monthStart_eq]
  simp only [ordinal]
  generalize Date.ofDayNumber (s / 86400) = date at hnumber hvalid ⊢
  obtain ⟨h₁, h₂, h₃, h₄⟩ := hvalid
  have hyear : (12 * date.year + (date.month - 1)) / 12 = date.year := by omega
  have hmonth : (12 * date.year + (date.month - 1)) % 12 + 1 = date.month := by omega
  rw [hyear, hmonth]
  simp only [Date.dayNumber, Date.dayOfYear] at hnumber
  omega

/-! ## The Galois connection -/

theorem begins_lt_succ {unit : TimeUnit} (hunit : unit ≠ .epoch) (k : Int) :
    begins unit k < begins unit (k + 1) := by
  cases unit with
  | epoch => exact absurd rfl hunit
  | year =>
      have := daysBeforeYear_strictMono (show k < k + 1 by omega)
      simp only [begins]
      omega
  | month =>
      have := monthStart_lt_succ k
      simp only [begins]
      omega
  | week | day | hour | minute | second =>
      simp only [begins]
      omega

theorem begins_le_begins {unit : TimeUnit} (hunit : unit ≠ .epoch) {a b : Int} (h : a ≤ b) :
    begins unit a ≤ begins unit b := by
  obtain ⟨n, rfl⟩ := Int.le.dest h
  induction n with
  | zero => simp
  | succ n ih =>
      have hstep := begins_lt_succ hunit (a + n)
      have := ih (by omega)
      rw [show a + ((n + 1 : Nat) : Int) = a + n + 1 by omega]
      omega

/-- A second lies between the beginning of its period and the beginning of the next one. -/
theorem startOf_bounds {unit : TimeUnit} (hunit : unit ≠ .epoch) (s : Int) :
    startOf unit s ≤ s ∧ s < begins unit (ordinal unit s + 1) := by
  cases unit with
  | epoch => exact absurd rfl hunit
  | year =>
      have := yearOfDay_bounds (s / 86400)
      simp only [startOf, begins, ordinal]
      omega
  | month =>
      have := monthStart_ordinal_bounds s
      simp only [startOf, begins]
      omega
  | week | day | hour | minute | second =>
      simp only [startOf, begins, ordinal]
      omega

/-- A second has reached a period if and only if it has reached its beginning. -/
theorem le_ordinal_iff {unit : TimeUnit} (hunit : unit ≠ .epoch) {k s : Int} :
    k ≤ ordinal unit s ↔ begins unit k ≤ s := by
  obtain ⟨hstart, hend⟩ := startOf_bounds hunit s
  constructor
  · intro h
    exact Int.le_trans (begins_le_begins hunit h) hstart
  · intro h
    by_contra hlt
    have := begins_le_begins hunit (show ordinal unit s + 1 ≤ k by omega)
    omega

theorem ordinal_lt_iff {unit : TimeUnit} (hunit : unit ≠ .epoch) {k s : Int} :
    ordinal unit s < k ↔ s < begins unit k := by
  have := le_ordinal_iff hunit (k := k) (s := s)
  omega

theorem ordinal_mono (unit : TimeUnit) {s s' : Int} (h : s ≤ s') :
    ordinal unit s ≤ ordinal unit s' := by
  by_cases hunit : unit = .epoch
  · subst hunit
    simp [ordinal]
  · rw [le_ordinal_iff hunit]
    exact Int.le_trans (startOf_bounds hunit s).1 h

theorem lt_of_ordinal_lt {unit : TimeUnit} {s s' : Int} (h : ordinal unit s < ordinal unit s') :
    s < s' := by
  by_contra hle
  have := ordinal_mono unit (show s' ≤ s by omega)
  omega

theorem ordinal_begins {unit : TimeUnit} (hunit : unit ≠ .epoch) (k : Int) :
    ordinal unit (begins unit k) = k := by
  have hle := (le_ordinal_iff hunit (k := k)).mpr (Int.le_refl _)
  have hlt := (ordinal_lt_iff hunit).mpr (begins_lt_succ hunit k)
  omega

/-- A period is determined by any second between its beginning and the next one. -/
theorem ordinal_eq_iff {unit : TimeUnit} (hunit : unit ≠ .epoch) {k s : Int} :
    ordinal unit s = k ↔ begins unit k ≤ s ∧ s < begins unit (k + 1) := by
  have hle := le_ordinal_iff hunit (k := k) (s := s)
  have hlt := ordinal_lt_iff hunit (k := k + 1) (s := s)
  omega

theorem ordinal_startOf (unit : TimeUnit) (s : Int) :
    ordinal unit (startOf unit s) = ordinal unit s := by
  by_cases hunit : unit = .epoch
  · subst hunit
    rfl
  · exact ordinal_begins hunit _

theorem startOf_begins_self {unit : TimeUnit} (hunit : unit ≠ .epoch) (k : Int) :
    startOf unit (begins unit k) = begins unit k := by
  rw [startOf, ordinal_begins hunit]

theorem startOf_startOf (unit : TimeUnit) (s : Int) :
    startOf unit (startOf unit s) = startOf unit s := by
  rw [startOf, ordinal_startOf]
  rfl

theorem startOf_le_of_ordinal_le {unit : TimeUnit} (hunit : unit ≠ .epoch) {s s' : Int}
    (h : ordinal unit s ≤ ordinal unit s') : startOf unit s ≤ s' :=
  (le_ordinal_iff hunit).mp h

/-! ## Nesting -/

/-- The periods of the second unit nest in those of the first one. -/
def Nests (coarse fine : TimeUnit) : Prop :=
  coarse ≠ .epoch ∧ fine ≠ .week ∧ coarse < fine

instance (coarse fine : TimeUnit) : Decidable (Nests coarse fine) :=
  inferInstanceAs (Decidable (_ ∧ _))

theorem Nests.fine_ne_epoch {coarse fine : TimeUnit} (h : Nests coarse fine) : fine ≠ .epoch := by
  rintro rfl
  exact absurd h.2.2 (by cases coarse <;> decide)

theorem begins_year_eq (k : Int) : begins .year k = begins .month (12 * k) := by
  simp only [begins, monthStart_year]

/-- A period of the coarse unit begins with a period of the fine one. -/
theorem startOf_begins {coarse fine : TimeUnit} (h : Nests coarse fine) (k : Int) :
    startOf fine (begins coarse k) = begins coarse k := by
  have hmonth : startOf .month (begins .year k) = begins .year k := by
    rw [begins_year_eq, startOf_begins_self (by decide)]
  -- The other beginnings are at fixed distances, so the ordinals are quotients by constants.
  revert h hmonth
  cases coarse <;> cases fine <;> intro h hmonth <;>
    first
    | exact absurd h (by decide)
    | exact hmonth
    | rfl
    | (simp only [startOf, begins, ordinal]; omega)

/-- A second has reached a coarse period if and only if it has reached the fine period that the
coarse one begins with. -/
theorem ordinal_begins_le_iff {coarse fine : TimeUnit} (h : Nests coarse fine) {k s : Int} :
    ordinal fine (begins coarse k) ≤ ordinal fine s ↔ k ≤ ordinal coarse s := by
  rw [le_ordinal_iff h.fine_ne_epoch, le_ordinal_iff h.1]
  exact Iff.of_eq (congrArg (· ≤ s) (startOf_begins h k))

/-- Seconds of one fine period lie in one coarse period. -/
theorem ordinal_eq_of_nests {coarse fine : TimeUnit} (h : Nests coarse fine) {s s' : Int}
    (heq : ordinal fine s = ordinal fine s') : ordinal coarse s = ordinal coarse s' := by
  -- Each second has reached the coarse period that holds the other one.
  have h₁ := ordinal_begins_le_iff h (k := ordinal coarse s) (s := s')
  have h₂ := ordinal_begins_le_iff h (k := ordinal coarse s') (s := s)
  have h₃ := (ordinal_begins_le_iff h (k := ordinal coarse s) (s := s)).mpr (Int.le_refl _)
  have h₄ := (ordinal_begins_le_iff h (k := ordinal coarse s') (s := s')).mpr (Int.le_refl _)
  rw [heq] at h₃
  rw [← heq] at h₄
  have := h₁.mp h₃
  have := h₂.mp h₄
  omega

/-- The order of coarse periods is an order of fine ones. -/
theorem ordinal_lt_of_nests {coarse fine : TimeUnit} (h : Nests coarse fine) {s s' : Int}
    (hlt : ordinal coarse s < ordinal coarse s') : ordinal fine s < ordinal fine s' := by
  have hle := ordinal_mono fine (Int.le_of_lt (lt_of_ordinal_lt hlt))
  rcases Int.lt_or_eq_of_le hle with hlt' | heq
  · exact hlt'
  · have := ordinal_eq_of_nests h heq
    omega

/-- Every period of the second unit lies in one of the first one. -/
def Covers (coarse fine : TimeUnit) : Prop := coarse = fine ∨ Nests coarse fine

instance (coarse fine : TimeUnit) : Decidable (Covers coarse fine) :=
  inferInstanceAs (Decidable (_ ∨ _))

namespace Covers

variable {coarse fine : TimeUnit} {s s' : Int}

/-- Coarser units cover finer ones, except that only weeks cover weeks. -/
theorem of_le (hepoch : coarse ≠ .epoch) (hle : coarse ≤ fine)
    (hweek : fine = .week → coarse = .week) : Covers coarse fine := by
  revert hepoch hle hweek
  cases coarse <;> cases fine <;> decide

theorem ordinal_eq (h : Covers coarse fine) (heq : ordinal fine s = ordinal fine s') :
    ordinal coarse s = ordinal coarse s' := by
  rcases h with rfl | h
  · exact heq
  · exact ordinal_eq_of_nests h heq

theorem ordinal_lt (h : Covers coarse fine) (hlt : ordinal coarse s < ordinal coarse s') :
    ordinal fine s < ordinal fine s' := by
  rcases h with rfl | h
  · exact hlt
  · exact ordinal_lt_of_nests h hlt

/-- A second on which a coarse period begins is one on which a fine period begins. -/
theorem startOf_eq (h : Covers coarse fine) (hstart : startOf coarse s = s) :
    startOf fine s = s := by
  rcases h with rfl | h
  · exact hstart
  · rw [← hstart]
    exact startOf_begins h _

/-- The coarse period begins on or before the fine period that is in it. -/
theorem startOf_le (h : Covers coarse fine) (s : Int) : startOf coarse s ≤ startOf fine s := by
  rcases h with rfl | h
  · exact Int.le_refl _
  · have hstart := startOf_begins h (ordinal coarse s)
    have hmono := begins_le_begins h.fine_ne_epoch
      (ordinal_mono fine (startOf_bounds h.1 s).1)
    exact Int.le_trans (Int.le_of_eq hstart.symm) hmono

end Covers

theorem ordinal_month_div (s : Int) : ordinal .month s / 12 = ordinal .year s := by
  have hvalid := Date.ofDayNumber_isValid (s / 86400)
  obtain ⟨h₁, h₂, -, -⟩ := hvalid
  have hyear : (Date.ofDayNumber (s / 86400)).year = ordinal .year s := rfl
  simp only [ordinal] at hyear ⊢
  omega

end Cadence.Civil

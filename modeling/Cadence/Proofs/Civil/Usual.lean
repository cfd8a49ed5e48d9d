import Cadence.Proofs.Civil.Moved

/-!
# Values within the usual scopes

Months within years, days within months, hours within days and so on: each unit is measured within
the next coarser one, weeks apart.  The values then work like the digits of a number.  Seconds are
ordered by the coarsest value in which they differ (`ordinal_le_of_values_le`), and a shift by a
coarse unit keeps the values of the finer ones, or shortens the day of the month
(`value_moved_le`).
-/

namespace Cadence.Civil

/-- How many periods of a unit its usual scope holds, for the units for which that is always the
same. -/
def perScope : TimeUnit → Option Int
  | .month => some 12
  | .hour => some 24
  | .minute => some 60
  | .second => some 60
  | _ => none

theorem measured_defaultScope {unit : TimeUnit} (hunit : unit ≠ .epoch) :
    measured unit unit.defaultScope = true := by
  revert hunit
  cases unit <;> decide

theorem perScope_cases {unit : TimeUnit} {n : Int} (h : perScope unit = some n) :
    n = 12 ∨ n = 24 ∨ n = 60 := by
  cases unit <;> simp only [perScope, reduceCtorEq, Option.some.injEq] at h <;> omega

/-! ## Digits -/

theorem value_day_month (a : Int) :
    value .day .month a = a / 86400 - monthStart (ordinal .month a) + 1 := by
  simp only [value, base, reduceCtorEq, if_false, startOf, begins, TimeUnit.resetValue,
    Option.getD_some]
  simp only [ordinal]
  omega

/-- The days of a month are numbered from one to the length of the month. -/
theorem value_day_bounds (a : Int) :
    1 ≤ value .day .month a ∧ value .day .month a ≤ monthDays (ordinal .month a) := by
  have hbounds := monthStart_ordinal_bounds a
  have hnext := monthStart_succ (ordinal .month a)
  rw [value_day_month]
  omega

/-- The ordinals of a unit count on through the periods of its usual scope. -/
theorem ordinal_div_perScope {unit : TimeUnit} {n : Int} (h : perScope unit = some n) (a : Int) :
    ordinal unit a / n = ordinal unit.defaultScope a := by
  cases unit <;> simp only [perScope, reduceCtorEq, Option.some.injEq] at h <;> subst h
  · exact ordinal_month_div a
  · show a / 3600 / 24 = a / 86400
    omega
  · show a / 60 / 60 = a / 3600
    omega
  · show a / 60 = a / 60
    rfl

/-- The value of a unit is the last digit of its ordinal. -/
theorem value_eq_mod {unit : TimeUnit} {n first : Int} (h : perScope unit = some n)
    (hfirst : unit.resetValue = some first) (a : Int) :
    value unit unit.defaultScope a = ordinal unit a % n + first := by
  have hdiv := ordinal_div_perScope h a
  cases unit <;> simp only [perScope, reduceCtorEq, Option.some.injEq] at h <;> subst h <;>
    simp only [TimeUnit.resetValue, Option.some.injEq] at hfirst <;> subst hfirst
  · have hstart := ordinal_month_begins_year (ordinal .year a)
    change ordinal .month a / 12 = ordinal .year a at hdiv
    show ordinal .month a - (ordinal .month (begins .year (ordinal .year a)) - 1) = _
    omega
  · show a / 3600 - (a / 86400 * 86400 / 3600 - 0) = a / 3600 % 24 + 0
    omega
  · show a / 60 - (a / 3600 * 3600 / 60 - 0) = a / 60 % 60 + 0
    omega
  · show a - (a / 60 * 60 - 0) = a % 60 + 0
    omega

/-- Days are the only numbered unit of which a scope does not always hold the same number. -/
theorem eq_day_of_perScope_none {unit : TimeUnit} {first : Int}
    (hfirst : unit.resetValue = some first) (h : perScope unit = none) : unit = .day := by
  cases unit <;> simp [perScope, TimeUnit.resetValue] at h hfirst ⊢

/-- The values of a unit stay below a bound that every shift may cross. -/
theorem value_defaultScope_le {unit : TimeUnit} {first : Int}
    (hfirst : unit.resetValue = some first) (a : Int) :
    value unit unit.defaultScope a ≤ first + 59 := by
  cases h : perScope unit with
  | none =>
      have hday := eq_day_of_perScope_none hfirst h
      subst hday
      have hbounds := value_day_bounds a
      have hdays := monthDays_bounds (ordinal .month a)
      simp only [TimeUnit.resetValue, Option.some.injEq] at hfirst
      show value .day .month a ≤ first + 59
      omega
  | some n =>
      rw [value_eq_mod h hfirst]
      rcases perScope_cases h with rfl | rfl | rfl <;> omega

/-- A unit reaches a value without leaving the period of its usual scope, if every such period
holds the value. -/
theorem reach_perScope {unit : TimeUnit} {n first : Int} (h : perScope unit = some n)
    (hfirst : unit.resetValue = some first) {a b c : Int}
    (hb : ordinal unit b = ordinal unit a +
      (value unit unit.defaultScope c - value unit unit.defaultScope a)) :
    ordinal unit.defaultScope b = ordinal unit.defaultScope a ∧
      value unit unit.defaultScope b = value unit unit.defaultScope c := by
  rw [value_eq_mod h hfirst, value_eq_mod h hfirst] at hb
  rw [← ordinal_div_perScope h, ← ordinal_div_perScope h, value_eq_mod h hfirst,
    value_eq_mod h hfirst, hb]
  rcases perScope_cases h with rfl | rfl | rfl <;> omega

/-! ## Order -/

/-- Later periods of the scope and higher values are later. -/
theorem ordinal_le_of_value_le {unit scope : TimeUnit} (hunit : unit ≠ .week) {a b : Int}
    (hscope : ordinal scope a ≤ ordinal scope b)
    (hvalue : value unit scope a ≤ value unit scope b) : ordinal unit a ≤ ordinal unit b := by
  have hbase : base unit scope a ≤ base unit scope b := by
    by_cases hepoch : scope = .epoch
    · simp [base, hepoch]
    · have := ordinal_mono unit (begins_le_begins hepoch hscope)
      simp only [base, hepoch, hunit, if_false, startOf]
      omega
  unfold value at hvalue
  omega

/-- Seconds are ordered by the values of the units below a common period. -/
theorem ordinal_le_of_values_le {parent unit : TimeUnit} (hparent : parent ≠ .week)
    (hunit : unit ≠ .week) (hle : parent ≤ unit) {a b : Int}
    (hord : ordinal parent a ≤ ordinal parent b)
    (hvalues : ∀ u, parent < u → u ≤ unit → u ≠ .week →
      value u u.defaultScope a ≤ value u u.defaultScope b) :
    ordinal unit a ≤ ordinal unit b := by
  induction hrank : unit.rank using Nat.strongRecOn generalizing unit with
  | ind rank ih =>
      by_cases heq : parent = unit
      · exact heq ▸ hord
      · have hlt : parent < unit := by
          have hne : parent.rank ≠ unit.rank := fun h => heq (TimeUnit.rank_injective h)
          rw [TimeUnit.le_def] at hle
          rw [TimeUnit.lt_def]
          omega
        -- The unit's usual scope lies between the two, and the period of the scope is next.
        have hscope : parent ≤ unit.defaultScope ∧ unit.defaultScope < unit ∧
            unit.defaultScope ≠ .week := by
          clear hvalues ih hord
          revert hlt hparent hunit
          cases parent <;> cases unit <;> decide
        obtain ⟨habove, hbelow, hnoweek⟩ := hscope
        refine ordinal_le_of_value_le hunit ?_ (hvalues unit hlt (Nat.le_refl _) hunit)
        refine ih unit.defaultScope.rank (by rw [← hrank]; exact hbelow) hnoweek habove ?_ rfl
        intro u hlow hhigh
        exact hvalues u hlow (Nat.le_trans hhigh (Nat.le_of_lt hbelow))

/-! ## Shifts -/

theorem monthsLater_div (s k : Int) :
    monthsLater s k / 86400 = monthStart (ordinal .month s + k) +
      min (s / 86400 - monthStart (ordinal .month s)) (monthDays (ordinal .month s + k) - 1) := by
  simp only [monthsLater]
  omega

theorem monthsLater_mod (s k : Int) : monthsLater s k % 86400 = s % 86400 := by
  simp only [monthsLater]
  omega

theorem value_day_monthsLater (s k : Int) :
    value .day .month (monthsLater s k) =
      min (value .day .month s) (monthDays (ordinal .month s + k)) := by
  rw [value_day_month, value_day_month, ordinal_monthsLater, monthsLater_div]
  omega

/-- Values of time units depend on the time of day alone. -/
theorem value_time_congr {unit : TimeUnit} (htime : unit.isTime = true) {a b : Int}
    (h : a % 86400 = b % 86400) :
    value unit unit.defaultScope a = value unit unit.defaultScope b := by
  cases unit <;> simp only [TimeUnit.isTime, Bool.false_eq_true] at htime
  · rw [value_eq_mod (n := 24) rfl rfl, value_eq_mod (n := 24) rfl rfl]
    simp only [ordinal]
    omega
  · rw [value_eq_mod (n := 60) rfl rfl, value_eq_mod (n := 60) rfl rfl]
    simp only [ordinal]
    omega
  · rw [value_eq_mod (n := 60) rfl rfl, value_eq_mod (n := 60) rfl rfl]
    simp only [ordinal]
    omega

/-- Adding months never raises the value of a finer unit. -/
theorem value_monthsLater_le {unit : TimeUnit} (hunit : unit = .day ∨ unit.isTime = true)
    (s k : Int) :
    value unit unit.defaultScope (monthsLater s k) ≤ value unit unit.defaultScope s := by
  rcases hunit with rfl | htime
  · show value .day .month _ ≤ value .day .month _
    rw [value_day_monthsLater]
    exact Int.min_le_left _ _
  · exact Int.le_of_eq (value_time_congr htime (monthsLater_mod s k))

/-- A shift never raises the value of a finer unit. -/
theorem value_moved_le {parent unit : TimeUnit} (hparent : parent ≠ .epoch ∧ parent ≠ .week)
    (hunit : unit ≠ .week) (hlt : parent < unit) (s k : Int) :
    value unit unit.defaultScope (moved parent s k) ≤ value unit unit.defaultScope s := by
  obtain ⟨hepoch, hweek⟩ := hparent
  cases parent with
  | epoch => exact absurd rfl hepoch
  | week => exact absurd rfl hweek
  | month =>
      refine value_monthsLater_le ?_ s k
      revert hlt hunit
      cases unit <;> decide
  | year =>
      by_cases hmonth : unit = .month
      · subst hmonth
        rw [value_eq_mod (n := 12) rfl rfl, value_eq_mod (n := 12) rfl rfl]
        unfold moved
        rw [ordinal_monthsLater]
        omega
      · refine value_monthsLater_le ?_ s (12 * k)
        revert hlt hunit hmonth
        cases unit <;> decide
  | day | hour | minute | second =>
      -- Shorter shifts are whole numbers of every finer unit's scope.
      cases unit with
      | hour | minute | second =>
          rw [value_eq_mod rfl rfl, value_eq_mod rfl rfl]
          first
          | exact absurd hlt (by decide)
          | (simp only [moved, secondsPer, ordinal]; omega)
      | epoch | year | month | week | day => exact absurd hlt (by decide)

end Cadence.Civil

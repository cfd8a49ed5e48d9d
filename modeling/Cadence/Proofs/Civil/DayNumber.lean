import Cadence.Proofs.Civil.Usual

/-!
# Numbered days

Every week has seven days and every month at least 28, so a day number up to that bound comes once
in every period.  `nextDay` is the day on which it comes next, other than the day of a second
itself.
-/

namespace Cadence.Civil

/-- Every period of the scope has a day with the number. -/
def DayNumber (scope : TimeUnit) (target : Int) : Prop :=
  (scope = .week ∧ 1 ≤ target ∧ target ≤ 7) ∨ (scope = .month ∧ 1 ≤ target ∧ target ≤ 28)

instance (scope : TimeUnit) (target : Int) : Decidable (DayNumber scope target) :=
  inferInstanceAs (Decidable (_ ∨ _))

/-- The period of a scope in which a day number that is not shown comes next. -/
def nextPeriod (scope : TimeUnit) (target s : Int) : Int :=
  if value .day scope s < target then ordinal scope s else ordinal scope s + 1

/-- The day on which a day number comes in a period. -/
def numberedDay (scope : TimeUnit) (target k : Int) : Int :=
  ordinal .day (begins scope k) + (target - 1)

/-- The day on which a day number that is not shown comes next. -/
def nextDay (scope : TimeUnit) (target s : Int) : Int :=
  numberedDay scope target (nextPeriod scope target s)

namespace DayNumber

variable {scope : TimeUnit} {target : Int}

theorem scope_ne_epoch (h : DayNumber scope target) : scope ≠ .epoch := by
  rcases h with ⟨rfl, -⟩ | ⟨rfl, -⟩ <;> decide

theorem scope_ne_day (h : DayNumber scope target) : scope ≠ .day := by
  rcases h with ⟨rfl, -⟩ | ⟨rfl, -⟩ <;> decide

theorem isTime_eq_false (h : DayNumber scope target) : scope.isTime = false := by
  rcases h with ⟨rfl, -⟩ | ⟨rfl, -⟩ <;> rfl

theorem nests (h : DayNumber scope target) : Nests scope .day := by
  rcases h with ⟨rfl, -⟩ | ⟨rfl, -⟩ <;> decide

theorem measured (h : DayNumber scope target) : measured .day scope = true := by
  rcases h with ⟨rfl, -⟩ | ⟨rfl, -⟩ <;> rfl

theorem target_bounds (h : DayNumber scope target) : 1 ≤ target ∧ target ≤ 28 := by
  rcases h with ⟨-, hlow, hhigh⟩ | ⟨-, hlow, hhigh⟩ <;> omega

theorem begins_eq (h : DayNumber scope target) (k : Int) :
    begins .day (ordinal .day (begins scope k)) = begins scope k :=
  startOf_begins h.nests k

theorem length_le (h : DayNumber scope target) (k : Int) :
    ordinal .day (begins scope k) + target ≤ ordinal .day (begins scope (k + 1)) := by
  rcases h with ⟨rfl, -, htarget⟩ | ⟨rfl, -, htarget⟩
  · simp only [begins, ordinal]
    omega
  · have hnext := monthStart_succ k
    have hdays := monthDays_bounds k
    simp only [begins, ordinal]
    omega

theorem value_eq (h : DayNumber scope target) (s : Int) :
    value .day scope s = ordinal .day s - ordinal .day (begins scope (ordinal scope s)) + 1 := by
  simp only [value, base, h.scope_ne_epoch, reduceCtorEq, if_false, startOf,
    TimeUnit.resetValue, Option.getD_some]
  omega

theorem value_bounds (h : DayNumber scope target) (s : Int) :
    1 ≤ value .day scope s ∧ value .day scope s ≤ 31 := by
  rcases h with ⟨rfl, -⟩ | ⟨rfl, -⟩
  · simp only [value, base, startOf, begins, ordinal, reduceCtorEq, if_false,
      TimeUnit.resetValue, Option.getD_some]
    omega
  · have hbounds := value_day_bounds s
    have hdays := monthDays_bounds (ordinal .month s)
    omega

/-- The numbered day lies in the period, and shows the number there. -/
theorem numberedDay_spec (h : DayNumber scope target) (k : Int) {s : Int}
    (hs : ordinal .day s = numberedDay scope target k) :
    ordinal scope s = k ∧ value .day scope s = target := by
  have htarget := h.target_bounds
  have hlength := h.length_le k
  have hday : TimeUnit.day ≠ .epoch := by decide
  unfold numberedDay at hs
  have hperiod : ordinal scope s = k := by
    rw [ordinal_eq_iff h.scope_ne_epoch, ← h.begins_eq k, ← h.begins_eq (k + 1),
      ← le_ordinal_iff hday, ← ordinal_lt_iff hday]
    omega
  refine ⟨hperiod, ?_⟩
  rw [h.value_eq, hperiod, hs]
  omega

/-- A day that shows the number is the numbered day of its period. -/
theorem eq_numberedDay (h : DayNumber scope target) {s : Int}
    (hs : value .day scope s = target) :
    ordinal .day s = numberedDay scope target (ordinal scope s) := by
  rw [h.value_eq] at hs
  unfold numberedDay
  omega

theorem numberedDay_mono (h : DayNumber scope target) {k k' : Int} (hk : k ≤ k') :
    numberedDay scope target k ≤ numberedDay scope target k' := by
  have hmono := ordinal_mono .day (begins_le_begins h.scope_ne_epoch hk)
  unfold numberedDay
  omega

theorem lt_nextDay (h : DayNumber scope target) (s : Int) :
    ordinal .day s < nextDay scope target s := by
  have hvalue := h.value_eq s
  have hlength := h.length_le (ordinal scope s)
  have hbelow := (startOf_bounds h.scope_ne_epoch s).2
  rw [← h.begins_eq, ← ordinal_lt_iff (by decide)] at hbelow
  have htarget := h.target_bounds
  unfold nextDay nextPeriod numberedDay
  split <;> omega

/-- No day before the next one shows the number. -/
theorem nextDay_le (h : DayNumber scope target) {a b : Int} (hne : value .day scope a ≠ target)
    (hb : value .day scope b = target) (hle : ordinal .day a ≤ ordinal .day b) :
    nextDay scope target a ≤ ordinal .day b := by
  have hperiods : ordinal scope a ≤ ordinal scope b := by
    by_contra hlt
    have := ordinal_lt_of_nests h.nests (Int.not_le.mp hlt)
    omega
  rw [h.eq_numberedDay hb]
  apply h.numberedDay_mono
  unfold nextPeriod
  split
  · exact hperiods
  · -- Within one period a later day shows a higher number.
    rename_i hpast
    by_contra hsame
    have heq : ordinal scope a = ordinal scope b := by omega
    have ha' := h.value_eq a
    have hb' := h.value_eq b
    rw [heq] at ha'
    omega

/-- A raise moves to the next day as far as the number is higher. -/
theorem nextDay_of_lt (h : DayNumber scope target) {s : Int} (hlt : value .day scope s < target) :
    nextDay scope target s = ordinal .day s + (target - value .day scope s) := by
  have hvalue := h.value_eq s
  simp only [nextDay, nextPeriod, if_pos hlt, numberedDay]
  omega

end DayNumber

theorem nextDay_of_gt {scope : TimeUnit} {target s : Int} (hgt : target < value .day scope s) :
    nextDay scope target s = numberedDay scope target (ordinal scope s + 1) := by
  have hnot : ¬value .day scope s < target := by omega
  simp only [nextDay, nextPeriod, if_neg hnot]

end Cadence.Civil

import Cadence.Proofs.Civil.Value

/-!
# Numbers of weeks

A week belongs to the year that holds its Thursday, and weeks are numbered within these years.  The
first weeks of the years and the years of the weeks form a Galois connection (`firstWeekOf_le_iff`),
and no year has more than 53 weeks.  So numbers of weeks are never below 1, and whatever the number
of a week is, at most 52 weeks later there is one with number 1 (`exists_weekNumber_eq_one`).
-/

namespace Cadence.Civil

/-- The year that holds the Thursday of a week. -/
def weekYear (k : Int) : Int := yearOfDay (7 * k + 5)

/-- The first week of a year: the one that holds January 4. -/
def firstWeekOf (year : Int) : Int := (daysBeforeYear year + 1) / 7

/-- The number of a week within its year. -/
def weekNumber (k : Int) : Int := k - firstWeekOf (weekYear k) + 1

theorem value_week_year (s : Int) : value .week .year s = weekNumber (ordinal .week s) := by
  simp only [value, base, weekNumber, firstWeekOf, weekYear, reduceCtorEq, if_false, if_true]
  omega

theorem firstWeekOf_le_iff {year k : Int} : firstWeekOf year ≤ k ↔ year ≤ weekYear k := by
  have hyear : weekYear k = ordinal .year ((7 * k + 5) * 86400) := by
    simp [ordinal, weekYear]
  rw [hyear, le_ordinal_iff (by decide)]
  simp only [begins, firstWeekOf]
  omega

theorem firstWeekOf_succ_bounds (year : Int) :
    firstWeekOf year < firstWeekOf (year + 1) ∧
      firstWeekOf (year + 1) ≤ firstWeekOf year + 53 := by
  have hlength := daysBeforeYear_succ year
  unfold firstWeekOf
  split at hlength <;> omega

theorem weekYear_firstWeekOf (year : Int) : weekYear (firstWeekOf year) = year := by
  have hle := firstWeekOf_le_iff.mp (Int.le_refl (firstWeekOf year))
  have hlt : ¬year + 1 ≤ weekYear (firstWeekOf year) := by
    rw [← firstWeekOf_le_iff]
    have := (firstWeekOf_succ_bounds year).1
    omega
  omega

theorem weekNumber_firstWeekOf (year : Int) : weekNumber (firstWeekOf year) = 1 := by
  rw [weekNumber, weekYear_firstWeekOf]
  omega

theorem one_le_weekNumber (k : Int) : 1 ≤ weekNumber k := by
  have hle := firstWeekOf_le_iff.mpr (Int.le_refl (weekYear k))
  unfold weekNumber
  omega

/-- From any week it is at most 52 weeks to a week with number 1: the week itself, or the first one
of the next year. -/
theorem exists_weekNumber_eq_one (k : Int) : ∃ n : Nat, n ≤ 52 ∧ weekNumber (k + n) = 1 := by
  by_cases hfirst : weekNumber k = 1
  · exact ⟨0, by omega, by simpa using hfirst⟩
  · have hnumber := one_le_weekNumber k
    have hnext : k < firstWeekOf (weekYear k + 1) := by
      by_contra hle
      have := firstWeekOf_le_iff.mp (Int.not_lt.mp hle)
      omega
    have hlength := (firstWeekOf_succ_bounds (weekYear k)).2
    refine ⟨(firstWeekOf (weekYear k + 1) - k).toNat, ?_, ?_⟩
    · unfold weekNumber at hfirst hnumber
      omega
    · have hweek : k + ((firstWeekOf (weekYear k + 1) - k).toNat : Int) =
          firstWeekOf (weekYear k + 1) := by omega
      rw [hweek, weekNumber_firstWeekOf]

end Cadence.Civil

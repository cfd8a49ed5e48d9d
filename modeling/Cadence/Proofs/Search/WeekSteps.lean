import Cadence.Proofs.Civil.WeekNumber
import Cadence.Proofs.Search.GivingUp

/-!
# How long a carry waits for a week

A carry of weeks lands in the next year and steps on while the number of the week is past the
target.  The steps are followed without a budget (`SteppedPast`).  A week with number 1 is never more
than 52 weeks away, so that many steps are enough from any date, unless one of them leaves the range
(`exists_endOfSteps`).  A carry of weeks never runs out of attempts (`carry_week_steps`).
-/

namespace Cadence

open Civil

namespace Search

variable {δ : Type} [Calendar δ] {s : Search} {unit scope : TimeUnit} {target : Int}

/-! ## Steps -/

/-- A number of steps, each from a date on which the unit is past the target. -/
inductive SteppedPast (unit scope : TimeUnit) (target : Int) : Nat → δ → δ → Prop
  | here (x : δ) : SteppedPast unit scope target 0 x x
  | step {x y z : δ} {v : Int} {n : Nat} (hread : Calendar.read x unit scope = .ok v)
      (hpast : target < v) (hshift : Calendar.shift x unit 1 = .ok y)
      (hrest : SteppedPast unit scope target n y z) : SteppedPast unit scope target (n + 1) x z

/-- How a number of steps by weeks end: on a week whose number is between 1 and the target, or with a
last step that leaves the range from a week still past the target. -/
inductive EndOfSteps (target : Int) (x : DateTime) : Nat → Except Error DateTime → Prop
  | reached {y : DateTime} {v : Int} {n : Nat} (hsteps : SteppedPast .week .year target n x y)
      (hread : Calendar.read y .week .year = .ok v) (hfirst : 1 ≤ v) (hle : v ≤ target) :
      EndOfSteps target x n (.ok y)
  | outOfRange {y : DateTime} {v : Int} {n : Nat} (hsteps : SteppedPast .week .year target n x y)
      (hread : Calendar.read y .week .year = .ok v) (hpast : target < v)
      (hshift : Calendar.shift y .week 1 = .error .outOfRange) :
      EndOfSteps target x (n + 1) (.error .outOfRange)

theorem stepWhilePast_of_le {x : δ} {v : Int} (hread : Calendar.read x unit scope = .ok v)
    (hle : v ≤ target) (remaining : Nat) :
    stepWhilePast unit scope target remaining x = .ok x := by
  cases remaining <;> simp [stepWhilePast, hread, hle, bind, Except.bind, pure, Except.pure]

theorem stepWhilePast_of_past {x : δ} {v : Int} (hread : Calendar.read x unit scope = .ok v)
    (hpast : target < v) (remaining : Nat) :
    stepWhilePast unit scope target (remaining + 1) x =
      Calendar.shift x unit 1 >>= stepWhilePast unit scope target remaining := by
  have hle : ¬v ≤ target := by omega
  simp [stepWhilePast, hread, hle, bind, Except.bind]

theorem read_week_year (x : DateTime) :
    Calendar.read x .week .year = .ok (weekNumber (ordinal .week x.second)) :=
  read_eq_ok.mpr ⟨by decide, (value_week_year x.second).symm⟩

theorem EndOfSteps.here {x : DateTime} (hle : weekNumber (ordinal .week x.second) ≤ target)
    (budget : Nat) : EndOfSteps target x 0 (stepWhilePast .week .year target budget x) := by
  rw [stepWhilePast_of_le (read_week_year x) hle]
  exact .reached (.here x) (read_week_year x) (one_le_weekNumber _) hle

/-- One more step in front. -/
theorem EndOfSteps.step {x y : DateTime} {v : Int} {n : Nat} {result : Except Error DateTime}
    (hread : Calendar.read x .week .year = .ok v) (hpast : target < v)
    (hshift : Calendar.shift x .week 1 = .ok y) (h : EndOfSteps target y n result) :
    EndOfSteps target x (n + 1) result := by
  cases h with
  | reached hsteps hread' hfirst hle =>
      exact .reached (.step hread hpast hshift hsteps) hread' hfirst hle
  | outOfRange hsteps hread' hpast' hshift' =>
      exact .outOfRange (.step hread hpast hshift hsteps) hread' hpast' hshift'

/-- Steps by weeks end at the latest on a given week that is not past the target, within any budget
that reaches there. -/
theorem exists_endOfSteps {n : Nat} {x : DateTime}
    (hn : weekNumber (ordinal .week x.second + n) ≤ target) {budget : Nat} (hbudget : n ≤ budget) :
    ∃ m ≤ n, EndOfSteps target x m (stepWhilePast .week .year target budget x) := by
  -- A step leads to the next week, from which the given one is one step closer.
  induction n generalizing x budget with
  | zero =>
      have hle : weekNumber (ordinal .week x.second) ≤ target := by simpa using hn
      exact ⟨0, Nat.le_refl 0, .here hle budget⟩
  | succ n ih =>
      by_cases hle : weekNumber (ordinal .week x.second) ≤ target
      · exact ⟨0, Nat.zero_le _, .here hle budget⟩
      · have hpast := Int.not_le.mp hle
        obtain ⟨budget, rfl⟩ := Nat.exists_eq_add_of_le' (Nat.le_trans (Nat.le_add_left 1 n) hbudget)
        rw [stepWhilePast_of_past (read_week_year x) hpast]
        cases hshift : Calendar.shift x .week 1 with
        | error e =>
            obtain rfl := shift_eq_error (by decide) hshift
            exact ⟨1, by omega, .outOfRange (.here x) (read_week_year x) hpast hshift⟩
        | ok later =>
            have hnext : ordinal .week later.second = ordinal .week x.second + 1 :=
              ordinal_shift hshift
            have hcloser : ordinal .week later.second + n =
                ordinal .week x.second + (n + 1 : Nat) := by omega
            obtain ⟨m, hm, hend⟩ := ih (hcloser ▸ hn) (Nat.le_of_succ_le_succ hbudget)
            exact ⟨m + 1, Nat.succ_le_succ hm, hend.step (read_week_year x) hpast hshift⟩

/-! ## Carries -/

/-- The date from which a carry of a unit without a first value starts to step: in the next period
of the free parent, with the finer units reset. -/
def landing (s : Search) (x : δ) (unit scope : TimeUnit) : Except Error δ := do
  let parent := s.freeParent unit scope
  let date ← Calendar.shift x parent 1
  let date ← (s.filterAll parent date).result
  let date ← s.resetBetween date parent unit
  s.resetBelow date unit parent

/-- A carry of a unit without a first value lands, steps and then sets the number. -/
theorem carry_eq_landing (hfirst : unit.resetValue = none)
    (hparent : s.freeParent unit scope ≠ .epoch) (x : δ) :
    (s.carry x unit scope target).result = (do
      let date ← s.landing x unit scope
      let date ← stepWhilePast unit scope target maxAttempts date
      let current ← Calendar.read date unit scope
      let date ← Calendar.shift date unit (s.difference target current)
      s.resetBelow date unit unit) := by
  unfold carry landing enter
  simp only [hparent, if_false, Logged.result_tell_bind]
  simp only [hfirst, Logged.result_bind, Logged.result_lift, bind_assoc]
  rfl

theorem partExcuses_civil (s : Search) (unit : TimeUnit) (attempts : Nat) :
    PartExcuses DateTime s (· ≠ .noMatch unit attempts) where
  read date u scope _ := onlyFails_read date u scope unit attempts
  shift date u _ count := onlyFails_shift date u unit count attempts
  predicate _ name _ := onlyFails_predicate s name unit attempts

/-- What comes before the steps may give up on the free parent, but not on weeks. -/
theorem onlyFails_landing (s : Search) (x : DateTime) :
    OnlyFails (· ≠ .noMatch .week maxAttempts) (s.landing x .week .year) := by
  have hparts := s.partExcuses_civil .week maxAttempts
  have hle : s.freeParent .week .year ≤ .year := freeParent_le
  have hweek : s.freeParent .week .year < .week := Nat.lt_of_le_of_lt hle (by decide)
  unfold landing
  apply (onlyFails_shift x _ _ _ _).bind
  intro a
  apply (hparts.filterAll _ a).bind
  · intro b
    apply (hparts.resetBetween b _ _).bind
    intro c
    exact hparts.resetBelow c (Nat.le_of_lt hweek)
  · intro hexhausted
    have heq := (Error.noMatch.inj hexhausted).1
    exact absurd (heq ▸ hweek) (Nat.lt_irrefl _)

/-- From every date on which a carry of weeks starts to step it makes at most 52 steps, and then the
number of the week is between 1 and the target, or the last step has left the range.  So a carry of
weeks never runs out of attempts. -/
theorem carry_week_steps (s : Search) {target : Int} (htarget : 1 ≤ target) (x : DateTime) :
    (∀ start, s.landing x .week .year = .ok start →
      ∃ n ≤ 52, EndOfSteps target start n (stepWhilePast .week .year target maxAttempts start)) ∧
    (s.carry x .week .year target).result ≠ .error (.noMatch .week maxAttempts) := by
  have hsteps (start : DateTime) :
      ∃ n ≤ 52, EndOfSteps target start n (stepWhilePast .week .year target maxAttempts start) := by
    obtain ⟨n, hn, hone⟩ := exists_weekNumber_eq_one (ordinal .week start.second)
    have hbudget : n ≤ maxAttempts := Nat.le_trans hn (by decide)
    obtain ⟨m, hm, hend⟩ := exists_endOfSteps (hone.le.trans htarget) hbudget
    exact ⟨m, Nat.le_trans hm hn, hend⟩
  refine ⟨fun start _ => hsteps start, fun he => ?_⟩
  by_cases hparent : s.freeParent .week .year = .epoch
  · simp [carry, hparent, maxAttempts] at he
  · rw [carry_eq_landing rfl hparent] at he
    refine (onlyFails_landing s x).bind (fun start => ?_) _ he rfl
    apply OnlyFails.bind
    · obtain ⟨n, -, hend⟩ := hsteps start
      generalize stepWhilePast .week .year target maxAttempts start = result at hend ⊢
      cases hend with
      | reached => exact .of_ok _
      | outOfRange => exact .of_error (by simp)
    · intro y
      apply (onlyFails_read y _ _ _ _).bind
      intro v
      apply (onlyFails_shift y _ _ _ _).bind
      intro z
      exact (s.partExcuses_civil .week maxAttempts).resetBelow z (Nat.le_refl _)

/-- A carry to the fifth week lands on the first of January 2017, which lies in the last week of
2016. -/
theorem carry_week_steps_fifthWeek :
    ∃ start, Frequency.fifthWeek.search.landing Frequency.newYear2016 .week .year = .ok start ∧
      Calendar.read start .week .year = .ok 52 ∧
      (∃ n ≤ 52, EndOfSteps 5 start n (stepWhilePast .week .year 5 maxAttempts start)) ∧
      (Frequency.fifthWeek.search.carry Frequency.newYear2016 .week .year 5).result ≠
        .error (.noMatch .week maxAttempts) := by
  have hlanding : Frequency.fifthWeek.search.landing Frequency.newYear2016 .week .year =
      .ok ⟨736695 * 86400, 0, by decide, by decide⟩ := by decide +kernel
  obtain ⟨hsteps, hcarry⟩ := Frequency.fifthWeek.search.carry_week_steps
    (show (1 : Int) ≤ 5 by decide) Frequency.newYear2016
  exact ⟨_, hlanding, by decide, hsteps _ hlanding, hcarry⟩

end Search

end Cadence

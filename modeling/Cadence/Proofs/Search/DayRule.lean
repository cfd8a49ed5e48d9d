import Cadence.Proofs.Civil.DayNumber
import Cadence.Proofs.Search.FixedPoint
import Cadence.Proofs.Zone.Steady

/-!
# One numbered day in a zone

A search for a numbered day of the week or the month raises or carries the date once.  It does so
on the civil calendar, and in a zone it goes the same way as long as the clocks do not change on
the days on which it sets them (`Frequency.IsDayRule.exists_visit`): it then answers the midnight of
the next day with the number, which no earlier match precedes (`Frequency.next_day`).  Hours are
reset by taking back elapsed time.  On a day on which the clocks change this misses the midnight,
and where they go forward it leads out of the day in every pass (`Frequency.next_sundays_gives_up`).
-/

namespace Cadence

open Civil

/-- The frequency requires a number of days within weeks or months, and nothing else. -/
structure Frequency.IsDayRule (f : Frequency) (rule : Rule) (target : Int64) : Prop where
  rules : f.rules.toList = [rule]
  unit : rule.unit = .day
  requirement : rule.requirement = .fixed target
  number : DayNumber rule.scope target.toInt

namespace Frequency.IsDayRule

variable {f : Frequency} {rule : Rule} {target : Int64} (hf : f.IsDayRule rule target)

include hf

/-! ## The rule -/

theorem rules_of (u : TimeUnit) : f.search.rules.of u = if u = .day then [rule] else [] := by
  show f.rules.toList.filter (·.unit = u) = _
  rw [hf.rules]
  by_cases hu : u = .day
  · simp [hf.unit, hu]
  · have hne : ¬TimeUnit.day = u := fun heq => hu heq.symm
    simp [hf.unit, hu, hne]

theorem not_isFixed {u : TimeUnit} (hu : u ≠ .day) : f.search.rules.isFixed u = false := by
  unfold RuleSet.isFixed
  rw [hf.rules_of, if_neg hu]
  rfl

/-- The scope of the rule is the last candidate, and it is free. -/
theorem freeParent_eq : f.search.freeParent .day rule.scope = rule.scope := by
  have hunits : TimeUnit.constrainable.filter (· ≤ TimeUnit.day) =
      [.year, .month, .week, .day] := by
    decide
  have hscope := hf.number.scope_ne_day
  have hlast : ([TimeUnit.epoch, .year, .year] ++ [rule.scope]).filter (fun candidate =>
      decide (candidate ≤ rule.scope) && !f.search.rules.isFixed candidate) =
      [TimeUnit.epoch, .year, .year].filter (fun candidate =>
        decide (candidate ≤ rule.scope) && !f.search.rules.isFixed candidate) ++ [rule.scope] := by
    rw [List.filter_append]
    congr 1
    simp [hf.not_isFixed hscope, TimeUnit.le_def]
  unfold Search.freeParent
  rw [hunits]
  simp only [List.flatMap_cons, List.flatMap_nil, hf.rules_of, reduceCtorEq, if_false, if_true]
  exact (congrArg (List.getLastD · .epoch) hlast).trans List.getLastD_concat

theorem filterAll_eq {δ : Type} [Calendar δ] (x : δ) :
    (f.search.filterAll rule.scope x).result = .ok x := by
  have hscope := hf.number.scope_ne_day
  unfold Search.filterAll
  rw [hf.rules_of, if_neg hscope]
  rfl

theorem resetBetween_eq {δ : Type} [Calendar δ] (x : δ) :
    f.search.resetBetween x rule.scope .day = .ok x := by
  unfold Search.resetBetween
  rcases hf.number with ⟨hscope, -⟩ | ⟨hscope, -⟩
  · have hbetween : TimeUnit.between .week .day = [] := by decide
    rw [hscope, hbetween]
    rfl
  · have hbetween : TimeUnit.between .month .day = [.week] := by decide
    rw [hscope, hbetween, List.filter_cons, hf.not_isFixed (by decide)]
    rfl

end Frequency.IsDayRule

/-- Within the day, time units are counted from zero to at most 59, from a second of the day. -/
theorem Civil.value_time_bounds {unit : TimeUnit} (htime : unit.isTime = true) (s : Int) :
    0 ≤ value unit (unit.defaultScope.finer .day) s ∧
      value unit (unit.defaultScope.finer .day) s ≤ 59 ∧
      ordinal .day (s - secondsPer unit * value unit (unit.defaultScope.finer .day) s) =
        ordinal .day s := by
  have hhour : TimeUnit.finer .day .day = .day := rfl
  have hminute : TimeUnit.finer .hour .day = .hour := rfl
  have hsecond : TimeUnit.finer .minute .day = .minute := rfl
  cases unit <;> simp only [TimeUnit.isTime, Bool.false_eq_true] at htime <;>
    simp only [TimeUnit.defaultScope, TimeUnit.legalScopes, List.headD_cons, hhour, hminute,
      hsecond, value, base, startOf, begins, ordinal, secondsPer, TimeUnit.resetValue,
      Option.getD_some, reduceCtorEq, if_false] <;>
    omega

/-- Differences of small numbers are exact. -/
theorem Frequency.difference_eq (f : Frequency) {a b : Int} (h : -1000 ≤ a - b ∧ a - b ≤ 1000) :
    f.search.difference a b = a - b := by
  show Search.saturatingDifference a b = a - b
  unfold Search.saturatingDifference
  omega

namespace Zoned

variable {f : Frequency} {z : Zoned} {zone : Zone} {t : DateTime} {day : Int}

/-! ## Resets on a steady day -/

/-- Hours, minutes and seconds are reset within the day. -/
theorem resetDefault_agrees (h : ShowsOn zone day z t) {unit : TimeUnit}
    (htime : unit.isTime = true) :
    Agrees (ShowsOn zone day) (f.search.resetDefault .day z unit)
      (f.search.resetDefault .day t unit) := by
  obtain ⟨-, -, -, hday⟩ := id h
  have hfirst : unit.resetValue = some 0 := by
    revert htime
    cases unit <;> simp [TimeUnit.isTime, TimeUnit.resetValue]
  unfold Search.resetDefault
  rw [hfirst]
  apply Search.reset_agrees h.wallClock h
  intro v hv
  apply shift_time_agrees h htime
  obtain ⟨-, rfl⟩ := Search.read_eq_ok.mp hv
  have hbounds := value_time_bounds htime t.second
  rw [f.difference_eq (by omega), ← hday, ← hbounds.2.2]
  congr 1
  simp only [Int.zero_sub, Int.mul_neg]
  rfl

theorem resetBelow_agrees (h : ShowsOn zone day z t) :
    Agrees (ShowsOn zone day) (f.search.resetBelow z .day .day)
      (f.search.resetBelow t .day .day) := by
  unfold Search.resetBelow
  apply Agrees.foldlM _ h
  intro unit hunit z' t' h'
  refine resetDefault_agrees h' ?_
  revert hunit
  cases unit <;> decide

/-- The day is reset to the first one of the period if the zone is steady there. -/
theorem reset_day_agrees {scope : TimeUnit} {target : Int} (hnumber : DayNumber scope target)
    (h : ShowsOn zone day z t)
    (hsteady : ∃ reached,
      zone.SteadyOn (ordinal .day (begins scope (ordinal scope t.second))) reached) :
    Agrees (ShowsOn zone (ordinal .day (begins scope (ordinal scope t.second))))
      (f.search.reset z .day scope 1) (f.search.reset t .day scope 1) := by
  obtain ⟨-, -, -, hday⟩ := id h
  have hvalue := hnumber.value_eq t.second
  have hbounds := hnumber.value_bounds t.second
  have hread : Calendar.read t .day scope = .ok (value .day scope t.second) :=
    Search.read_eq_ok.mpr ⟨hnumber.measured, rfl⟩
  have hfirst : day + (1 - value .day scope t.second) =
      ordinal .day (begins scope (ordinal scope t.second)) := by
    omega
  unfold Search.reset
  rw [Search.read_congr (show Calendar.wallClock z = Calendar.wallClock t from h.wallClock), hread]
  show Agrees _ (if value .day scope t.second = 1 then pure z else Calendar.shift z .day _)
    (if value .day scope t.second = 1 then pure t else Calendar.shift t .day _)
  rw [f.difference_eq (by omega)]
  by_cases hone : value .day scope t.second = 1
  · rw [if_pos hone, if_pos hone, ← hfirst, hone, Int.sub_self, Int.add_zero]
    exact .ok h
  · rw [if_neg hone, if_neg hone, ← hfirst]
    exact shift_days_agrees h (hfirst ▸ hsteady)

end Zoned

/-! ## Visits -/

/-- The days on which the search for a numbered day sets the clock. -/
def Civil.visitedDays (scope : TimeUnit) (target s : Int) : List Int :=
  if value .day scope s < target then [nextDay scope target s]
  else
    [ordinal .day (moved scope s 1), ordinal .day (begins scope (ordinal scope s + 1)),
      nextDay scope target s]

namespace Frequency.IsDayRule

variable {f : Frequency} {rule : Rule} {target : Int64} (hf : f.IsDayRule rule target)
  {z : Zoned} {zone : Zone} {offset : Offset} {t : DateTime}

include hf

theorem raise_agrees (h : z.Shows zone offset t)
    (hlt : value .day rule.scope t.second < target.toInt)
    (hsteady : ∃ reached,
      zone.SteadyOn (nextDay rule.scope target.toInt t.second) reached) :
    Agrees (Zoned.ShowsOn zone (nextDay rule.scope target.toInt t.second))
      (Calendar.shift z .day
        (f.search.difference target.toInt (value .day rule.scope t.second)) >>=
          fun date => f.search.resetBelow date .day .day)
      (Calendar.shift t .day
        (f.search.difference target.toInt (value .day rule.scope t.second)) >>=
          fun date => f.search.resetBelow date .day .day) := by
  have hbounds := hf.number.value_bounds t.second
  have htarget := hf.number.target_bounds
  have hday : ordinal .day (moved .day t.second
      (target.toInt - value .day rule.scope t.second)) =
      nextDay rule.scope target.toInt t.second := by
    rw [ordinal_moved (by decide), hf.number.nextDay_of_lt hlt]
  rw [f.difference_eq (by omega)]
  rw [← hday] at hsteady ⊢
  apply Agrees.bind (Zoned.shift_date_agrees h rfl (by omega) hsteady)
  intro z' t' h'
  exact Zoned.resetBelow_agrees h'

theorem carry_agrees (h : z.Shows zone offset t)
    (hgt : target.toInt < value .day rule.scope t.second)
    (hsteady : ∀ day ∈ visitedDays rule.scope target.toInt t.second,
      ∃ reached, zone.SteadyOn day reached) :
    Agrees (Zoned.ShowsOn zone (nextDay rule.scope target.toInt t.second))
      (f.search.carry z .day rule.scope target.toInt).result
      (f.search.carry t .day rule.scope target.toInt).result := by
  have htarget := hf.number.target_bounds
  have hnot : ¬value .day rule.scope t.second < target.toInt := by omega
  have hscope := hf.number.scope_ne_epoch
  simp only [visitedDays, if_neg hnot, List.forall_mem_cons, List.not_mem_nil, false_implies,
    implies_true, and_true] at hsteady
  obtain ⟨hlater, hfirst, hnext⟩ := hsteady
  unfold Search.carry
  simp only [hf.freeParent_eq, if_neg hscope, Logged.result_tell_bind]
  have hshift := (Zoned.shift_date_agrees h hf.number.isTime_eq_false (by decide) hlater).and
    (fun t' (ht' : t.shift rule.scope 1 = .ok t') => ordinal_shift ht')
  apply Agrees.result_bind hshift
  rintro z₁ t₁ ⟨h₁, hperiod⟩
  simp only [Logged.result_bind, Logged.result_lift, hf.filterAll_eq, hf.resetBetween_eq,
    Except.bind]
  -- The unit is entered on the first day of the period, and counts on from there.
  unfold Search.enter
  rw [← hperiod] at hfirst
  have hreset := (Zoned.reset_day_agrees (f := f) hf.number h₁ hfirst)
  rw [hperiod] at hreset hfirst
  apply Agrees.bind hreset
  intro z₂ t₂ h₂
  apply Agrees.bind (Zoned.resetBelow_agrees h₂)
  intro z₃ t₃ h₃
  have hcount : nextDay rule.scope target.toInt t.second =
      ordinal .day (begins rule.scope (ordinal rule.scope t.second + 1)) +
        (target.toInt - 1) := nextDay_of_gt hgt
  rw [f.difference_eq (by omega)]
  rw [hcount] at hnext ⊢
  exact Zoned.shift_days_agrees h₃ hnext

/-- If the zone is steady on the days on which the search sets the clock, the visit goes the same
way as on the civil calendar. -/
theorem visit_agrees (h : z.Shows zone offset t)
    (hne : value .day rule.scope t.second ≠ target.toInt)
    (hsteady : ∀ day ∈ visitedDays rule.scope target.toInt t.second,
      ∃ reached, zone.SteadyOn day reached) :
    Agrees (Zoned.ShowsOn zone (nextDay rule.scope target.toInt t.second))
      (f.search.visit z rule).result (f.search.visit t rule).result := by
  have hread : Calendar.read t .day rule.scope = .ok (value .day rule.scope t.second) :=
    Search.read_eq_ok.mpr ⟨hf.number.measured, rfl⟩
  have hwall : Calendar.wallClock z = Calendar.wallClock t := h.wallClock
  simp only [Search.visit, hf.requirement, hf.unit, Search.fix, Search.read_congr hwall, hread,
    Logged.result_bind, Logged.result_lift, Except.bind, if_neg hne]
  by_cases hlt : value .day rule.scope t.second < target.toInt
  · simp only [if_pos hlt, Logged.result_bind, Logged.result_tell, Logged.result_lift]
    apply hf.raise_agrees h hlt
    apply hsteady
    rw [visitedDays, if_pos hlt]
    exact List.mem_singleton_self _
  · rw [if_neg hlt, if_neg hlt]
    exact hf.carry_agrees h (by omega) hsteady

/-- On the civil calendar the visit leads to the midnight of the next day with the number, unless
that is out of range. -/
theorem visit_civil (hne : value .day rule.scope t.second ≠ target.toInt) :
    (f.search.visit t rule).result = .error .outOfRange ∨ ∃ t',
      (f.search.visit t rule).result = .ok t' ∧ t'.nano = t.nano ∧
      t'.second = begins .day (nextDay rule.scope target.toInt t.second) := by
  have hs := f.search_subtracts
  have hscope := hf.number.scope_ne_epoch
  have hread : Calendar.read t .day rule.scope = .ok (value .day rule.scope t.second) :=
    Search.read_eq_ok.mpr ⟨hf.number.measured, rfl⟩
  simp only [Search.visit, hf.requirement, hf.unit, Search.fix, hread, Logged.result_bind,
    Logged.result_lift, Except.bind, if_neg hne, Search.shift_civil]
  by_cases hlt : value .day rule.scope t.second < target.toInt
  · have hbounds := hf.number.value_bounds t.second
    have htarget := hf.number.target_bounds
    simp only [if_pos hlt, Logged.result_bind, Logged.result_tell, Logged.result_lift,
      Except.bind]
    rw [f.difference_eq (by omega)]
    cases hshift : t.shift .day (target.toInt - value .day rule.scope t.second) with
    | error e => exact Or.inl (congrArg Except.error (shift_eq_error (by decide) hshift))
    | ok y =>
        right
        refine ⟨y.floor .day, Search.resetBelow_self hs (by decide) y, ?_, ?_⟩
        · exact (y.floor_nano _).trans (nano_shift hshift)
        · rw [DateTime.floor_second, startOf, ordinal_shift hshift, hf.number.nextDay_of_lt hlt]
  · simp only [if_neg hlt, Search.carry, hf.freeParent_eq, if_neg hscope, Logged.result_bind,
      Logged.result_tell, Logged.result_lift, Except.bind, hf.filterAll_eq, hf.resetBetween_eq,
      Search.shift_civil]
    cases hshift : t.shift rule.scope 1 with
    | error e => exact Or.inl (congrArg Except.error (shift_eq_error hscope hshift))
    | ok a =>
        have henter : f.search.enter a .day rule.scope rule.scope target.toInt =
            (a.floor rule.scope).shift .day (target.toInt - 1) :=
          Search.enter_first_eq hs rfl hscope hf.number.measured
        simp only [henter]
        cases hcount : (a.floor rule.scope).shift .day (target.toInt - 1) with
        | error e => exact Or.inl (congrArg Except.error (shift_eq_error (by decide) hcount))
        | ok y =>
            have hfirst : TimeUnit.resetValue .day = some 1 := rfl
            obtain ⟨hsecond, hnano⟩ := Search.enter_first_second hs hfirst hscope
              hf.number.measured (henter.trans hcount)
            refine Or.inr ⟨y, rfl, hnano.trans (nano_shift hshift), ?_⟩
            rw [hsecond, startOf, ordinal_shift hshift, nextDay_of_gt (by omega)]
            rfl

/-- If the zone is steady on the days on which the search sets the clock, the visit leads to the
midnight of the next day with the number, unless that is out of range. -/
theorem exists_visit (h : z.Shows zone offset t)
    (hne : value .day rule.scope t.second ≠ target.toInt)
    (hsteady : ∀ day ∈ visitedDays rule.scope target.toInt t.second,
      ∃ reached, zone.SteadyOn day reached) :
    (f.search.visit z rule).result = .error .outOfRange ∨ ∃ z' reached t',
      (f.search.visit z rule).result = .ok z' ∧
      zone.SteadyOn (nextDay rule.scope target.toInt t.second) reached ∧
      z'.Shows zone reached t' ∧ t'.nano = t.nano ∧
      t'.second = begins .day (nextDay rule.scope target.toInt t.second) := by
  have hagrees := hf.visit_agrees h hne hsteady
  rcases hf.visit_civil hne with hcivil | ⟨t', hcivil, hnano, hsecond⟩
  · rw [hcivil] at hagrees
    left
    revert hagrees
    generalize (f.search.visit z rule).result = zoned
    rintro (⟨⟩ | ⟨⟩)
    · rfl
    · rfl
  · rw [hcivil] at hagrees
    revert hagrees
    generalize (f.search.visit z rule).result = zoned
    rintro (⟨⟨reached, hreached, hshows, -⟩⟩ | ⟨⟩)
    · exact Or.inr ⟨_, reached, t', rfl, hreached, hshows, hnano, hsecond⟩
    · exact Or.inl rfl

/-! ## Answers -/

theorem isMatch_iff_value {δ : Type} [Calendar δ] [WallClockCalendar δ] {date : δ} :
    f.isMatch date = .ok true ↔
      value .day rule.scope (Calendar.wallClock date).second = target.toInt := by
  have hrules : f.search.rules.toList = [rule] := hf.rules
  have hwall : f.search.satisfies date rule =
      f.search.satisfies (Calendar.wallClock date) rule := by
    apply Search.satisfies_congr
    rfl
  rw [isMatch_iff]
  unfold Search.Matches
  rw [hrules, List.forall_mem_singleton, hwall, Search.satisfies_civil, hf.requirement, hf.unit]
  exact and_iff_right hf.number.measured

/-- A visit that leads to a match settles the search. -/
theorem next_of_visit {r x : Zoned} (htruncate : r.truncate = .ok x) :
    (∀ e, (f.search.visit x rule).result = .error e → f.next r = .error e) ∧
    ∀ d, (f.search.visit x rule).result = .ok d → f.isMatch d = .ok true →
      f.next r = .ok (if d < r then r else d) := by
  have hrules : f.search.rules.toList = [rule] := hf.rules
  have hpass : (f.search.pass x).result = (f.search.visit x rule).result := by
    unfold Search.pass
    rw [hrules, List.foldlM_cons, Logged.result_bind]
    cases (f.search.visit x rule).result <;> rfl
  have hnext : f.next r = (f.search.settle r Search.maxPasses .year x).result := by
    show (f.search.next r).result = _
    unfold Search.next
    simp only [Logged.result_bind, Logged.result_lift]
    rw [show Calendar.truncate r = .ok x from htruncate]
    rfl
  rw [hnext]
  unfold Search.maxPasses Search.settle
  rw [Logged.result_bind, hpass]
  constructor
  · intro e he
    rw [he]
    rfl
  · intro d hd hmatch
    have hviolation := Search.violation_eq_none_iff.mpr (isMatch_iff.mp hmatch)
    rw [hd]
    simp only [Except.bind, Logged.result_bind, Logged.result_lift, hviolation,
      Logged.result_tell, Logged.result_pure]

end Frequency.IsDayRule

namespace Frequency.IsDayRule

variable {f : Frequency} {rule : Rule} {target : Int64} (hf : f.IsDayRule rule target)
  {z m d : Zoned} {offset : Offset}

include hf

/-- From the date of a datetime without the number, no match shows a date before the next day. -/
theorem nextDay_le_shownDay
    (hne : value .day rule.scope z.wallClock.second ≠ target.toInt)
    (hdate : z.shownDay ≤ m.shownDay) (hm : f.isMatch m = .ok true) :
    nextDay rule.scope target.toInt z.wallClock.second ≤ m.shownDay :=
  hf.number.nextDay_le hne (hf.isMatch_iff_value.mp hm) hdate

/-- The midnight of the next day matches, because the day is one with the number. -/
theorem isMatch_of_midnight (hsecond : d.wallClock.second =
    begins .day (nextDay rule.scope target.toInt z.wallClock.second)) :
    f.isMatch d = .ok true := by
  rw [hf.isMatch_iff_value]
  show value .day rule.scope d.wallClock.second = target.toInt
  rw [hsecond]
  exact (hf.number.numberedDay_spec _ (ordinal_begins (by decide) _)).2

end Frequency.IsDayRule

namespace Frequency

/-- Of a frequency that numbers the days of weeks or months, a reference whose truncation matches is
answered itself.  Otherwise, unless the range is left, the answer is the midnight of the next day
with the number, if the clocks of the zone change by less than a day and not on the days on which
the search sets them.  No datetime before the answer matches, if it does not go back to a date
before the reference's, which no clock does that is steady on that date. -/
theorem next_day (f : Frequency) {rule : Rule} {target : Int64} (hf : f.IsDayRule rule target)
    (r : Zoned) :
    (∀ x, r.truncate = .ok x → f.isMatch x = .ok true →
      f.next r = .ok (if x < r then r else x)) ∧
    (r.truncate = .ok r.wholeSecond → f.isMatch r.wholeSecond ≠ .ok true → r.zone.Moderate →
      (∀ day ∈ visitedDays rule.scope target.toInt r.wallClock.second,
        ∃ offset, r.zone.SteadyOn day offset) →
      f.next r = .error .outOfRange ∨ ∃ d, f.next r = .ok d ∧ f.isMatch d = .ok true ∧ r < d ∧
        d.zone = r.zone ∧ d.wallClock.nano = 0 ∧
        d.wallClock.second = begins .day (nextDay rule.scope target.toInt r.wallClock.second) ∧
        ∀ m : Zoned, m.zone = r.zone → m.IsShown → ¬m < r.wholeSecond → m < d →
          (r.shownDay ≤ m.shownDay ∨ ∃ offset, r.zone.SteadyOn r.shownDay offset) →
          f.isMatch m ≠ .ok true) := by
  refine ⟨fun x htruncate hx => next_of_truncate htruncate hx, ?_⟩
  intro htruncate hnomatch hmoderate hsteady
  have hshown : r.wholeSecond.IsShown := Zoned.isShown_of_truncate htruncate
  have hvalue : value .day rule.scope r.wallClock.second ≠ target.toInt :=
    fun heq => hnomatch (hf.isMatch_iff_value.mpr heq)
  obtain ⟨hfailed, hsettled⟩ := hf.next_of_visit htruncate
  rcases hf.exists_visit (z := r.wholeSecond) ⟨rfl, rfl, rfl⟩ hvalue hsteady with
    hout | ⟨d, offset, t, hvisit, hday, hd, hnano, hsecond⟩
  · exact Or.inl (hfailed _ hout)
  have hmidnight : d.wallClock.second =
      begins .day (nextDay rule.scope target.toInt r.wallClock.second) := by
    rw [hd.wallClock, hsecond]
    rfl
  have hinstant : d.instant.second =
      begins .day (nextDay rule.scope target.toInt r.wallClock.second) - offset.seconds := by
    rw [hd.second, ← hmidnight, hd.wallClock]
  have hwhole : d.wallClock.nano = 0 := by
    rw [hd.wallClock, hnano]
    rfl
  have hmatch : f.isMatch d = .ok true := hf.isMatch_of_midnight hmidnight
  -- The midnight comes after the reference, because the reference shows an earlier date.
  have hlater : r.instant.second < d.instant.second := by
    rw [hinstant]
    exact (Zoned.shownDay_lt_iff hshown hmoderate hday).mp
      (hf.number.lt_nextDay r.wallClock.second)
  have hback : ¬d < r := by
    rintro (hsec | ⟨hsec, -⟩)
    · omega
    · omega
  refine Or.inr ⟨d, ?_, hmatch, Or.inl hlater, hd.zone, hwhole, hmidnight, ?_⟩
  · rw [hsettled d hvisit hmatch, if_neg hback]
  intro m hzone hm hle hmd hdate hmatches
  have hfrom : r.shownDay ≤ m.shownDay := by
    rcases hdate with hdate | ⟨own, hown⟩
    · exact hdate
    · show r.wholeSecond.shownDay ≤ m.shownDay
      exact Zoned.shownDay_le hshown hmoderate hown hm hzone hle
  have hearlier : m.shownDay < nextDay rule.scope target.toInt r.wallClock.second := by
    rw [Zoned.shownDay_lt_iff hm (hzone ▸ hmoderate) (hzone ▸ hday), ← hinstant]
    exact Zoned.second_lt_of_lt hmd hwhole
  exact absurd hearlier (Int.not_lt.mpr (hf.nextDay_le_shownDay hvalue hfrom hmatches))

/-- The Monday of the week. -/
def mondayRule : Rule := ⟨.day, .week, .fixed 1, rfl, fun h => by cases h⟩

def mondays : Frequency :=
  ((empty .empty).on .day (.fixed 1) (some .week)).toOption.get rfl

def sundays : Frequency :=
  ((empty .empty).on .day (.fixed 7) (some .week)).toOption.get rfl

/-- Ten o'clock in New York, on the Saturday before the clocks go forward. -/
def newYorkSaturday : Zoned :=
  (Zoned.ofLocal? .newYork ((DateTime.atDate? ⟨2014, 3, 8⟩ 36000 0).get rfl)).get rfl

/-- Ten o'clock on the Wednesday of the same week. -/
def newYorkWednesday : Zoned :=
  (Zoned.ofLocal? .newYork ((DateTime.atDate? ⟨2014, 3, 5⟩ 36000 0).get rfl)).get rfl

/-- The midnight of the day on which the clocks go forward. -/
def newYorkSunday : Zoned :=
  (Zoned.ofLocal? .newYork ((DateTime.atDate? ⟨2014, 3, 9⟩ 0 0).get rfl)).get rfl

/-- The search for the Monday after the clocks have gone forward passes over the change. -/
theorem next_mondays_newYork :
    mondays.IsDayRule mondayRule 1 ∧
      newYorkSaturday.truncate = .ok newYorkSaturday.wholeSecond ∧
      mondays.isMatch newYorkSaturday.wholeSecond ≠ .ok true ∧ newYorkSaturday.zone.Moderate ∧
      (∀ day ∈ visitedDays .week 1 newYorkSaturday.wallClock.second,
        ∃ offset, newYorkSaturday.zone.SteadyOn day offset) ∧
      (∃ offset, newYorkSaturday.zone.SteadyOn newYorkSaturday.shownDay offset) ∧
      ∃ d, mondays.next newYorkSaturday = .ok d ∧ mondays.isMatch d = .ok true ∧
        newYorkSaturday < d ∧ ∀ m : Zoned, m.zone = newYorkSaturday.zone → m.IsShown →
          ¬m < newYorkSaturday.wholeSecond → m < d → mondays.isMatch m ≠ .ok true := by
  have hf : mondays.IsDayRule mondayRule 1 := ⟨rfl, rfl, rfl, by decide⟩
  have htruncate : newYorkSaturday.truncate = .ok newYorkSaturday.wholeSecond := by
    decide +kernel
  have hnomatch : mondays.isMatch newYorkSaturday.wholeSecond ≠ .ok true := by decide +kernel
  have hmoderate : newYorkSaturday.zone.Moderate := by decide
  have hseasons : newYorkSaturday.zone.HasSeasons ⟨⟨-14400, by decide⟩, ⟨-18000, by decide⟩,
      ⟨.weekday 3 2 0, 7200⟩, ⟨.weekday 11 1 0, 7200⟩⟩ :=
    ⟨by decide, by decide, Or.inl ⟨rfl, rfl⟩⟩
  have hvisited : visitedDays .week 1 newYorkSaturday.wallClock.second =
      [735672, 735667, 735667] := by decide +kernel
  have hsteady : ∀ day ∈ visitedDays .week 1 newYorkSaturday.wallClock.second,
      ∃ offset, newYorkSaturday.zone.SteadyOn day offset := by
    rw [hvisited]
    intro day hday
    simp only [List.mem_cons, List.not_mem_nil, or_false] at hday
    rcases hday with rfl | rfl | rfl
    · exact hseasons.exists_steadyOn (by decide) (by decide +kernel)
    · exact hseasons.exists_steadyOn (by decide) (by decide +kernel)
    · exact hseasons.exists_steadyOn (by decide) (by decide +kernel)
  have hown : ∃ offset, newYorkSaturday.zone.SteadyOn newYorkSaturday.shownDay offset :=
    hseasons.exists_steadyOn (by decide +kernel) (by decide +kernel)
  have hrange : mondays.next newYorkSaturday ≠ .error .outOfRange := by decide +kernel
  refine ⟨hf, htruncate, hnomatch, hmoderate, hsteady, hown, ?_⟩
  rcases (next_day mondays hf newYorkSaturday).2 htruncate hnomatch hmoderate hsteady with
    hout | ⟨d, hd, hmatch, hlt, -, -, -, hearliest⟩
  · exact absurd hout hrange
  · exact ⟨d, hd, hmatch, hlt, fun m hzone hm hle hmd =>
      hearliest m hzone hm hle hmd (Or.inr hown)⟩

/-- From ten o'clock, the ten hours that are taken back lead to the day before. -/
theorem next_sundays_gives_up :
    sundays.next newYorkWednesday = .error (.noMatch .day 64) ∧
      newYorkWednesday < newYorkSunday ∧ sundays.isMatch newYorkSunday = .ok true := by
  decide +kernel

end Frequency

end Cadence

import Cadence.Proofs.Zone.Shown

/-!
# Fixed points of a search

A pass leaves a date that satisfies every rule, so a search from a date whose truncation is a match
answers at once (`next_of_truncate`).  Whether the answer is then the date itself, and whether an
answer is found again from itself, is left to truncation: it is on the civil calendar and in every
orderly zone, where truncation only drops the fraction of a second (`Frequency.next_next`).
-/

namespace Cadence

open Civil

namespace Search

variable {δ : Type} [Calendar δ] {s : Search} {x y r : δ} {P : δ → Prop}

/-! ## Matches -/

theorem pass_of_matches (hx : s.Matches x) : (s.pass x).result = .ok x := by
  unfold Matches at hx
  unfold pass
  rw [Logged.result_foldlM]
  -- The date does not change on the way, so every rule is visited on the one that satisfies it.
  generalize s.rules.toList = rules at hx ⊢
  induction rules with
  | nil => rfl
  | cons rule rest ih =>
      rw [List.foldlM_cons, visit_of_satisfied (hx rule List.mem_cons_self)]
      exact ih fun rule' hrule' => hx rule' (List.mem_cons_of_mem _ hrule')

/-- A search from a date whose truncation is a match answers the later one of the two. -/
theorem next_of_truncate (htruncate : Calendar.truncate r = .ok x) (hx : s.Matches x) :
    (s.next r).result = .ok (if x < r then r else x) := by
  unfold next
  simp only [Logged.result_tell_bind, Logged.result_bind_eq_ok_iff, Logged.result_lift]
  refine ⟨x, htruncate, ?_⟩
  unfold maxPasses settle
  simp only [Logged.result_bind_eq_ok_iff, Logged.result_lift]
  refine ⟨x, pass_of_matches hx, none, violation_eq_none_iff.mpr hx, ?_⟩
  simp only [Logged.result_tell_bind, Logged.result_pure]

/-! ## What a search preserves -/

/-- A calendar that keeps a property follows itself on the dates that have it. -/
theorem follows_self (hshift : ∀ a unit k b, P a → Calendar.shift a unit k = .ok b → P b)
    (htruncate : ∀ a b, P a → Calendar.truncate a = .ok b → P b) :
    Follows fun a b : δ => a = b ∧ P a := by
  have hself : ∀ e : Except Error δ, (∀ a, e = .ok a → P a) →
      Agrees (fun a b => a = b ∧ P a) e e := by
    intro e he
    cases e with
    | ok a => exact .ok ⟨rfl, he a rfl⟩
    | error e => exact .error e
  constructor
  case wallClock =>
    rintro a _ ⟨rfl, -⟩
    rfl
  case lt_iff =>
    rintro a a' _ _ ⟨rfl, -⟩ ⟨rfl, -⟩
    exact Iff.rfl
  case shift =>
    rintro a _ ⟨rfl, ha⟩ unit k
    exact hself _ fun b hb => hshift a unit k b ha hb
  case truncate =>
    rintro a _ ⟨rfl, ha⟩
    exact hself _ fun b hb => htruncate a b ha hb

/-- What shifts and truncations keep, a run keeps. -/
theorem Run.keeps [WallClockCalendar δ] (hP : Follows fun a b : δ => a = b ∧ P a)
    {legs : List (Leg δ)} (h : Run s x legs y) (hx : P x) : P y := by
  refine h.preserves ?_ hx
  intro leg hleg hstart
  obtain ⟨hrule, hvisit⟩ := h.leg hleg
  have hagrees := hP.visit hrule ⟨rfl, hstart⟩
  rw [hvisit] at hagrees
  cases hagrees with
  | ok hstop => exact hstop.2

end Search

/-! ## Whole seconds of a zone -/

namespace Zoned

/-- A datetime on a whole second that its zone shows. -/
structure IsWhole (zone : Zone) (z : Zoned) : Prop where
  zone : z.zone = zone
  shown : z.IsShown
  nano : z.instant.nano = 0

theorem IsWhole.wholeSecond {zone : Zone} {z : Zoned} (h : z.IsWhole zone) : z.wholeSecond = z :=
  eq_of_instant (Instant.ext rfl h.nano.symm) rfl rfl

theorem isWhole_wholeSecond {z : Zoned} (hz : z.IsShown) (hzone : z.zone.Orderly) :
    z.wholeSecond.IsWhole z.zone :=
  ⟨rfl, Eq.trans hz (hzone.offsetAt_congr rfl), rfl⟩

/-- A search in an orderly zone stays on whole seconds that the zone shows. -/
theorem follows_isWhole {zone : Zone} (hzone : zone.Orderly) :
    Search.Follows fun a b : Zoned => a = b ∧ a.IsWhole zone := by
  apply Search.follows_self
  · intro a unit k b ha hb
    obtain ⟨hz, hshown, hnano⟩ :=
      isShown_of_add? (by rw [ha.zone]; exact hzone) (add?_of_shift hb)
    exact ⟨hz.trans ha.zone, hshown, hnano.trans ha.nano⟩
  · intro a b ha hb
    have hwhole := truncate_of_isShown ha.shown (by rw [ha.zone]; exact hzone)
    change a.truncate = .ok b at hb
    rw [hwhole, ha.wholeSecond] at hb
    cases hb
    exact ha

end Zoned

namespace Frequency

variable {f : Frequency}

/-! ## Answers -/

section Calendars

variable {δ : Type} [Calendar δ] {r x d : δ}

/-- From a date whose truncation is a match, the later one of the two is answered. -/
theorem next_of_truncate (htruncate : Calendar.truncate r = .ok x)
    (hx : f.isMatch x = .ok true) : f.next r = .ok (if x < r then r else x) :=
  Search.next_of_truncate htruncate (isMatch_iff.mp hx)

/-- An answer that is its own truncation is found again from itself. -/
theorem next_again (h : f.next r = .ok d) (hd : d = r ∨ Calendar.truncate d = .ok d) :
    f.next d = .ok d := by
  rcases hd with rfl | htruncate
  · exact h
  · obtain ⟨x, legs, e, -, hrun, hanswer⟩ := next_eq_ok h
    -- Either the run settled before the reference, which then is the answer, or the answer is the
    -- end of a run and a match.
    by_cases hback : e < r
    · rw [if_pos hback] at hanswer
      rw [hanswer] at h ⊢
      exact h
    · rw [if_neg hback] at hanswer
      subst hanswer
      rw [next_of_truncate htruncate (isMatch_iff.mpr hrun.matches_end), ite_self]

end Calendars

theorem next_civil_of_truncate {r : DateTime} (hr : f.isMatch r.truncate = .ok true) :
    f.next r = .ok r := by
  rw [next_of_truncate (r := r) rfl hr]
  by_cases hlt : r.truncate < r
  · rw [if_pos hlt]
  · rw [if_neg hlt]
    rw [DateTime.lt_def, DateTime.truncate_second, DateTime.truncate_nano] at hlt
    exact congrArg Except.ok (DateTime.eq_of_second rfl (by rw [DateTime.truncate_nano]; omega))

theorem next_civil_again {r d : DateTime} (h : f.next r = .ok d) : f.next d = .ok d := by
  obtain ⟨x, legs, e, htruncate, hrun, hanswer⟩ := next_eq_ok h
  cases htruncate
  apply next_again h
  by_cases hback : e < r
  · rw [if_pos hback] at hanswer
    exact Or.inl hanswer
  · rw [if_neg hback] at hanswer
    right
    rw [hanswer]
    exact congrArg Except.ok
      (DateTime.eq_of_second rfl (hrun.nano_eq f.search_subtracts).symm)

section Orderly

variable {r : Zoned} (hzone : r.zone.Orderly) (hr : r.IsShown)

include hzone hr

theorem next_orderly_of_truncate (hx : f.isMatch r.wholeSecond = .ok true) :
    f.next r = .ok r := by
  rw [next_of_truncate (Zoned.truncate_of_isShown hr hzone) hx]
  by_cases hlt : r.wholeSecond < r
  · rw [if_pos hlt]
  · rw [if_neg hlt]
    have hnano : r.instant.nano = 0 := by
      by_contra hne
      exact hlt (Or.inr ⟨rfl, Nat.pos_of_ne_zero hne⟩)
    rw [Zoned.IsWhole.wholeSecond ⟨rfl, hr, hnano⟩]

theorem next_orderly_again {d : Zoned} (h : f.next r = .ok d) : f.next d = .ok d := by
  obtain ⟨x, legs, e, htruncate, hrun, hanswer⟩ := next_eq_ok h
  change r.truncate = .ok x at htruncate
  rw [Zoned.truncate_of_isShown hr hzone] at htruncate
  cases htruncate
  apply next_again h
  by_cases hback : e < r
  · rw [if_pos hback] at hanswer
    exact Or.inl hanswer
  · rw [if_neg hback] at hanswer
    right
    rw [hanswer]
    have hwhole := hrun.keeps (Zoned.follows_isWhole hzone) (Zoned.isWhole_wholeSecond hr hzone)
    show e.truncate = .ok e
    rw [Zoned.truncate_of_isShown hwhole.shown (by rw [hwhole.zone]; exact hzone),
      hwhole.wholeSecond]

end Orderly

/-- A reference whose whole second is a match is answered itself, and every answer is found again
from itself.  This holds on the civil calendar and in every orderly zone.  In other zones it depends
on what truncation does: the later one of the reference and its truncation is answered, and an
answer that is its own truncation is found again. -/
theorem next_next (f : Frequency) :
    (∀ r : DateTime, f.isMatch r.truncate = .ok true → f.next r = .ok r) ∧
    (∀ r d : DateTime, f.next r = .ok d → f.next d = .ok d) ∧
    (∀ r : Zoned, r.zone.Orderly → r.IsShown → r.truncate = .ok r.wholeSecond ∧
      (f.isMatch r.wholeSecond = .ok true → f.next r = .ok r) ∧
      ∀ d, f.next r = .ok d → f.next d = .ok d) ∧
    (∀ r x : Zoned, r.truncate = .ok x → f.isMatch x = .ok true →
      f.next r = .ok (if x < r then r else x)) ∧
    (∀ r d : Zoned, f.next r = .ok d → d = r ∨ d.truncate = .ok d → f.next d = .ok d) := by
  refine ⟨?_, ?_, ?_, ?_, ?_⟩
  · intro r hr
    exact next_civil_of_truncate hr
  · intro r d h
    exact next_civil_again h
  · intro r hzone hr
    exact ⟨Zoned.truncate_of_isShown hr hzone, next_orderly_of_truncate hzone hr,
      fun d h => next_orderly_again hzone hr h⟩
  · intro r x htruncate hx
    exact next_of_truncate htruncate hx
  · intro r d h hd
    exact next_again h hd

/-- The clocks of New York show the last day of 2014. -/
def newYorkNewYearsEve : Zoned := (Zoned.ofLocal? .newYork newYearsEve).get rfl

/-- Half a second past five on the Monday of the third week of 2015 there. -/
def newYorkHalfPast : Zoned :=
  (Zoned.ofLocal? .newYork
    ((DateTime.atDate? ⟨2015, 1, 12⟩ 18000 500000000).get rfl)).get rfl

/-- The search for odd weeks there. -/
theorem next_oddWeeks_again :
    Zone.newYork.Orderly ∧ newYorkNewYearsEve.IsShown ∧ newYorkHalfPast.IsShown ∧
      oddWeeks.isMatch newYorkHalfPast.wholeSecond = .ok true ∧
      oddWeeks.next newYorkHalfPast = .ok newYorkHalfPast ∧
      oddWeeks.next newYorkNewYearsEve = .ok newYorkHalfPast.wholeSecond ∧
      oddWeeks.next newYorkHalfPast.wholeSecond = .ok newYorkHalfPast.wholeSecond := by
  have hzone : Zone.newYork.Orderly := by decide
  have hmatch : oddWeeks.isMatch newYorkHalfPast.wholeSecond = .ok true := by decide +kernel
  have hnext : oddWeeks.next newYorkNewYearsEve = .ok newYorkHalfPast.wholeSecond := by
    decide +kernel
  have hzoned := (next_next oddWeeks).2.2.1
  exact ⟨hzone, rfl, rfl, hmatch, (hzoned newYorkHalfPast hzone rfl).2.1 hmatch, hnext,
    (hzoned newYorkNewYearsEve hzone rfl).2.2 _ hnext⟩

/-- Twelve hours ahead, thirteen between the last and the first hours of the year. -/
def turnOfYear : Zone :=
  ⟨none, ⟨43200, by decide⟩,
    some ⟨⟨46800, by decide⟩, ⟨.unleaped 365, 82800⟩, ⟨.unleaped 1, 3600⟩⟩⟩

/-- Eight in the evening of the last day of 2014 by Universal Time, on the clocks there. -/
def turnOfYearEvening : Zoned :=
  .atInstant turnOfYear ((Instant.of? 63587275200 0).get rfl)

/-- An hour later. -/
def turnOfYearLater : Zoned := (turnOfYearEvening.add? .hour 1).get rfl

/-- The clocks go back with the year, so truncation moves the reference an hour on, and its answer
is not found again. -/
theorem next_turnOfYear_moves :
    turnOfYearEvening.IsShown ∧ turnOfYearEvening.truncate = .ok turnOfYearLater ∧
      (empty .empty).isMatch turnOfYearLater = .ok true ∧
      (empty .empty).next turnOfYearEvening = .ok turnOfYearLater ∧
      turnOfYearEvening < turnOfYearLater ∧
      (empty .empty).next turnOfYearLater ≠ .ok turnOfYearLater :=
  ⟨rfl, by decide +kernel⟩

end Frequency

end Cadence

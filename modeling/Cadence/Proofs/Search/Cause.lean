import Cadence.Proofs.Search.Failure
import Cadence.Proofs.Search.Listing

/-!
# What failures come from

Searching for a match, listing the matches of a range and testing a date fail for the same causes on
any calendar (`Frequency.failsOnly_cause`): a search that gives up, a rule that names an unknown
predicate, or an error of the calendar.  What the search chooses by itself, the period that it
carries in and the scopes of its resets, can always be measured on a wall clock and moved.  So
whether a search meets a unit that cannot be measured within its scope is up to the rules alone
(`Frequency.unsupported_of_rules`).
-/

namespace Cadence

open Civil

theorem Zoned.shift_eq_error {z : Zoned} {unit : TimeUnit} {count : Int} {e : Error}
    (hunit : unit ≠ .epoch) (h : z.shift unit count = .error e) : e = .outOfRange := by
  unfold Zoned.shift at h
  rw [if_neg hunit] at h
  split at h
  · split at h
    · cases h
    · exact (Except.error.inj h).symm
  · exact (Except.error.inj h).symm

theorem Zoned.truncate_eq_error {z : Zoned} {e : Error} (h : z.truncate = .error e) :
    e = .outOfRange := by
  unfold Zoned.truncate at h
  split at h
  · cases h
  · exact (Except.error.inj h).symm

theorem Civil.DateTime.read_eq_error {t : DateTime} {unit scope : TimeUnit} {e : Error}
    (h : t.read unit scope = .error e) :
    measured unit scope = false ∧ e = .unsupported unit scope := by
  cases hm : measured unit scope with
  | true =>
      rw [DateTime.read_eq_ok.mpr (measure_eq t hm)] at h
      cases h
  | false =>
      simp only [DateTime.read, measure_eq_none t hm, Except.error.injEq] at h
      exact ⟨rfl, h.symm⟩

/-! ## Whole searches -/

namespace Search.OwnExcuses

variable {δ : Type} [Calendar δ] {s : Search} {P : Error → Prop} (h : OwnExcuses δ s P)
  (hnoMatch : ∀ unit attempts, P (.noMatch unit attempts))

include h hnoMatch

theorem visit (x : δ) {rule : Rule} (hrule : rule ∈ s.rules.toList) :
    OnlyFails P (s.visit x rule).result := by
  intro e he
  by_contra hP
  obtain ⟨rfl, -⟩ := h.visit_eq_error hrule he hP
  exact hP (hnoMatch rule.unit 1)

/-- If giving up is excused, a search fails with excuses only. -/
theorem next (reference : δ) (htruncate : OnlyFails P (Calendar.truncate reference)) :
    OnlyFails P (s.next reference).result := by
  unfold Search.next
  simp only [Logged.result_tell_bind]
  apply OnlyFails.lift_bind htruncate
  intro x e he
  rcases settle_eq_error he with ⟨unit, rfl⟩ | ⟨y, hviolation⟩ | ⟨legs, y, rule, hhalt⟩
  · exact hnoMatch unit maxPasses
  · exact h.violation y e hviolation
  · obtain ⟨hrule, hvisit⟩ := hhalt.visit
    exact h.visit hnoMatch y hrule e hvisit

end Search.OwnExcuses

/-! ## Listings -/

/-- The failures that a listing may yield have a property: those of its searches, and the one that it
is about to report. -/
structure Between.FailsOnly {δ : Type} [Calendar δ] (b : Between δ) (P : Error → Prop) : Prop where
  next (start : δ) : OnlyFails P (b.search.next start).result
  failure {e : Error} (h : b.upcoming = .failure e) : P e

namespace Between.FailsOnly

variable {δ : Type} [Calendar δ] {b : Between δ} {P : Error → Prop}
  (hshift : ∀ date : δ, OnlyFails P (Calendar.shift date .second 1))

theorem exhausted (h : b.FailsOnly P) : b.exhausted.FailsOnly P where
  next := h.next
  failure h := by cases h

include hshift

theorem after (h : b.FailsOnly P) (date : δ) : (b.after date).FailsOnly P := by
  unfold Between.after
  cases hlater : Calendar.shift date .second 1 with
  | ok later => exact ⟨h.next, fun hup => by cases hup⟩
  | error e =>
      refine ⟨h.next, ?_⟩
      rintro _ ⟨⟩
      exact hshift date e hlater

theorem pull (h : b.FailsOnly P) :
    b.pull.rest.FailsOnly P ∧ ∀ e, b.pull.item = some (.error e) → P e := by
  unfold Between.pull
  cases hup : b.upcoming with
  | nothing => exact ⟨h.exhausted, fun e he => by cases he⟩
  | failure e =>
      refine ⟨h.exhausted, ?_⟩
      rintro _ ⟨⟩
      exact h.failure hup
  | search reference =>
      cases hfound : (b.search.next reference).result with
      | error e =>
          simp only [hfound]
          refine ⟨h.exhausted, ?_⟩
          rintro _ ⟨⟩
          exact h.next reference e hfound
      | ok date =>
          simp only [hfound]
          split
          · exact ⟨h.after hshift date, fun e he => by cases he⟩
          · exact ⟨h.exhausted, fun e he => by cases he⟩

theorem item (h : b.FailsOnly P) {n : Nat} {e : Error} (he : b.item n = some (.error e)) :
    P e := by
  induction n generalizing b with
  | zero => exact (h.pull hshift).2 e he
  | succ n ih => exact ih (h.pull hshift).1 he

end Between.FailsOnly

/-! ## Causes -/

namespace Frequency

variable {δ : Type} [Calendar δ] {f : Frequency} {P Q : Error → Prop}

/-- Whatever is asked about the matches of a frequency, the failures have a property: the search for
one, the test of a date, and every pull of a listing. -/
structure FailsOnly (δ : Type) [Calendar δ] (f : Frequency) (P : Error → Prop) : Prop where
  next (reference : δ) : OnlyFails P (f.next reference)
  isMatch (date : δ) : OnlyFails P (f.isMatch date)
  item (start stop : δ) (n : Nat) (e : Error)
    (h : (f.between start stop).item n = some (.error e)) : P e

theorem FailsOnly.mono (h : f.FailsOnly δ P) (hPQ : ∀ e, P e → Q e) : f.FailsOnly δ Q where
  next reference e he := hPQ e (h.next reference e he)
  isMatch date e he := hPQ e (h.isMatch date e he)
  item start stop n e he := hPQ e (h.item start stop n e he)

/-- Why a question about the matches of a frequency fails. -/
inductive Cause (δ : Type) [Calendar δ] (f : Frequency) : Error → Prop
  | givesUp (unit : TimeUnit) (attempts : Nat) : Cause δ f (.noMatch unit attempts)
  | unregistered {rule : Rule} {name : String} (hrule : rule ∈ f.rules.toList)
      (hreq : rule.requirement = .predicate name) (hname : f.predicates.contains name = false) :
      Cause δ f (.unknownPredicate name)
  | read {date : δ} {unit scope : TimeUnit} {e : Error} (hreads : f.search.Reads unit scope)
      (h : Calendar.read date unit scope = .error e) : Cause δ f e
  | shift {date : δ} {unit : TimeUnit} {count : Int} {e : Error} (hunit : unit ≠ .epoch)
      (h : Calendar.shift date unit count = .error e) : Cause δ f e
  | truncate {date : δ} {e : Error} (h : Calendar.truncate date = .error e) : Cause δ f e

theorem ownExcuses_cause (f : Frequency) : f.search.OwnExcuses δ (f.Cause δ) where
  read date unit scope hreads e he := .read hreads he
  shift date unit hunit count e he := .shift hunit he
  predicate {rule} hrule name hreq := by
    unfold Search.predicate
    split
    · exact .of_ok _
    · rename_i hname
      refine .of_error (.unregistered hrule hreq ?_)
      rw [Registry.contains, show f.predicates.get? name = none from hname]
      rfl
  exhausted unit := .givesUp unit _

/-- Every failure has one of the causes, on any calendar. -/
theorem failsOnly_cause (f : Frequency) : f.FailsOnly δ (f.Cause δ) := by
  have hexcuses := f.ownExcuses_cause (δ := δ)
  have hnext (reference : δ) : OnlyFails (f.Cause δ) (f.search.next reference).result :=
    hexcuses.next .givesUp reference fun e he => .truncate he
  constructor
  case next => exact hnext
  case isMatch =>
    intro date e he
    cases hviolation : f.search.violation date with
    | error e' =>
        simp only [isMatch, hviolation, Functor.map, Except.map, Except.error.injEq] at he
        exact hexcuses.violation date e (he ▸ hviolation)
    | ok violation =>
        simp [isMatch, hviolation, Functor.map, Except.map] at he
  case item =>
    intro start stop n e he
    have hlisting : (f.between start stop).FailsOnly (f.Cause δ) := ⟨hnext, fun h => by cases h⟩
    exact hlisting.item (fun date => hexcuses.shift date (by decide) 1) he

end Frequency

/-! ## Rules that cannot be measured -/

/-- A rule on the week within the month or on the month within the epoch. -/
def Rule.IsUnmeasured (rule : Rule) : Prop :=
  rule.unit = .week ∧ rule.scope = .month ∨ rule.unit = .month ∧ rule.scope = .epoch

instance (rule : Rule) : Decidable rule.IsUnmeasured := inferInstanceAs (Decidable (_ ∨ _))

theorem Rule.isUnmeasured_iff {rule : Rule} :
    rule.IsUnmeasured ↔ measured rule.unit rule.scope = false := by
  have hlegal := rule.legal
  simp only [IsUnmeasured, measured, hlegal, Bool.true_and]
  cases rule.unit <;> cases rule.scope <;> decide

namespace Frequency

section WallClock

variable {δ : Type} [Calendar δ] [WallClockCalendar δ] {f : Frequency}

theorem next_ne_ok_of_isUnmeasured {rule : Rule} (hrule : rule ∈ f.rules.toList)
    (h : rule.IsUnmeasured) (reference d : δ) : f.next reference ≠ .ok d := by
  intro hnext
  obtain ⟨x, legs, settled, -, hrun, -⟩ := next_eq_ok hnext
  -- The date on which the run settles satisfies the rule, so its value has been read.
  obtain ⟨v, hread, -⟩ := Search.satisfies_iff.mp (hrun.matches_end rule hrule)
  rw [WallClockCalendar.read_eq, DateTime.read_eq_ok,
    measure_eq_none _ (Rule.isUnmeasured_iff.mp h)] at hread
  cases hread

theorem failsOnly_of_measured (hrules : ∀ rule ∈ f.rules.toList, ¬rule.IsUnmeasured)
    (hshift : ∀ (date : δ) (unit : TimeUnit) (count : Int) (e : Error), unit ≠ .epoch →
      Calendar.shift date unit count = .error e → e = .outOfRange)
    (htruncate : ∀ (date : δ) (e : Error), Calendar.truncate date = .error e → e = .outOfRange) :
    f.FailsOnly δ (fun e => ∀ unit scope, e ≠ .unsupported unit scope) := by
  refine f.failsOnly_cause.mono fun e he unit scope => ?_
  cases he with
  | givesUp | unregistered => simp
  | read hreads h =>
      rw [WallClockCalendar.read_eq] at h
      obtain ⟨rule, hrule, rfl, rfl⟩ :=
        hreads.eq_rule_of_not_measured (DateTime.read_eq_error h).1
      exact absurd (Rule.isUnmeasured_iff.mpr (DateTime.read_eq_error h).1) (hrules rule hrule)
  | shift hunit h => simp [hshift _ _ _ e hunit h]
  | truncate h => simp [htruncate _ e h]

end WallClock

/-- On the civil calendar and in every `Zone`, no question meets a unit that cannot be measured
within its scope unless some rule is on the week within the month or the month within the epoch.
With such a rule no search finds a date. -/
theorem unsupported_of_rules (f : Frequency) :
    ((∀ rule ∈ f.rules.toList, ¬rule.IsUnmeasured) →
      f.FailsOnly DateTime (fun e => ∀ unit scope, e ≠ .unsupported unit scope) ∧
      f.FailsOnly Zoned (fun e => ∀ unit scope, e ≠ .unsupported unit scope)) ∧
    ((∃ rule ∈ f.rules.toList, rule.IsUnmeasured) →
      (∀ reference d : DateTime, f.next reference ≠ .ok d) ∧
      ∀ reference d : Zoned, f.next reference ≠ .ok d) := by
  constructor
  · intro hrules
    constructor
    · apply failsOnly_of_measured hrules
      · exact fun _ _ _ _ hunit h => shift_eq_error hunit h
      · exact fun _ _ h => nomatch h
    · apply failsOnly_of_measured hrules
      · exact fun _ _ _ _ hunit h => Zoned.shift_eq_error hunit h
      · exact fun _ _ h => Zoned.truncate_eq_error h
  · rintro ⟨rule, hrule, h⟩
    exact ⟨next_ne_ok_of_isUnmeasured hrule h, next_ne_ok_of_isUnmeasured hrule h⟩

/-- The last day of long months. -/
def thirtyFirst : Frequency := ((empty .empty).on .day (.fixed 31) none).toOption.get rfl

/-- The same day, if it is in the fifth week of its month. -/
def thirtyFirstInFifthWeek : Frequency :=
  (thirtyFirst.on .week (.fixed 5) (some .month)).toOption.get rfl

/-- The day of the month can be measured, but not the week. -/
theorem next_thirtyFirst_measured :
    (∀ rule ∈ thirtyFirst.rules.toList, ¬rule.IsUnmeasured) ∧
      (∃ rule ∈ thirtyFirstInFifthWeek.rules.toList, rule.IsUnmeasured) ∧
      (∀ reference : Zoned, thirtyFirst.next reference ≠ .error (.unsupported .day .month)) ∧
      ∀ reference d : Zoned, thirtyFirstInFifthWeek.next reference ≠ .ok d := by
  have hmeasured : ∀ rule ∈ thirtyFirst.rules.toList, ¬rule.IsUnmeasured := by decide
  have hunmeasured : ∃ rule ∈ thirtyFirstInFifthWeek.rules.toList, rule.IsUnmeasured := by decide
  refine ⟨hmeasured, hunmeasured, fun reference h => ?_,
    ((unsupported_of_rules thirtyFirstInFifthWeek).2 hunmeasured).2⟩
  exact ((unsupported_of_rules thirtyFirst).1 hmeasured).2.next reference _ h .day .month rfl

end Frequency

end Cadence

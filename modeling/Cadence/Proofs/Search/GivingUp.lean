import Cadence.Proofs.Search.Earliest
import Cadence.Proofs.Search.Failure

/-!
# Giving up

A search gives up where a unit is past its number and the free parent is the epoch.  For a number
within the epoch this is final, because such numbers never return.  For other numbers it is not: a
match may lie ahead of the date on which the search halts.  And a match may lie behind it, passed
over by a detour.  There is no third way (`Frequency.next_gives_up`), so a search that waits for
every number in the scope that it is required in gives up only where nothing matches any more.
-/

namespace Cadence

open Civil

namespace Search

/-- Every number is waited for in the scope that it is required in, and none in other years than
those of the calendar. -/
def Direct (s : Search) : Prop :=
  ∀ rule ∈ s.rules.toList, rule.requirement.fixed?.isSome = true →
    s.freeParent rule.unit rule.scope = rule.scope ∧ (rule.unit = .week → rule.scope = .epoch)

instance (s : Search) : Decidable s.Direct :=
  inferInstanceAs (Decidable (∀ rule ∈ s.rules.toList, _))

variable {s : Search} {x y m : DateTime} {rule : Rule} {e : Error}

theorem onlyFails_read (date : DateTime) (u scope unit : TimeUnit) (attempts : Nat) :
    OnlyFails (· ≠ .noMatch unit attempts) (Calendar.read date u scope) := by
  show OnlyFails _ (date.read u scope)
  unfold DateTime.read
  split
  · exact .of_ok _
  · exact .of_error (by simp)

theorem onlyFails_shift (date : DateTime) (u unit : TimeUnit) (count : Int) (attempts : Nat) :
    OnlyFails (· ≠ .noMatch unit attempts) (Calendar.shift date u count) := by
  intro e he
  by_cases hu : u = .epoch
  · subst hu
    cases he
    simp
  · rw [shift_eq_error hu he]
    simp

theorem onlyFails_predicate (s : Search) (name : String) (unit : TimeUnit) (attempts : Nat) :
    OnlyFails (· ≠ .noMatch unit attempts) (s.predicate name) := by
  unfold Search.predicate
  split
  · exact .of_ok _
  · exact .of_error (by simp)

theorem excuses_civil (s : Search) (unit : TimeUnit) :
    Excuses DateTime s (· ≠ .noMatch unit 1) where
  read date u scope := onlyFails_read date u scope unit 1
  shift date u count := onlyFails_shift date u unit count 1
  predicate name := onlyFails_predicate s name unit 1
  exhausted u := by simp [maxAttempts]

/-! ## Where the matches are -/

/-- Numbers within the epoch never return. -/
theorem not_matches_of_past_epoch (hrule : rule ∈ s.rules.toList) {target : Int64}
    (hreq : rule.requirement = .fixed target) (hscope : rule.scope = .epoch)
    (hpast : target.toInt < value rule.unit rule.scope y.second) (hle : y.second ≤ m.second) :
    ¬s.Matches m := by
  intro hmatch
  have htarget := value_of_satisfied hreq (hmatch rule hrule)
  have hordinal := ordinal_mono rule.unit hle
  rw [hscope] at hpast htarget
  simp only [value, base, if_true] at hpast htarget
  omega

/-- A match that has not passed when a chain begins is passed over by a detour, or lies ahead when
the chain ends. -/
theorem Chain.passed_or_ahead (hs : s.Subtracts) (hd : s.Predicates Predicate.DependsOnValue)
    {legs : List (Leg DateTime)} (h : Chain s x legs y) (hx : x.nano = 0) (hmatch : s.Matches m)
    (hm : m.nano = 0) (hle : ¬m < x) :
    (∃ leg ∈ legs, leg.Detours s ∧ leg.PassesOver m) ∨ ¬m < y := by
  by_cases hbehind : m < y
  · left
    obtain ⟨leg, hleg, hover⟩ := h.exists_leg_of_skipped hle hbehind
    exact ⟨leg, hleg, h.detours_of_passesOver hs hd hx hmatch hm hleg hover, hover⟩
  · exact Or.inr hbehind

/-- A direct search makes no detours. -/
theorem Chain.not_detours (hs : s.Subtracts) (hdirect : s.Direct) {legs : List (Leg DateTime)}
    (h : Chain s x legs y) {leg : Leg DateTime} (hleg : leg ∈ legs) : ¬leg.Detours s := by
  rintro ⟨target, v, hreq, hread, hlt, hcases⟩
  obtain ⟨hrule, hvisit⟩ := h.leg hleg
  obtain ⟨hparent, hweek⟩ := hdirect leg.rule hrule (by rw [hreq]; rfl)
  rcases hcases with hunit | hne
  · -- Weeks within the epoch cannot be carried.
    obtain ⟨-, rfl⟩ := read_eq_ok.mp hread
    obtain ⟨-, ⟨heq, -⟩ | ⟨hgt, -⟩ | ⟨-, hcarry⟩⟩ := visit_fixed_civil hs hreq hvisit
    · omega
    · omega
    · exact (carry_civil hs hcarry).2.1 (hweek hunit)
  · exact hne hparent

end Search

namespace Frequency

variable {f : Frequency}

theorem not_truncate_lt {r m : DateTime} (h : ¬m < r) : ¬m.truncate < r.truncate := by
  rw [DateTime.lt_def] at h ⊢
  simp only [DateTime.truncate_second, DateTime.truncate_nano]
  omega

theorem not_lt_of_truncate {y m : DateTime} (h : ¬m.truncate < y) : ¬m < y := by
  rw [DateTime.lt_def] at h ⊢
  rw [DateTime.truncate_second, DateTime.truncate_nano] at h
  omega

/-- A search that gives up halts on a unit that is past its number and has nothing to move on. -/
theorem exists_halt_of_gives_up {r : DateTime} {unit : TimeUnit}
    (h : f.next r = .error (.noMatch unit 1)) :
    ∃ legs y rule target, f.search.Halt (.noMatch unit 1) r.truncate legs y rule ∧
      rule.unit = unit ∧ f.search.freeParent rule.unit rule.scope = .epoch ∧
      rule ∈ f.search.rules.toList ∧ rule.requirement = .fixed target ∧
      target.toInt < value rule.unit rule.scope y.second := by
  have hexcuses := Search.excuses_civil f.search unit
  have hP : ¬Error.noMatch unit 1 ≠ .noMatch unit 1 := by simp
  have htruncate : Calendar.truncate r = .ok r.truncate := rfl
  obtain ⟨legs, y, rule, hhalt⟩ := Search.exists_halt hexcuses htruncate h hP
    (by simp [Search.maxPasses])
  obtain ⟨hrule, hvisit⟩ := hhalt.visit
  obtain ⟨hunit, hparent, target, v, hreq, hread, hpast⟩ :=
    hexcuses.own.visit_eq_error hrule hvisit hP
  obtain ⟨-, rfl⟩ := Search.read_eq_ok.mp hread
  simp only [Error.noMatch.injEq, and_true] at hunit
  exact ⟨legs, y, rule, target, hhalt, hunit.symm, hparent, hrule, hreq, hpast⟩

/-- Where a search on the civil calendar gives up, dates from the reference on match if and only if
a detour has passed over one or, unless the number is required within the epoch, one lies ahead of
the date on which the search halts.  A direct search gives up only where none matches. -/
theorem next_gives_up (f : Frequency) (hd : f.search.Predicates Predicate.DependsOnValue)
    {r : DateTime} {unit : TimeUnit} (h : f.next r = .error (.noMatch unit 1)) :
    (∃ legs y rule, f.search.Halt (.noMatch unit 1) r.truncate legs y rule ∧ rule.unit = unit ∧
      f.search.freeParent rule.unit rule.scope = .epoch ∧
      ((∃ m : DateTime, ¬m < r ∧ f.isMatch m = .ok true) ↔
        (∃ leg ∈ legs, leg.Detours f.search ∧ ∃ m : DateTime, ¬m < r ∧
          leg.PassesOver m.truncate ∧ f.isMatch m = .ok true) ∨
        (rule.scope ≠ .epoch ∧ ∃ m : DateTime, ¬m < r ∧ ¬m < y ∧ f.isMatch m = .ok true))) ∧
    (f.search.Direct → ∀ m : DateTime, ¬m < r → f.isMatch m ≠ .ok true) := by
  obtain ⟨legs, y, rule, target, hhalt, hunit, hparent, hrule, hreq, hpast⟩ :=
    exists_halt_of_gives_up h
  have hignores : f.search.Predicates Predicate.IgnoresFractions :=
    fun rule hrule name hreq p hp => (hd rule hrule name hreq p hp).ignoresFractions
  -- A match lies behind the date of the halt, where only detours pass over it, or ahead of it.
  have hplace : ∀ m : DateTime, ¬m < r → f.isMatch m = .ok true →
      (∃ leg ∈ legs, leg.Detours f.search ∧ leg.PassesOver m.truncate) ∨
        (rule.scope ≠ .epoch ∧ ¬m < y) := by
    intro m hle hmatch
    have hwhole := (Search.matches_truncate_iff hignores).mpr (isMatch_iff.mp hmatch)
    rcases hhalt.chain.passed_or_ahead f.search_subtracts hd rfl hwhole rfl
        (not_truncate_lt hle) with hpassed | hahead
    · exact Or.inl hpassed
    · refine Or.inr ⟨fun hscope => ?_, not_lt_of_truncate hahead⟩
      refine Search.not_matches_of_past_epoch hrule hreq hscope hpast ?_ hwhole
      rw [DateTime.lt_def] at hahead
      omega
  constructor
  · refine ⟨legs, y, rule, hhalt, hunit, hparent, ?_⟩
    constructor
    · rintro ⟨m, hle, hmatch⟩
      rcases hplace m hle hmatch with ⟨leg, hleg, hdetour, hover⟩ | ⟨hscope, hahead⟩
      · exact Or.inl ⟨leg, hleg, hdetour, m, hle, hover, hmatch⟩
      · exact Or.inr ⟨hscope, m, hle, hahead, hmatch⟩
    · rintro (⟨leg, -, -, m, hle, -, hmatch⟩ | ⟨-, m, hle, -, hmatch⟩)
      · exact ⟨m, hle, hmatch⟩
      · exact ⟨m, hle, hmatch⟩
  · intro hdirect m hle hmatch
    rcases hplace m hle hmatch with ⟨leg, hleg, hdetour, -⟩ | ⟨hscope, -⟩
    · exact hhalt.chain.not_detours f.search_subtracts hdirect hleg hdetour
    · have hdirect' := (hdirect rule hrule (by rw [hreq]; rfl)).1
      rw [hparent] at hdirect'
      exact hscope hdirect'.symm

/-- One day of the epoch, the fifth of May 2015. -/
def oneDay : Frequency :=
  ((empty .empty).on .day (.fixed 736088) (some .epoch)).toOption.get rfl

/-- The same day, required to be the fifth of its month, too. -/
def oneFifth : Frequency :=
  (oneDay.on .day (.fixed 5) none).toOption.get rfl

/-- A Monday, a month and a day before. -/
def april2015 : DateTime := (DateTime.atDate? ⟨2015, 4, 6⟩ 0 0).get rfl

def may2015 : DateTime := (DateTime.atDate? ⟨2015, 5, 5⟩ 0 0).get rfl

/-- The day does not come again. -/
theorem next_oneDay_gives_up :
    oneDay.search.Predicates Predicate.DependsOnValue ∧
      oneDay.next newYear2016 = .error (.noMatch .day 1) ∧ oneDay.search.Direct ∧
      ∀ m : DateTime, ¬m < newYear2016 → oneDay.isMatch m ≠ .ok true := by
  have hd : oneDay.search.Predicates Predicate.DependsOnValue :=
    Search.predicates_of_registry fun entry hentry => absurd hentry List.not_mem_nil
  have hnext : oneDay.next newYear2016 = .error (.noMatch .day 1) := rfl
  have hdirect : oneDay.search.Direct := by decide
  exact ⟨hd, hnext, hdirect, (next_gives_up oneDay hd hnext).2 hdirect⟩

/-- The day is past the fifth of April, and the epoch is taken for the period to move on although
the month is free. -/
theorem next_oneFifth_gives_up :
    oneFifth.search.Predicates Predicate.DependsOnValue ∧
      oneFifth.next april2015 = .error (.noMatch .day 1) ∧ ¬may2015 < april2015 ∧
      oneFifth.isMatch may2015 = .ok true := by
  refine ⟨?_, rfl, by decide, rfl⟩
  exact Search.predicates_of_registry fun entry hentry => absurd hentry List.not_mem_nil

end Frequency

end Cadence

import Cadence.Proofs.Search.Forward

/-!
# When an answer is the earliest match

A match that lies between the reference and the answer was passed over by one of the legs of the
run (`exists_leg_of_skipped`).  Legs that stay, raise or try values pass over none, and neither do
carries whose free parent is the scope itself (`visit_le`).  What remains are detours: carries of
weeks, whose years are not those of the calendar, and carries through a free parent that is coarser
or finer than the scope.
-/

namespace Cadence

open Civil

namespace Search

/-- A leg is a detour if it carries weeks, or carries through a free parent other than the
scope. -/
def Leg.Detours (s : Search) (leg : Leg DateTime) : Prop :=
  ∃ target v, leg.rule.requirement = .fixed target ∧
    Calendar.read leg.start leg.rule.unit leg.rule.scope = .ok v ∧ target.toInt < v ∧
    (leg.rule.unit = .week ∨ s.freeParent leg.rule.unit leg.rule.scope ≠ leg.rule.scope)

/-- A leg passes over a date. -/
def Leg.PassesOver (leg : Leg DateTime) (m : DateTime) : Prop := ¬m < leg.start ∧ m < leg.stop

/-- Some rule may carry weeks, or carry through a free parent other than its scope. -/
def MayDetour (s : Search) : Prop :=
  ∃ rule ∈ s.rules.toList, rule.requirement.fixed?.isSome = true ∧
    (rule.unit = .week ∨ (s.freeParent rule.unit rule.scope ≠ rule.scope ∧
      s.freeParent rule.unit rule.scope ≠ .epoch))

instance (s : Search) : Decidable s.MayDetour :=
  inferInstanceAs (Decidable (∃ rule ∈ s.rules.toList, _))

variable {s : Search} {x y m : DateTime}

/-! ## Legs -/

/-- A carry whose free parent is the scope does not pass over a match. -/
theorem carry_scope_le (hs : s.Subtracts) (hd : s.Predicates Predicate.DependsOnValue)
    (hmatch : s.Matches m) {unit scope : TimeUnit} {target : Int}
    (hm : measured unit scope = true) (hweek : unit ≠ .week)
    (hparent : s.freeParent unit scope = scope) {first : Int}
    (hfirst : unit.resetValue = some first) (hpast : target < value unit scope x.second)
    (hvalue : value unit scope m.second = target) (hle : x.second ≤ m.second)
    (h : (s.carry x unit scope target).result = .ok y) : y.second ≤ m.second := by
  obtain ⟨-, hscope, a, b, c, ha, hb, -, hkeep, -, -, hy⟩ := carry_civil hs h
  rw [hparent] at ha hb hkeep
  -- The match shows a lower number, so it lies in a later period of the scope.
  have hlater := ordinal_lt_of_value_lt hweek hle (show
    value unit scope m.second < value unit scope x.second by omega)
  have hnext := ordinal_shift ha
  have hreached := filterAll_ordinal_le hd hmatch hb (by omega)
  rw [(enter_first_second hs hfirst hscope hm hy).1]
  exact enter_first_le hfirst hscope hvalue (by omega)

/-- A visit that is not a detour does not pass over a match. -/
theorem visit_le (hs : s.Subtracts) (hd : s.Predicates Predicate.DependsOnValue)
    (hmatch : s.Matches m) {rule : Rule} (hrule : rule ∈ s.rules.toList)
    (hdirect : ¬Leg.Detours s ⟨rule, x, y⟩) (h : (s.visit x rule).result = .ok y)
    (hle : x.second ≤ m.second) : y.second ≤ m.second := by
  have hepoch := rule.unit_ne_epoch
  cases hreq : rule.requirement with
  | fixed target =>
      have hvalue := value_of_satisfied hreq (hmatch rule hrule)
      obtain ⟨hm, ⟨-, rfl⟩ | ⟨-, hsecond, -⟩ | ⟨hpast, hcarry⟩⟩ := visit_fixed_civil hs hreq h
      · exact hle
      · rw [hsecond, ← le_ordinal_iff hepoch]
        exact raise_ordinal_le hle hvalue
      · have hdirect' : ¬(rule.unit = .week ∨ s.freeParent rule.unit rule.scope ≠ rule.scope) :=
          fun hdetour => hdirect ⟨target, _, hreq, read_eq_ok.mpr ⟨hm, rfl⟩, hpast, hdetour⟩
        obtain ⟨hweek, hparent⟩ := not_or.mp hdirect'
        cases hfirst : rule.unit.resetValue with
        | none => exact absurd (unit_eq_week hreq hfirst) hweek
        | some first =>
            exact carry_scope_le hs hd hmatch hm hweek (Decidable.not_not.mp hparent) hfirst hpast
              hvalue hle hcarry
  | predicate name =>
      obtain ⟨p, n, z, hp, hretried, ⟨-, rfl, -⟩ | ⟨rfl, -⟩⟩ := visit_predicate_civil hs hreq h
      · exact hle
      · -- The periods before the one reached were refused, so the match lies in none of them.
        have haccepts := hmatch.predicate hrule hreq hp
        exact startOf_le_of_ordinal_le hepoch (hretried.ordinal_le (hd rule hrule name hreq p hp)
          haccepts (ordinal_mono _ hle))

/-! ## Runs -/

theorem lt_iff_second_lt {a b : DateTime} (ha : a.nano = 0) (hb : b.nano = 0) :
    a < b ↔ a.second < b.second := by
  rw [DateTime.lt_def]
  omega

namespace Chain

variable {legs : List (Leg DateTime)}

/-- A chain that begins on or before a date and ends after it has a leg that passes over it. -/
theorem exists_leg_of_skipped (h : Chain s x legs y) (hx : ¬m < x) (hy : m < y) :
    ∃ leg ∈ legs, leg.PassesOver m := by
  by_contra hnone
  refine h.preserves (P := fun t => ¬m < t) ?_ hx hy
  intro leg hleg hstart hstop
  exact hnone ⟨leg, hleg, hstart, hstop⟩

/-- The dates on the legs show the fraction of a second that the chain begins with. -/
theorem leg_nano_eq (hs : s.Subtracts) (h : Chain s x legs y) :
    y.nano = x.nano ∧ ∀ leg ∈ legs, leg.start.nano = x.nano ∧ leg.stop.nano = x.nano := by
  induction h with
  | nil x => simp
  | cons hrule hvisit hrest ih =>
      have hnano := (visit_stays_or_starts hs hvisit).2
      refine ⟨ih.1.trans hnano, ?_⟩
      intro leg hleg
      rcases List.mem_cons.mp hleg with rfl | hleg
      · exact ⟨rfl, hnano⟩
      · exact ⟨(ih.2 leg hleg).1.trans hnano, (ih.2 leg hleg).2.trans hnano⟩

/-- A leg that passes over a match on a whole second is a detour. -/
theorem detours_of_passesOver (hs : s.Subtracts) (hd : s.Predicates Predicate.DependsOnValue)
    (h : Chain s x legs y) (hx : x.nano = 0) (hmatch : s.Matches m) (hm : m.nano = 0)
    {leg : Leg DateTime} (hleg : leg ∈ legs) (hover : leg.PassesOver m) : leg.Detours s := by
  by_contra hdirect
  obtain ⟨hrule, hvisit⟩ := h.leg hleg
  obtain ⟨hstart, hstop⟩ := (h.leg_nano_eq hs).2 leg hleg
  obtain ⟨hle, hlt⟩ := hover
  rw [lt_iff_second_lt hm (hstart.trans hx)] at hle
  rw [lt_iff_second_lt hm (hstop.trans hx)] at hlt
  have := visit_le hs hd hmatch hrule hdirect hvisit (by omega)
  omega

/-- Only a search that may detour makes a detour. -/
theorem mayDetour (hs : s.Subtracts) (h : Chain s x legs y) {leg : Leg DateTime}
    (hleg : leg ∈ legs) (hdetour : leg.Detours s) : s.MayDetour := by
  obtain ⟨target, v, hreq, hread, hlt, hcases⟩ := hdetour
  obtain ⟨hrule, hvisit⟩ := h.leg hleg
  refine ⟨leg.rule, hrule, by rw [hreq]; rfl, hcases.imp_right fun hparent => ⟨hparent, ?_⟩⟩
  obtain ⟨-, rfl⟩ := read_eq_ok.mp hread
  obtain ⟨-, ⟨heq, -⟩ | ⟨hgt, -⟩ | ⟨-, hcarry⟩⟩ := visit_fixed_civil hs hreq hvisit
  · omega
  · omega
  · exact (carry_civil hs hcarry).1

end Chain

theorem exists_leg_of_skipped {legs : List (Leg DateTime)} (h : Run s x legs y) (hx : ¬m < x)
    (hy : m < y) : ∃ leg ∈ legs, leg.PassesOver m :=
  h.chain.exists_leg_of_skipped hx hy

theorem Run.detours_of_passesOver (hs : s.Subtracts)
    (hd : s.Predicates Predicate.DependsOnValue) {legs : List (Leg DateTime)}
    (h : Run s x legs y) (hx : x.nano = 0) (hmatch : s.Matches m) (hm : m.nano = 0)
    {leg : Leg DateTime} (hleg : leg ∈ legs) (hover : leg.PassesOver m) : leg.Detours s :=
  h.chain.detours_of_passesOver hs hd hx hmatch hm hleg hover

theorem Run.mayDetour {legs : List (Leg DateTime)} (hs : s.Subtracts) (h : Run s x legs y)
    {leg : Leg DateTime} (hleg : leg ∈ legs) (hdetour : leg.Detours s) : s.MayDetour :=
  h.chain.mayDetour hs hleg hdetour

end Search

namespace Frequency

variable {f : Frequency}

/-- A match between the reference and the answer lies between the reference's whole second and the
date on which the run settles. -/
theorem skipped_of_next {r d m e : DateTime} {legs : List (Search.Leg DateTime)}
    (hrun : f.search.Run r.truncate legs e) (hd : d = if e < r then r else e) (hm : m.nano = 0)
    (hle : ¬m < r) (hlt : m < d) : ¬m < r.truncate ∧ m < e := by
  have hnano := hrun.nano_eq f.search_subtracts
  rw [DateTime.truncate_nano] at hnano
  by_cases hback : e < r
  · -- The reference itself is answered, and nothing lies between it and the answer.
    rw [if_pos hback] at hd
    exact absurd (hd ▸ hlt) hle
  · rw [if_neg hback] at hd
    refine ⟨?_, hd ▸ hlt⟩
    rw [DateTime.lt_def] at hle ⊢
    rw [DateTime.truncate_second, DateTime.truncate_nano]
    omega

/-- An answer on the civil calendar passes over a match exactly when a detour of its run does, and
it is the earliest match whenever the search cannot make a detour. -/
theorem next_skips_iff (f : Frequency) (hd : f.search.Predicates Predicate.DependsOnValue)
    {r d : DateTime} (h : f.next r = .ok d) :
    (∃ legs e, f.search.Run r.truncate legs e ∧ d = (if e < r then r else e) ∧
      ((∃ m : DateTime, m.nano = 0 ∧ ¬m < r ∧ m < d ∧ f.isMatch m = .ok true) ↔
        ∃ leg ∈ legs, leg.Detours f.search ∧ ∃ m : DateTime, m.nano = 0 ∧ ¬m < r ∧ m < d ∧
          leg.PassesOver m ∧ f.isMatch m = .ok true)) ∧
    (¬f.search.MayDetour → ∀ m : DateTime, m.nano = 0 → ¬m < r → m < d →
      f.isMatch m ≠ .ok true) := by
  obtain ⟨x, legs, e, htruncate, hrun, hanswer⟩ := next_eq_ok h
  cases htruncate
  have hskipped : ∀ m : DateTime, m.nano = 0 → ¬m < r → m < d → f.isMatch m = .ok true →
      ∃ leg ∈ legs, leg.Detours f.search ∧ leg.PassesOver m := by
    intro m hm hle hlt hmatch
    obtain ⟨hstart, hend⟩ := skipped_of_next hrun hanswer hm hle hlt
    obtain ⟨leg, hleg, hover⟩ := Search.exists_leg_of_skipped hrun hstart hend
    exact ⟨leg, hleg, hrun.detours_of_passesOver f.search_subtracts hd rfl
      (isMatch_iff.mp hmatch) hm hleg hover, hover⟩
  refine ⟨⟨legs, e, hrun, hanswer, ?_⟩, ?_⟩
  · constructor
    · rintro ⟨m, hm, hle, hlt, hmatch⟩
      obtain ⟨leg, hleg, hdetour, hover⟩ := hskipped m hm hle hlt hmatch
      exact ⟨leg, hleg, hdetour, m, hm, hle, hlt, hover, hmatch⟩
    · rintro ⟨leg, -, -, m, hm, hle, hlt, -, hmatch⟩
      exact ⟨m, hm, hle, hlt, hmatch⟩
  · intro hdirect m hm hle hlt hmatch
    obtain ⟨leg, hleg, hdetour, -⟩ := hskipped m hm hle hlt hmatch
    exact hdirect (hrun.mayDetour f.search_subtracts hleg hdetour)

/-- The last day of leap years, told by predicate and number. -/
def leapDays : Frequency :=
  (do
    let years ← (empty (Registry.empty.register "even" .even)).on .year (.predicate "even") none
    years.on .day (.fixed 366) (some .year) : Except Error Frequency).toOption.get rfl

/-- The fifth week of the year that is not the calendar's. -/
def fifthWeek : Frequency :=
  ((empty .empty).on .week (.fixed 5) none).toOption.get rfl

def newYear2013 : DateTime := (DateTime.atDate? ⟨2013, 1, 1⟩ 0 0).get rfl

/-- A Friday in the last week of 2015. -/
def newYear2016 : DateTime := (DateTime.atDate? ⟨2016, 1, 1⟩ 0 0).get rfl

/-- The Monday of the fifth week of 2016. -/
def february2016 : DateTime := (DateTime.atDate? ⟨2016, 2, 1⟩ 0 0).get rfl

/-- The Monday of the fifth week of 2017. -/
def january2017 : DateTime := (DateTime.atDate? ⟨2017, 1, 30⟩ 0 0).get rfl

/-- From 2013 the first even year with 366 days is 2016. -/
theorem next_leapDays_earliest :
    leapDays.search.Predicates Predicate.DependsOnValue ∧ ∃ d,
      leapDays.next newYear2013 = .ok d ∧ ∀ m : DateTime, m.nano = 0 → ¬m < newYear2013 → m < d →
        leapDays.isMatch m ≠ .ok true := by
  have hd : leapDays.search.Predicates Predicate.DependsOnValue := by
    have hentries : leapDays.search.predicates.entries = [("even", .even)] := rfl
    refine Search.predicates_of_registry ?_
    intro entry hentry
    rw [hentries] at hentry
    rw [List.mem_singleton.mp hentry]
    exact Predicate.even_dependsOnValue
  have hnext : leapDays.next newYear2013 = .ok ⟨736694 * 86400, 0, by decide, by decide⟩ := by
    decide +kernel
  exact ⟨hd, _, hnext, (next_skips_iff leapDays hd hnext).2 (by decide)⟩

/-- The week of 2016-01-01 is numbered in 2015, so the search waits for 2017 and passes over the
fifth week of 2016. -/
theorem next_fifthWeek_skips :
    fifthWeek.search.Predicates Predicate.DependsOnValue ∧
      fifthWeek.next newYear2016 = .ok january2017 ∧ ¬february2016 < newYear2016 ∧
      february2016 < january2017 ∧ fifthWeek.isMatch february2016 = .ok true := by
  refine ⟨?_, rfl, by decide, by decide, rfl⟩
  exact Search.predicates_of_registry fun entry hentry => absurd hentry List.not_mem_nil

end Frequency

end Cadence

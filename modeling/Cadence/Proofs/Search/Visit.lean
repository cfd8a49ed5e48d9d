import Cadence.Proofs.Rules.Membership
import Cadence.Proofs.Search.Reset

/-!
# Visits on the civil calendar

What a visit of a rule does to the second that a date shows.  A visit that moves ends on the
beginning of a period of its unit (`visit_stays_or_starts`).  A raise and a predicate never pass
over a match (`raise_ordinal_le`, `Retried.ordinal_le`), and neither does the search for a period
of the free parent in which a carry goes on (`filterAll_ordinal_le`).
-/

namespace Cadence

open Civil

namespace Search

variable {s : Search} {x y z m : DateTime}

/-! ## Satisfied rules -/

theorem satisfies_civil {rule : Rule} :
    s.satisfies x rule = .ok true ↔ measured rule.unit rule.scope = true ∧
      s.Accepts rule.requirement (value rule.unit rule.scope x.second) x := by
  rw [satisfies_iff]
  constructor
  · rintro ⟨v, hread, hv⟩
    obtain ⟨hm, rfl⟩ := read_eq_ok.mp hread
    exact ⟨hm, hv⟩
  · rintro ⟨hm, hv⟩
    exact ⟨_, read_eq_ok.mpr ⟨hm, rfl⟩, hv⟩

theorem value_of_satisfied {rule : Rule} {target : Int64}
    (hreq : rule.requirement = .fixed target) (h : s.satisfies x rule = .ok true) :
    value rule.unit rule.scope x.second = target.toInt := by
  have hv := (satisfies_civil.mp h).2
  rw [hreq] at hv
  exact hv

/-- Where predicates depend on the value alone, dates of one value satisfy the same rules. -/
theorem satisfies_of_value_eq (hd : s.Predicates Predicate.DependsOnValue) {rule : Rule}
    (hrule : rule ∈ s.rules.toList)
    (heq : value rule.unit rule.scope x.second = value rule.unit rule.scope y.second)
    (h : s.satisfies x rule = .ok true) : s.satisfies y rule = .ok true := by
  obtain ⟨hm, hv⟩ := satisfies_civil.mp h
  refine satisfies_civil.mpr ⟨hm, ?_⟩
  rw [← heq]
  cases hreq : rule.requirement with
  | fixed target =>
      rw [hreq] at hv
      exact hv
  | predicate name =>
      rw [hreq] at hv
      obtain ⟨p, hp, hv⟩ := hv
      refine ⟨p, hp, ?_⟩
      rw [← hd rule hrule name hreq p hp _ x y]
      exact hv

/-- Where predicates ignore fractions of a second, a date and its whole second satisfy the same
rules. -/
theorem satisfies_truncate_iff (hf : s.Predicates Predicate.IgnoresFractions) {rule : Rule}
    (hrule : rule ∈ s.rules.toList) :
    s.satisfies x.truncate rule = .ok true ↔ s.satisfies x rule = .ok true := by
  rw [satisfies_civil, satisfies_civil, DateTime.truncate_second]
  refine and_congr_right fun _ => ?_
  cases hreq : rule.requirement with
  | fixed target => exact Iff.rfl
  | predicate name =>
      simp only [Accepts]
      refine exists_congr fun p => and_congr_right fun hp => ?_
      rw [hf rule hrule name hreq p hp]

theorem matches_truncate_iff (hf : s.Predicates Predicate.IgnoresFractions) :
    s.Matches x.truncate ↔ s.Matches x :=
  forall_congr' fun _ => forall_congr' fun hrule => satisfies_truncate_iff hf hrule

/-! ## Values that a predicate refuses -/

theorem Retried.ordinal_eq {p : Predicate} {unit scope : TimeUnit} {n : Nat}
    (h : Retried p unit scope n x z) :
    ordinal unit z.second = ordinal unit x.second + n := by
  induction h with
  | accepted hread hp => simp
  | rejected hread hp hshift hrest ih =>
      have := ordinal_shift hshift
      omega

theorem Retried.nano_eq {p : Predicate} {unit scope : TimeUnit} {n : Nat}
    (h : Retried p unit scope n x z) : z.nano = x.nano := by
  refine h.preserves (P := fun t => t.nano = x.nano) ?_ rfl
  intro a b hshift ha
  exact (nano_shift hshift).trans ha

/-- A value that the predicate accepts is not in a period that was refused. -/
theorem Retried.ordinal_le {p : Predicate} (hd : p.DependsOnValue) {unit scope : TimeUnit} {n : Nat}
    (h : Retried p unit scope n x z) (hm : p (value unit scope m.second) m = true)
    (hle : ordinal unit x.second ≤ ordinal unit m.second) :
    ordinal unit z.second ≤ ordinal unit m.second := by
  induction h with
  | accepted hread hp => exact hle
  | @rejected x y z v n hread hp hshift hrest ih =>
      refine ih ?_
      have hnext := ordinal_shift hshift
      rcases Int.lt_or_eq_of_le hle with hlt | heq
      · omega
      · -- Both dates lie in one period, so the predicate would have accepted here.
        obtain ⟨hmeasured, rfl⟩ := read_eq_ok.mp hread
        rw [value_congr hmeasured heq, hd _ _ m, hm] at hp
        cases hp

/-- A match satisfies the predicate of a rule. -/
theorem Matches.predicate (hmatch : s.Matches m) {rule : Rule} (hrule : rule ∈ s.rules.toList)
    {name : String} (hreq : rule.requirement = .predicate name) {p : Predicate}
    (hp : s.predicate name = .ok p) : p (value rule.unit rule.scope m.second) m = true := by
  have hv := (satisfies_civil.mp (hmatch rule hrule)).2
  rw [hreq] at hv
  obtain ⟨p', hp', hv⟩ := hv
  rw [hp] at hp'
  cases hp'
  exact hv

/-- The free parent is not moved past a match. -/
theorem filterAll_ordinal_le (hd : s.Predicates Predicate.DependsOnValue) (hmatch : s.Matches m)
    {unit : TimeUnit} (h : (s.filterAll unit x).result = .ok y)
    (hle : ordinal unit x.second ≤ ordinal unit m.second) :
    ordinal unit y.second ≤ ordinal unit m.second := by
  refine filterAll_preserves (P := fun t : DateTime => ordinal unit t.second ≤ _) ?_ h hle
  intro rule hrule hunit name hreq p n a b hp hretried ha
  subst hunit
  exact hretried.ordinal_le (hd rule hrule name hreq p hp) (hmatch.predicate hrule hreq hp) ha

/-- Moving the free parent on until its predicates accept keeps the fraction and moves forward. -/
theorem filterAll_le {unit : TimeUnit} (h : (s.filterAll unit x).result = .ok y) :
    x.second ≤ y.second ∧ y.nano = x.nano := by
  refine filterAll_preserves_of_shift
    (P := fun t : DateTime => x.second ≤ t.second ∧ t.nano = x.nano) ?_ h ⟨Int.le_refl _, rfl⟩
  intro a b hshift ha
  exact ⟨Int.le_trans ha.1 (le_shift hshift (by decide)), (nano_shift hshift).trans ha.2⟩

/-! ## Raises -/

theorem raise_second {unit : TimeUnit} {k : Int} (h : x.shift unit k = .ok z) :
    (z.floor unit).second = begins unit (ordinal unit x.second + k) := by
  rw [DateTime.floor_second, startOf, ordinal_shift h]

/-- No date shows a number before the beginning of the period that a raise leads to. -/
theorem raise_ordinal_le {unit scope : TimeUnit} {target : Int} {a b : Int} (hle : a ≤ b)
    (hb : value unit scope b = target) :
    ordinal unit a + (target - value unit scope a) ≤ ordinal unit b := by
  have := @value_le_of_le unit scope _ _ hle
  omega

/-! ## Entering a period -/

/-- A unit with a first value is entered by counting from the beginning of the scope's period. -/
theorem enter_first_eq (hs : s.Subtracts) {unit scope parent : TimeUnit} {target first : Int}
    (hfirst : unit.resetValue = some first) (hscope : scope ≠ .epoch)
    (hm : measured unit scope = true) :
    s.enter x unit scope parent target = (x.floor scope).shift unit (target - first) := by
  obtain ⟨hepoch, -, hweek⟩ := resetValue_ne_none_of_some hfirst
  obtain ⟨a, hreset, hordinal, -, -, hnano⟩ := exists_reset hs x hfirst hscope hm
  have hfloor : a.floor unit = x.floor scope := by
    refine DateTime.eq_of_second ?_ hnano
    rw [DateTime.floor_second, startOf, hordinal]
    exact startOf_startOf_scope hm hscope hweek _
  simp only [enter, hfirst, hreset, bind, Except.bind, resetBelow_self hs hepoch, hfloor]
  exact hs _ _ _ _

/-- The second on which a unit with a first value is entered. -/
theorem enter_first_second (hs : s.Subtracts) {unit scope parent : TimeUnit} {target first : Int}
    (hfirst : unit.resetValue = some first) (hscope : scope ≠ .epoch)
    (hm : measured unit scope = true) (h : s.enter x unit scope parent target = .ok y) :
    y.second = begins unit (ordinal unit (startOf scope x.second) + (target - first)) ∧
      y.nano = x.nano := by
  obtain ⟨hepoch, -, hweek⟩ := resetValue_ne_none_of_some hfirst
  rw [enter_first_eq hs hfirst hscope hm] at h
  obtain ⟨-, -, hsecond, hnano⟩ := shift_eq_ok.mp h
  refine ⟨?_, hnano⟩
  have haligned := startOf_startOf_scope hm hscope hweek x.second
  rw [hsecond, DateTime.floor_second, ← moved_begins hepoch]
  exact congrArg (moved unit · _) haligned.symm

/-- A unit is entered within the period of the scope or after it, if its number is none below the
first value. -/
theorem startOf_le_enter (hs : s.Subtracts) {unit scope parent : TimeUnit} {target first : Int}
    (hfirst : unit.resetValue = some first) (hscope : scope ≠ .epoch)
    (hm : measured unit scope = true) (hge : first ≤ target)
    (h : s.enter x unit scope parent target = .ok y) : startOf scope x.second ≤ y.second := by
  obtain ⟨hepoch, -, hweek⟩ := resetValue_ne_none_of_some hfirst
  have haligned := startOf_startOf_scope hm hscope hweek x.second
  rw [(enter_first_second hs hfirst hscope hm h).1]
  refine Int.le_trans (Int.le_of_eq haligned.symm) (begins_le_begins hepoch ?_)
  omega

/-- A match within a period of the scope comes no earlier than the second on which the unit is
entered there. -/
theorem enter_first_le {unit scope : TimeUnit} {target first a b : Int}
    (hfirst : unit.resetValue = some first) (hscope : scope ≠ .epoch)
    (hb : value unit scope b = target) (hle : ordinal scope a ≤ ordinal scope b) :
    begins unit (ordinal unit (startOf scope a) + (target - first)) ≤ b := by
  obtain ⟨hepoch, -, hweek⟩ := resetValue_ne_none_of_some hfirst
  rw [← le_ordinal_iff hepoch]
  have hstart := ordinal_mono unit (begins_le_begins hscope hle)
  simp only [value, base, hscope, hweek, hfirst, if_false, Option.getD_some] at hb
  simp only [startOf] at hb ⊢
  omega

/-- Entering a unit without a first value first resets to the beginning of a period, then only
steps forward, and ends on the beginning of a period. -/
theorem enter_none_eq_ok (hs : s.Subtracts) {unit scope parent : TimeUnit} {target : Int}
    (hunit : unit ≠ .epoch) (hparent : parent ≤ unit) (hnone : unit.resetValue = none)
    (h : s.enter x unit scope parent target = .ok y) :
    ∃ (b z : DateTime) (v : Int), startOf (floorScope unit parent) x.second ≤ b.second ∧
      Calendar.read b unit scope = .ok v ∧ v ≤ target ∧ b.shift unit (target - v) = .ok z ∧
      y = z.floor unit ∧ y.nano = x.nano := by
  obtain ⟨a, b, v, z, ha, hb, hread, hz, hy⟩ := (enter_of_none hnone).mp h
  rw [resetBelow_eq hs hunit hparent] at ha
  cases ha
  rw [shift_civil, hs] at hz
  rw [resetBelow_self hs hunit] at hy
  cases hy
  -- Every step moves forward and keeps the fraction, and the last one is not past the number.
  obtain ⟨⟨hle, hnano⟩, v', hread', hv'⟩ := stepWhilePast_eq_ok
    (P := fun t : DateTime => startOf (floorScope unit parent) x.second ≤ t.second ∧
      t.nano = x.nano)
    (fun t t' ht hP => ⟨Int.le_trans hP.1 (le_shift ht (by decide)), (nano_shift ht).trans hP.2⟩)
    hb ⟨Int.le_refl _, rfl⟩
  rw [hread] at hread'
  cases hread'
  exact ⟨b, z, v, hle, hread, hv', hz, rfl, (nano_shift hz).trans hnano⟩

/-! ## Visits -/

/-- A rule whose unit has no first value carries no number, unless it is about weeks. -/
theorem unit_eq_week {rule : Rule} {target : Int64} (hreq : rule.requirement = .fixed target)
    (hnone : rule.unit.resetValue = none) : rule.unit = .week := by
  have hlegal := rule.legal
  have hyear := rule.yearNotFixed
  rw [hreq] at hyear
  revert hlegal hyear hnone
  cases rule.unit <;> simp [TimeUnit.resetValue, TimeUnit.isLegalScope, TimeUnit.legalScopes,
    Requirement.fixed?]

theorem unit_ne_year {rule : Rule} {target : Int64} (hreq : rule.requirement = .fixed target) :
    rule.unit ≠ .year := by
  intro hunit
  have hnone := rule.yearNotFixed hunit
  rw [hreq] at hnone
  cases hnone

theorem freeParent_le {unit scope : TimeUnit} : s.freeParent unit scope ≤ scope := by
  -- Without a candidate the free parent is the epoch, which is coarser than anything.
  have hle : ∀ l : List TimeUnit, (∀ u ∈ l, u ≤ scope) → l.getLastD .epoch ≤ scope := by
    intro l hl
    cases l with
    | nil =>
        rw [TimeUnit.le_def]
        exact Nat.zero_le _
    | cons a l =>
        rw [List.getLastD_cons, List.getLastD_eq_getLast?]
        cases hlast : l.getLast? with
        | none => exact hl a List.mem_cons_self
        | some u => exact hl u (List.mem_cons_of_mem _ (List.mem_of_getLast? hlast))
  refine hle _ ?_
  intro u hu
  have hfree := (List.mem_filter.mp hu).2
  simp only [Bool.and_eq_true, decide_eq_true_eq] at hfree
  exact hfree.1

theorem scope_ne_epoch {unit scope : TimeUnit} (h : s.freeParent unit scope ≠ .epoch) :
    scope ≠ .epoch := by
  rintro rfl
  have hle : s.freeParent unit .epoch ≤ .epoch := freeParent_le
  revert h hle
  cases s.freeParent unit .epoch <;> decide

/-- The dates that a carry goes through: one period of the free parent later, a period that its
predicates accept, the same period after some resets, and the entry of the unit. -/
theorem carry_civil (hs : s.Subtracts) {unit scope : TimeUnit} {target : Int}
    (h : (s.carry x unit scope target).result = .ok y) :
    s.freeParent unit scope ≠ .epoch ∧ scope ≠ .epoch ∧ ∃ a b c : DateTime,
      x.shift (s.freeParent unit scope) 1 = .ok a ∧
      (s.filterAll (s.freeParent unit scope) a).result = .ok b ∧
      s.resetBetween b (s.freeParent unit scope) unit = .ok c ∧
      ordinal (s.freeParent unit scope) c.second = ordinal (s.freeParent unit scope) b.second ∧
      ordinal (s.freeParent unit scope) x.second < ordinal (s.freeParent unit scope) b.second ∧
      c.nano = x.nano ∧ s.enter c unit scope (s.freeParent unit scope) target = .ok y := by
  obtain ⟨hparent, a, b, c, ha, hb, hc, hy⟩ := carry_eq_ok.mp h
  obtain ⟨c', hc', hkeep, -, hnano⟩ := exists_resetBetween hs b (s.freeParent unit scope) unit
  rw [hc] at hc'
  cases hc'
  obtain ⟨hforward, hnano'⟩ := filterAll_le hb
  have hnext := ordinal_shift ha
  have hlater := ordinal_mono (s.freeParent unit scope) hforward
  exact ⟨hparent, scope_ne_epoch hparent, a, b, c, ha, hb, hc, hkeep, by omega,
    hnano.trans (hnano'.trans (nano_shift ha)), hy⟩

/-- A carry ends on the beginning of a period of the unit. -/
theorem carry_starts (hs : s.Subtracts) {rule : Rule} {target : Int}
    (hm : measured rule.unit rule.scope = true)
    (h : (s.carry x rule.unit rule.scope target).result = .ok y) :
    startOf rule.unit y.second = y.second ∧ y.nano = x.nano := by
  have hepoch := rule.unit_ne_epoch
  obtain ⟨-, hscope, a, b, c, -, -, -, -, -, hnano, hy⟩ := carry_civil hs h
  cases hfirst : rule.unit.resetValue with
  | some first =>
      obtain ⟨hsecond, hnanoy⟩ := enter_first_second hs hfirst hscope hm hy
      refine ⟨?_, hnanoy.trans hnano⟩
      rw [hsecond]
      exact startOf_begins_self hepoch _
  | none =>
      have hle : s.freeParent rule.unit rule.scope ≤ rule.unit :=
        Nat.le_trans freeParent_le (Nat.le_of_lt (TimeUnit.legal_coarser rule.legal))
      obtain ⟨-, z, -, -, -, -, -, rfl, hnanoy⟩ := enter_none_eq_ok hs hepoch hle hfirst hy
      exact ⟨startOf_startOf _ _, hnanoy.trans hnano⟩

/-- A visit of a rule with a number leaves the date, leads to the beginning of the period that is
as much later as the number is higher, or carries. -/
theorem visit_fixed_civil (hs : s.Subtracts) {rule : Rule} {target : Int64}
    (hreq : rule.requirement = .fixed target) (h : (s.visit x rule).result = .ok y) :
    measured rule.unit rule.scope = true ∧
      ((value rule.unit rule.scope x.second = target.toInt ∧ y = x) ∨
        (value rule.unit rule.scope x.second < target.toInt ∧
          y.second = begins rule.unit (ordinal rule.unit x.second +
            (target.toInt - value rule.unit rule.scope x.second)) ∧ y.nano = x.nano) ∨
        (target.toInt < value rule.unit rule.scope x.second ∧
          (s.carry x rule.unit rule.scope target.toInt).result = .ok y)) := by
  obtain ⟨v, hread, hcases⟩ := (visit_fixed hreq).mp h
  obtain ⟨hm, rfl⟩ := read_eq_ok.mp hread
  refine ⟨hm, hcases.imp_right (Or.imp_left ?_)⟩
  rintro ⟨hlt, z, hz, hy⟩
  rw [shift_civil, hs] at hz
  rw [resetBelow_self hs rule.unit_ne_epoch] at hy
  cases hy
  exact ⟨hlt, raise_second hz, (z.floor_nano _).trans (nano_shift hz)⟩

/-- A visit of a rule with a predicate leaves the date, or leads to the beginning of the period
that the predicate accepts. -/
theorem visit_predicate_civil (hs : s.Subtracts) {rule : Rule} {name : String}
    (hreq : rule.requirement = .predicate name) (h : (s.visit x rule).result = .ok y) :
    ∃ p n z, s.predicate name = .ok p ∧ Retried p rule.unit rule.scope n x z ∧
      ((n = 0 ∧ y = x ∧ s.satisfies x rule = .ok true) ∨ y = z.floor rule.unit ∧ 0 < n) := by
  obtain ⟨p, n, z, hp, hretried, hcases⟩ := visit_predicate hreq h
  refine ⟨p, n, z, hp, hretried, ?_⟩
  rcases hcases with ⟨rfl, rfl⟩ | ⟨hn, hy⟩
  · left
    cases hretried with
    | accepted hread haccepts =>
        obtain ⟨hm, rfl⟩ := read_eq_ok.mp hread
        refine ⟨rfl, rfl, satisfies_civil.mpr ⟨hm, ?_⟩⟩
        rw [hreq]
        exact ⟨p, hp, haccepts⟩
  · rw [resetBelow_self hs rule.unit_ne_epoch] at hy
    cases hy
    exact Or.inr ⟨rfl, hn⟩

/-- A visit leaves a date that satisfies the rule, or moves to the beginning of a period of the
rule's unit.  It keeps the fraction of a second. -/
theorem visit_stays_or_starts (hs : s.Subtracts) {rule : Rule}
    (h : (s.visit x rule).result = .ok y) :
    ((y = x ∧ s.satisfies x rule = .ok true) ∨ startOf rule.unit y.second = y.second) ∧
      y.nano = x.nano := by
  have hepoch := rule.unit_ne_epoch
  cases hreq : rule.requirement with
  | fixed target =>
      obtain ⟨hm, ⟨heq, rfl⟩ | ⟨-, hsecond, hnano⟩ | ⟨-, hcarry⟩⟩ := visit_fixed_civil hs hreq h
      · refine ⟨Or.inl ⟨rfl, satisfies_civil.mpr ⟨hm, ?_⟩⟩, rfl⟩
        rw [hreq]
        exact heq
      · refine ⟨Or.inr ?_, hnano⟩
        rw [hsecond]
        exact startOf_begins_self hepoch _
      · obtain ⟨hstart, hnano⟩ := carry_starts hs hm hcarry
        exact ⟨Or.inr hstart, hnano⟩
  | predicate name =>
      obtain ⟨p, n, z, -, hretried, ⟨-, rfl, hsat⟩ | ⟨rfl, -⟩⟩ := visit_predicate_civil hs hreq h
      · exact ⟨Or.inl ⟨rfl, hsat⟩, rfl⟩
      · exact ⟨Or.inr (startOf_startOf _ _), hretried.nano_eq⟩

theorem starts_of_violated (hs : s.Subtracts) {rule : Rule}
    (hviolated : s.satisfies x rule = .ok false) (h : (s.visit x rule).result = .ok y) :
    startOf rule.unit y.second = y.second := by
  rcases (visit_stays_or_starts hs h).1 with ⟨rfl, hsat⟩ | hstart
  · rw [hviolated] at hsat
    cases hsat
  · exact hstart

theorem Run.nano_eq (hs : s.Subtracts) {legs : List (Leg DateTime)} (h : Run s x legs y) :
    y.nano = x.nano := by
  refine h.preserves (P := fun t : DateTime => t.nano = x.nano) ?_ rfl
  intro leg hleg hstart
  exact (visit_stays_or_starts hs (h.leg hleg).2).2.trans hstart

end Search

end Cadence

import Cadence.Proofs.Civil.FourCenturies
import Cadence.Proofs.Search.Earliest
import Cadence.Proofs.Search.InStep

/-!
# Searches four centuries apart

On the civil calendar a search repeats itself four centuries later, if nothing that it looks at
counts from the epoch: the scopes of its rules are not the epoch, apart from those of years, and its
predicates repeat (`Frequency.Repeats`).  Then datetimes four centuries apart are in step
(`Frequency.Repeats.inStep`), and so searches from them find datetimes four centuries apart
(`Frequency.next_fourCenturiesLater`).  Only the range of datetimes does not move along, and a
search may leave it at either end.
-/

namespace Cadence

open Civil

/-! ## Results within the range -/

/-- Both results are related values, or both are the same failure, unless one of them has left the
supported range. -/
inductive AgreesInRange {α β : Type} (R : α → β → Prop) : Except Error α → Except Error β → Prop
  | ok {a : α} {b : β} (h : R a b) : AgreesInRange R (.ok a) (.ok b)
  | error (e : Error) : AgreesInRange R (.error e) (.error e)
  | left (y : Except Error β) : AgreesInRange R (.error .outOfRange) y
  | right (x : Except Error α) : AgreesInRange R x (.error .outOfRange)

theorem AgreesInRange.bind {α β γ κ : Type} {R : α → β → Prop} {Q : γ → κ → Prop}
    {x : Except Error α} {y : Except Error β} {f : α → Except Error γ} {g : β → Except Error κ}
    (h : AgreesInRange R x y) (hfg : ∀ a b, R a b → AgreesInRange Q (f a) (g b)) :
    AgreesInRange Q (x >>= f) (y >>= g) := by
  cases h with
  | ok hab => exact hfg _ _ hab
  | error e => exact .error e
  | left y => exact .left _
  | right x => exact .right _

/-- The comparison of results that leaves out those that have left the range. -/
def Agreement.inRange : Agreement where
  Rel := AgreesInRange
  ok := .ok
  error := .error
  bind := .bind

/-! ## What repeats -/

/-- The predicate answers the same four centuries later, when the value has grown by an amount. -/
def Predicate.Repeats (p : Predicate) (grown : Int) : Prop :=
  ∀ value t t', t.fourCenturiesLater? = some t' → p (value + grown) t' = p value t

/-- By how much the value of a unit, within a scope that is not the epoch or else in years, grows
in four centuries. -/
def TimeUnit.grownInFourCenturies (unit : TimeUnit) : Int := if unit = .year then 400 else 0

theorem TimeUnit.grown_of_ne_year {unit : TimeUnit} (h : unit ≠ .year) :
    unit.grownInFourCenturies = 0 :=
  if_neg h

theorem Predicate.DependsOnValue.repeats {p : Predicate} (h : p.DependsOnValue) {grown : Int}
    (hgrown : ∀ value t, p (value + grown) t = p value t) : p.Repeats grown :=
  fun value t t' _ => (h (value + grown) t' t).trans (hgrown value t)

theorem Predicate.even_repeats (unit : TimeUnit) : even.Repeats unit.grownInFourCenturies := by
  apply even_dependsOnValue.repeats
  intro value t
  show decide ((value + unit.grownInFourCenturies) % 2 = 0) = decide (value % 2 = 0)
  have hgrown : (value + unit.grownInFourCenturies) % 2 = value % 2 := by
    unfold TimeUnit.grownInFourCenturies
    split <;> omega
  rw [hgrown]

/-- Nothing that the rules are about counts from the epoch, apart from years, and the predicates
repeat. -/
structure Frequency.Repeats (f : Frequency) : Prop where
  scope {rule : Rule} : rule ∈ f.rules.toList → rule.unit ≠ .year → rule.scope ≠ .epoch
  predicate {rule : Rule} {name : String} {p : Predicate} : rule ∈ f.rules.toList →
    rule.requirement = .predicate name → f.search.predicate name = .ok p →
    p.Repeats rule.unit.grownInFourCenturies

namespace Civil.DateTime

/-- The second datetime is the first one four centuries later. -/
def IsFourCenturiesBefore (t t' : DateTime) : Prop := t.fourCenturiesLater? = some t'

variable {t t' u u' : DateTime} {unit scope : TimeUnit}

theorem IsFourCenturiesBefore.lt_iff (ht : t.IsFourCenturiesBefore t')
    (hu : u.IsFourCenturiesBefore u') : t < u ↔ t' < u' := by
  obtain ⟨ht, htnano⟩ := fourCenturiesLater?_eq_some.mp ht
  obtain ⟨hu, hunano⟩ := fourCenturiesLater?_eq_some.mp hu
  rw [lt_def, lt_def]
  omega

/-- The same is read four centuries later, apart from years that have grown. -/
theorem IsFourCenturiesBefore.read (ht : t.IsFourCenturiesBefore t')
    (hscope : unit ≠ .year → scope ≠ .epoch) :
    t'.read unit scope = (t.read unit scope).map (· + unit.grownInFourCenturies) := by
  obtain ⟨hsecond, -⟩ := fourCenturiesLater?_eq_some.mp ht
  unfold DateTime.read
  cases hm : measured unit scope with
  | false =>
      rw [measure_eq_none t' hm, measure_eq_none t hm]
      rfl
  | true =>
      rw [measure_eq t' hm, measure_eq t hm, hsecond]
      apply congrArg Except.ok
      show value unit scope (t.second + fourCenturies) =
        value unit scope t.second + unit.grownInFourCenturies
      by_cases hyear : unit = .year
      · subst hyear
        obtain rfl : scope = .epoch := by
          revert hm
          cases scope <;> decide
        exact value_year_add _
      · rw [TimeUnit.grown_of_ne_year hyear, Int.add_zero]
        exact value_add (hscope hyear) _

theorem IsFourCenturiesBefore.read_eq (ht : t.IsFourCenturiesBefore t') (hyear : unit ≠ .year)
    (hscope : scope ≠ .epoch) : t.read unit scope = t'.read unit scope := by
  rw [ht.read fun _ => hscope, TimeUnit.grown_of_ne_year hyear]
  simp only [Int.add_zero]
  cases t.read unit scope <;> rfl

theorem IsFourCenturiesBefore.shift_inRange (ht : t.IsFourCenturiesBefore t') (unit : TimeUnit)
    (k : Int) : AgreesInRange IsFourCenturiesBefore (t.shift unit k) (t'.shift unit k) := by
  obtain ⟨hsecond, hnano⟩ := fourCenturiesLater?_eq_some.mp ht
  by_cases hunit : unit = .epoch
  · subst hunit
    exact .error _
  cases h : t.shift unit k with
  | error e =>
      rw [shift_eq_error hunit h]
      exact .left _
  | ok u =>
      cases h' : t'.shift unit k with
      | error e =>
          rw [shift_eq_error hunit h']
          exact .right _
      | ok u' =>
          -- Both shifts are in range, and what they lead to is four centuries apart.
          obtain ⟨-, -, hu, hunano⟩ := shift_eq_ok.mp h
          obtain ⟨-, -, hu', hunano'⟩ := shift_eq_ok.mp h'
          apply AgreesInRange.ok
          apply fourCenturiesLater?_eq_some.mpr
          rw [hu', hu, hsecond, moved_add, hunano', hunano]
          exact ⟨rfl, hnano⟩

end Civil.DateTime

namespace Frequency

variable {f : Frequency} (hf : f.Repeats)

include hf

theorem Repeats.satisfies {t t' : DateTime} (ht : t.IsFourCenturiesBefore t') {rule : Rule}
    (hrule : rule ∈ f.rules.toList) : f.search.satisfies t rule = f.search.satisfies t' rule := by
  show (t.read rule.unit rule.scope >>= _) = (t'.read rule.unit rule.scope >>= _)
  rw [ht.read (hf.scope hrule)]
  cases t.read rule.unit rule.scope with
  | error e => rfl
  | ok v =>
      cases hreq : rule.requirement with
      | fixed target =>
          -- No number is required of a year, so what is compared with the number has not grown.
          have hyear : rule.unit ≠ .year := by
            intro hyear
            have hnone := rule.yearNotFixed hyear
            rw [hreq] at hnone
            cases hnone
          show Except.ok (decide (v = target.toInt)) =
            Except.ok (decide (v + rule.unit.grownInFourCenturies = target.toInt))
          rw [TimeUnit.grown_of_ne_year hyear, Int.add_zero]
      | predicate name =>
          show (f.search.predicate name >>= fun p => Except.ok (p v t)) =
            f.search.predicate name >>= fun p =>
              Except.ok (p (v + rule.unit.grownInFourCenturies) t')
          cases hp : f.search.predicate name with
          | error e => rfl
          | ok p => exact congrArg Except.ok (hf.predicate hrule hreq hp v t t' ht).symm

theorem Repeats.inStep :
    f.search.InStep Agreement.inRange DateTime.IsFourCenturiesBefore where
  lt_iff := DateTime.IsFourCenturiesBefore.lt_iff
  read ht hreads hyear := by
    apply DateTime.IsFourCenturiesBefore.read_eq ht hyear
    cases hreads with
    | rule hrule => exact hf.scope hrule hyear
    | reset hfirst hlimit => exact (Search.finer_defaultScope hfirst hlimit).1
  satisfies ht hrule := hf.satisfies ht hrule
  shift ht unit k := DateTime.IsFourCenturiesBefore.shift_inRange ht unit k
  truncate ht := by
    obtain ⟨hsecond, -⟩ := DateTime.fourCenturiesLater?_eq_some.mp ht
    exact .ok (DateTime.fourCenturiesLater?_eq_some.mpr ⟨hsecond, rfl⟩)

omit hf

/-- From a datetime and the one four centuries later a search gives datetimes that are four
centuries apart, or the same failure, if it stays in range both times. -/
theorem next_fourCenturiesLater (f : Frequency) (hf : f.Repeats) {r r' : DateTime}
    (hr : r.fourCenturiesLater? = some r') (hrange : f.next r ≠ .error .outOfRange)
    (hrange' : f.next r' ≠ .error .outOfRange) :
    (∀ d, f.next r = .ok d → ∃ d', d.fourCenturiesLater? = some d' ∧ f.next r' = .ok d') ∧
      ∀ e, f.next r = .error e → f.next r' = .error e := by
  have hagrees : AgreesInRange DateTime.IsFourCenturiesBefore (f.next r) (f.next r') :=
    hf.inStep.next hr
  revert hrange hrange' hagrees
  generalize f.next r = x
  generalize f.next r' = y
  intro hrange hrange' hagrees
  cases hagrees with
  | @ok d d' hd =>
      constructor
      · intro _ hnext
        cases hnext
        exact ⟨d', hd, rfl⟩
      · intro e hnext
        cases hnext
  | error e =>
      constructor
      · intro d hnext
        cases hnext
      · intro _ hnext
        exact hnext
  | left y => exact absurd rfl hrange
  | right x => exact absurd rfl hrange'

def newYear2097 : DateTime := (DateTime.atDate? ⟨2097, 1, 1⟩ 0 0).get rfl

def newYear2497 : DateTime := (DateTime.atDate? ⟨2497, 1, 1⟩ 0 0).get rfl

def newYearsEve2104 : DateTime := (DateTime.atDate? ⟨2104, 12, 31⟩ 0 0).get rfl

/-- The year 2100 has 365 days, and so has 2500. -/
theorem next_leapDays_fourCenturiesLater :
    leapDays.Repeats ∧ newYear2097.fourCenturiesLater? = some newYear2497 ∧
      leapDays.next newYear2097 = .ok newYearsEve2104 ∧
      leapDays.next newYear2497 ≠ .error .outOfRange ∧
      ∃ d', newYearsEve2104.fourCenturiesLater? = some d' ∧
        leapDays.next newYear2497 = .ok d' := by
  have hf : leapDays.Repeats := by
    have heven : leapDays.search.Predicates
        fun p => ∀ unit : TimeUnit, p.Repeats unit.grownInFourCenturies := by
      have hentries : leapDays.search.predicates.entries = [("even", .even)] := rfl
      refine Search.predicates_of_registry ?_
      intro entry hentry
      rw [hentries] at hentry
      rw [List.mem_singleton.mp hentry]
      exact Predicate.even_repeats
    have hscope : ∀ rule ∈ leapDays.rules.toList, rule.unit ≠ .year → rule.scope ≠ .epoch := by
      decide
    exact ⟨fun hrule => hscope _ hrule, fun hrule hreq hp => heven _ hrule _ hreq _ hp _⟩
  have hlater : newYear2097.fourCenturiesLater? = some newYear2497 := by decide +kernel
  have hnext : leapDays.next newYear2097 = .ok newYearsEve2104 := by decide +kernel
  have hrange' : leapDays.next newYear2497 ≠ .error .outOfRange := by decide +kernel
  have hrange : leapDays.next newYear2097 ≠ .error .outOfRange := by
    rw [hnext]
    intro h
    cases h
  exact ⟨hf, hlater, hnext, hrange',
    (next_fourCenturiesLater leapDays hf hlater hrange hrange').1 _ hnext⟩

end Frequency

end Cadence

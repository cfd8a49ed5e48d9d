import Mathlib.Tactic.Common
import Cadence.Frequency

/-!
# Runs of a search

A search is a chain of visits.  A `Leg` is one visit of a rule, a `Tour` visits the rules of a list
one after the other, and a `Run` tours all rules until a date satisfies them.  A search that
succeeds has a run, and its answer is the date on which the run settles, or the reference when
that date lies before it (`next_eq_ok`).  What every leg of a run respects, the whole run respects
(`Run.preserves`).

The other lemmas open the parts of a search: each says from which successes a success is made.
They hold of every calendar.
-/

namespace Cadence

/-! ## Sequences that succeed -/

theorem bind_eq_ok_iff {ε α β : Type} {x : Except ε α} {f : α → Except ε β} {b : β} :
    (x >>= f) = .ok b ↔ ∃ a, x = .ok a ∧ f a = .ok b := by
  cases x with
  | ok a => simp [bind, Except.bind]
  | error e => simp [bind, Except.bind]

theorem Logged.result_bind_eq_ok_iff {ι ε α β : Type} {x : Logged ι ε α} {f : α → Logged ι ε β}
    {b : β} : (x >>= f).result = .ok b ↔ ∃ a, x.result = .ok a ∧ (f a).result = .ok b := by
  rw [Logged.result_bind]
  cases x.result <;> simp [Except.bind]

theorem Logged.result_foldlM {ι ε α β : Type} (f : β → α → Logged ι ε β) (l : List α) (b : β) :
    (l.foldlM f b).result = l.foldlM (fun b a => (f b a).result) b := by
  induction l generalizing b with
  | nil => rfl
  | cons a l ih =>
      rw [List.foldlM_cons, List.foldlM_cons, Logged.result_bind]
      exact congrArg ((f b a).result.bind ·) (funext ih)

/-- What every step of a fold preserves, the whole fold preserves. -/
theorem foldlM_preserves {ε α β : Type} {f : β → α → Except ε β} {P : β → Prop} {l : List α}
    (hstep : ∀ a ∈ l, ∀ b b', f b a = .ok b' → P b → P b') {b b' : β}
    (h : l.foldlM f b = .ok b') (hb : P b) : P b' := by
  induction l generalizing b with
  | nil =>
      cases h
      exact hb
  | cons a l ih =>
      rw [List.foldlM_cons] at h
      obtain ⟨c, hc, hrest⟩ := bind_eq_ok_iff.mp h
      exact ih (fun a' ha' => hstep a' (List.mem_cons_of_mem _ ha')) hrest
        (hstep a List.mem_cons_self b c hc hb)

namespace Search

variable {δ : Type} [Calendar δ] {s : Search}

/-! ## Satisfying rules -/

/-- A value that was read at a wall clock time is what is required. -/
def Accepts (s : Search) (requirement : Requirement) (value : Int) (wall : Civil.DateTime) :
    Prop :=
  match requirement with
  | .fixed target => value = target.toInt
  | .predicate name => ∃ p, s.predicate name = .ok p ∧ p value wall = true

/-- A date satisfies every rule. -/
def Matches (s : Search) (date : δ) : Prop :=
  ∀ rule ∈ s.rules.toList, s.satisfies date rule = .ok true

/-- Every predicate that a rule names has a property, as far as it is registered. -/
def Predicates (s : Search) (P : Predicate → Prop) : Prop :=
  ∀ rule ∈ s.rules.toList, ∀ name, rule.requirement = .predicate name →
    ∀ p, s.predicate name = .ok p → P p

theorem predicates_of_registry {P : Predicate → Prop}
    (h : ∀ entry ∈ s.predicates.entries, P entry.2) : s.Predicates P := by
  intro rule hrule name hreq p hp
  simp only [predicate, Registry.get?] at hp
  split at hp
  · rename_i q hq
    cases hp
    obtain ⟨before, after, hentries, -⟩ := List.lookup_eq_some_iff.mp hq
    refine h (name, p) ?_
    rw [hentries]
    exact List.mem_append_right _ List.mem_cons_self
  · cases hp

theorem satisfies_iff {date : δ} {rule : Rule} :
    s.satisfies date rule = .ok true ↔ ∃ v, Calendar.read date rule.unit rule.scope = .ok v ∧
      s.Accepts rule.requirement v (Calendar.wallClock date) := by
  simp only [satisfies, bind_eq_ok_iff]
  refine exists_congr fun v => and_congr_right fun _ => ?_
  cases rule.requirement with
  | fixed target => simp [Accepts, pure, Except.pure]
  | predicate name =>
      simp only [Accepts, bind_eq_ok_iff]
      simp [pure, Except.pure]

theorem violationIn_eq_none_iff {date : δ} {rules : List Rule} :
    s.violationIn date rules = .ok none ↔ ∀ rule ∈ rules, s.satisfies date rule = .ok true := by
  induction rules with
  | nil => simp [violationIn, pure, Except.pure]
  | cons rule rest ih =>
      rw [violationIn, List.forall_mem_cons, ← ih, bind_eq_ok_iff]
      constructor
      · rintro ⟨satisfied, hrule, hrest⟩
        cases satisfied with
        | true => exact ⟨hrule, by simpa using hrest⟩
        | false => simp [pure, Except.pure] at hrest
      · rintro ⟨hrule, hrest⟩
        exact ⟨true, hrule, by simpa using hrest⟩

/-- The violation that is found is that of the first rule that is not satisfied. -/
theorem violationIn_eq_some {date : δ} {rules : List Rule} {unit : TimeUnit}
    (h : s.violationIn date rules = .ok (some unit)) :
    ∃ before rule after, rules = before ++ rule :: after ∧ rule.unit = unit ∧
      (∀ r ∈ before, s.satisfies date r = .ok true) ∧ s.satisfies date rule = .ok false := by
  induction rules with
  | nil => simp [violationIn, pure, Except.pure] at h
  | cons rule rest ih =>
      rw [violationIn, bind_eq_ok_iff] at h
      obtain ⟨satisfied, hrule, hrest⟩ := h
      cases satisfied with
      | true =>
          obtain ⟨before, r, after, rfl, hunit, hbefore, hr⟩ := ih (by simpa using hrest)
          refine ⟨rule :: before, r, after, rfl, hunit, ?_, hr⟩
          exact List.forall_mem_cons.mpr ⟨hrule, hbefore⟩
      | false =>
          have hunit : rule.unit = unit := by
            simpa [pure, Except.pure] using hrest
          exact ⟨[], rule, rest, rfl, hunit, by simp, hrule⟩

theorem violation_eq_none_iff {date : δ} : s.violation date = .ok none ↔ s.Matches date :=
  violationIn_eq_none_iff

end Search

theorem Frequency.isMatch_iff {δ : Type} [Calendar δ] {f : Frequency} {date : δ} :
    f.isMatch date = .ok true ↔ f.search.Matches date := by
  rw [← Search.violation_eq_none_iff, Frequency.isMatch]
  cases f.search.violation date with
  | error e => simp [Functor.map, Except.map]
  | ok violation => cases violation <;> simp [Functor.map, Except.map]

namespace Search

variable {δ : Type} [Calendar δ] {s : Search}

/-! ## Visits -/

/-- A predicate refuses the values at a row of dates, each one unit after the one before, and
accepts the last one. -/
inductive Retried (p : Predicate) (unit scope : TimeUnit) : Nat → δ → δ → Prop
  | accepted {x : δ} {v : Int} (hread : Calendar.read x unit scope = .ok v)
      (hp : p v (Calendar.wallClock x) = true) : Retried p unit scope 0 x x
  | rejected {x y z : δ} {v : Int} {n : Nat} (hread : Calendar.read x unit scope = .ok v)
      (hp : p v (Calendar.wallClock x) = false) (hshift : Calendar.shift x unit 1 = .ok y)
      (hrest : Retried p unit scope n y z) : Retried p unit scope (n + 1) x z

theorem Retried.preserves {p : Predicate} {unit scope : TimeUnit} {n : Nat} {x z : δ}
    {P : δ → Prop} (h : Retried p unit scope n x z)
    (hstep : ∀ a b, Calendar.shift a unit 1 = .ok b → P a → P b) (hx : P x) : P z := by
  induction h with
  | accepted hread hp => exact hx
  | rejected hread hp hshift hrest ih => exact ih (hstep _ _ hshift hx)

theorem filterWith_eq_ok {p : Predicate} {name : String} {unit scope : TimeUnit} {remaining : Nat}
    {x z : δ} {before after : Bool}
    (h : (filterWith p name unit scope remaining x before).result = .ok (z, after)) :
    ∃ n, Retried p unit scope n x z ∧ after = (before || decide (0 < n)) := by
  induction remaining generalizing x before with
  | zero =>
      -- No attempt is left, so the value at hand must be accepted.
      rw [filterWith] at h
      simp only [Logged.result_bind_eq_ok_iff, Logged.result_lift] at h
      obtain ⟨v, hread, h⟩ := h
      cases hp : p v (Calendar.wallClock x) with
      | true =>
          simp only [hp, if_true, Logged.result_pure, Except.ok.injEq, Prod.mk.injEq] at h
          obtain ⟨rfl, rfl⟩ := h
          exact ⟨0, .accepted hread hp, by simp⟩
      | false => simp [hp] at h
  | succ remaining ih =>
      rw [filterWith] at h
      simp only [Logged.result_bind_eq_ok_iff, Logged.result_lift] at h
      obtain ⟨v, hread, h⟩ := h
      cases hp : p v (Calendar.wallClock x) with
      | true =>
          simp only [hp, if_true, Logged.result_pure, Except.ok.injEq, Prod.mk.injEq] at h
          obtain ⟨rfl, rfl⟩ := h
          exact ⟨0, .accepted hread hp, by simp⟩
      | false =>
          simp only [hp, Bool.false_eq_true, if_false, Logged.result_bind_eq_ok_iff,
            Logged.result_lift] at h
          obtain ⟨-, -, y, hshift, h⟩ := h
          obtain ⟨n, hrest, hafter⟩ := ih h
          exact ⟨n + 1, .rejected hread hp hshift hrest, by simpa using hafter⟩

theorem filter_eq_ok {x z : δ} {unit scope : TimeUnit} {name : String} {after : Bool}
    (h : (s.filter x unit scope name).result = .ok (z, after)) :
    ∃ p n, s.predicate name = .ok p ∧ Retried p unit scope n x z ∧ after = decide (0 < n) := by
  simp only [filter, Logged.result_bind_eq_ok_iff, Logged.result_lift] at h
  obtain ⟨p, hp, h⟩ := h
  obtain ⟨n, hretried, hafter⟩ := filterWith_eq_ok h
  exact ⟨p, n, hp, hretried, by simpa using hafter⟩

theorem filter_of_accepted {x : δ} {unit scope : TimeUnit} {name : String} {p : Predicate} {v : Int}
    (hname : s.predicate name = .ok p) (hread : Calendar.read x unit scope = .ok v)
    (hp : p v (Calendar.wallClock x) = true) :
    (s.filter x unit scope name).result = .ok (x, false) := by
  simp only [filter, Logged.result_bind_eq_ok_iff, Logged.result_lift]
  refine ⟨p, hname, ?_⟩
  rw [filterWith]
  simp only [Logged.result_bind_eq_ok_iff, Logged.result_lift]
  exact ⟨v, hread, by simp [hp]⟩

/-- A visit of a rule with a number leaves the date, raises the unit or carries. -/
theorem visit_fixed {x y : δ} {rule : Rule} {target : Int64}
    (hreq : rule.requirement = .fixed target) :
    (s.visit x rule).result = .ok y ↔ ∃ v, Calendar.read x rule.unit rule.scope = .ok v ∧
      ((v = target.toInt ∧ y = x) ∨
        (v < target.toInt ∧ ∃ z, Calendar.shift x rule.unit (s.difference target.toInt v) = .ok z ∧
          s.resetBelow z rule.unit rule.unit = .ok y) ∨
        (target.toInt < v ∧ (s.carry x rule.unit rule.scope target.toInt).result = .ok y)) := by
  simp only [visit, hreq, fix, Logged.result_bind_eq_ok_iff, Logged.result_lift]
  refine exists_congr fun v => and_congr_right fun _ => ?_
  -- One of the three branches is taken, and the two others contradict its condition.
  rcases Int.lt_trichotomy v target.toInt with h | h | h
  · have h₁ : ¬v = target.toInt := by omega
    have h₂ : ¬target.toInt < v := by omega
    simp only [h, h₁, h₂, if_true, if_false, true_and, false_and, false_or, or_false,
      Logged.result_tell_bind, Logged.result_bind_eq_ok_iff, Logged.result_lift]
  · have h₁ : ¬v < target.toInt := by omega
    simp [h, eq_comm]
  · have h₁ : ¬v = target.toInt := by omega
    have h₂ : ¬v < target.toInt := by omega
    simp [h, h₁, h₂]

/-- A visit of a rule with a predicate leaves the date, or moves the unit on and resets the finer
ones. -/
theorem visit_predicate {x y : δ} {rule : Rule} {name : String}
    (hreq : rule.requirement = .predicate name) (h : (s.visit x rule).result = .ok y) :
    ∃ p n z, s.predicate name = .ok p ∧ Retried p rule.unit rule.scope n x z ∧
      ((n = 0 ∧ y = z) ∨ (0 < n ∧ s.resetBelow z rule.unit rule.unit = .ok y)) := by
  simp only [visit, hreq, Logged.result_bind_eq_ok_iff] at h
  obtain ⟨⟨z, moved⟩, hfilter, h⟩ := h
  obtain ⟨p, n, hp, hretried, rfl⟩ := filter_eq_ok hfilter
  refine ⟨p, n, z, hp, hretried, ?_⟩
  by_cases hn : 0 < n
  · exact Or.inr ⟨hn, by simpa [hn] using h⟩
  · have h₀ : n = 0 := by omega
    subst h₀
    exact Or.inl ⟨rfl, by simpa [eq_comm] using h⟩

theorem visit_of_satisfied {x : δ} {rule : Rule} (h : s.satisfies x rule = .ok true) :
    (s.visit x rule).result = .ok x := by
  obtain ⟨v, hread, hv⟩ := satisfies_iff.mp h
  cases hreq : rule.requirement with
  | fixed target =>
      rw [hreq] at hv
      exact (visit_fixed hreq).mpr ⟨v, hread, Or.inl ⟨hv, rfl⟩⟩
  | predicate name =>
      rw [hreq] at hv
      obtain ⟨p, hname, hp⟩ := hv
      simp only [visit, hreq, Logged.result_bind_eq_ok_iff]
      exact ⟨_, filter_of_accepted hname hread hp, rfl⟩

/-! ## Carries -/

theorem carry_eq_ok {x y : δ} {unit scope : TimeUnit} {target : Int} :
    (s.carry x unit scope target).result = .ok y ↔ s.freeParent unit scope ≠ .epoch ∧
      ∃ a b c, Calendar.shift x (s.freeParent unit scope) 1 = .ok a ∧
        (s.filterAll (s.freeParent unit scope) a).result = .ok b ∧
        s.resetBetween b (s.freeParent unit scope) unit = .ok c ∧
        s.enter c unit scope (s.freeParent unit scope) target = .ok y := by
  unfold carry
  by_cases hparent : s.freeParent unit scope = .epoch
  · simp [hparent]
  · simp only [hparent, if_false, ne_eq, not_false_eq_true, true_and, Logged.result_tell_bind,
      Logged.result_bind_eq_ok_iff, Logged.result_lift]
    constructor
    · rintro ⟨a, ha, b, hb, c, hc, hy⟩
      exact ⟨a, b, c, ha, hb, hc, hy⟩
    · rintro ⟨a, b, c, ha, hb, hc, hy⟩
      exact ⟨a, ha, b, hb, c, hc, hy⟩

/-- A unit without a first value steps forward until it is not past its number. -/
theorem enter_of_none {x y : δ} {unit scope parent : TimeUnit} {target : Int}
    (hfirst : unit.resetValue = none) :
    s.enter x unit scope parent target = .ok y ↔ ∃ a b v c, s.resetBelow x unit parent = .ok a ∧
      stepWhilePast unit scope target maxAttempts a = .ok b ∧
      Calendar.read b unit scope = .ok v ∧
      Calendar.shift b unit (s.difference target v) = .ok c ∧
      s.resetBelow c unit unit = .ok y := by
  simp [enter, hfirst, bind_eq_ok_iff]

/-- What every step from a date to the next period of a unit preserves, stepping while the unit
is past its number preserves.  In the end it is not past its number. -/
theorem stepWhilePast_eq_ok {unit scope : TimeUnit} {target : Int} {P : δ → Prop}
    (hstep : ∀ a b, Calendar.shift a unit 1 = .ok b → P a → P b) {remaining : Nat} {x y : δ}
    (h : stepWhilePast unit scope target remaining x = .ok y) (hx : P x) :
    P y ∧ ∃ v, Calendar.read y unit scope = .ok v ∧ v ≤ target := by
  induction remaining generalizing x with
  | zero =>
      simp only [stepWhilePast, bind_eq_ok_iff] at h
      obtain ⟨v, hread, h⟩ := h
      by_cases hle : v ≤ target
      · simp only [hle, if_true, pure, Except.pure, Except.ok.injEq] at h
        subst h
        exact ⟨hx, v, hread, hle⟩
      · simp [hle] at h
  | succ remaining ih =>
      simp only [stepWhilePast, bind_eq_ok_iff] at h
      obtain ⟨v, hread, h⟩ := h
      by_cases hle : v ≤ target
      · simp only [hle, if_true, pure, Except.pure, Except.ok.injEq] at h
        subst h
        exact ⟨hx, v, hread, hle⟩
      · simp only [hle, if_false, bind_eq_ok_iff] at h
        obtain ⟨later, hshift, h⟩ := h
        exact ih h (hstep x later hshift hx)

/-- What the predicates required of a unit preserve one by one, they preserve together. -/
theorem filterAll_preserves {unit : TimeUnit} {P : δ → Prop}
    (hstep : ∀ rule ∈ s.rules.toList, rule.unit = unit → ∀ name,
      rule.requirement = .predicate name → ∀ p n a b, s.predicate name = .ok p →
        Retried p unit rule.scope n a b → P a → P b)
    {x y : δ} (h : (s.filterAll unit x).result = .ok y) (hx : P x) : P y := by
  rw [filterAll, Logged.result_foldlM] at h
  refine foldlM_preserves ?_ h hx
  intro rule hrule a b hab ha
  obtain ⟨hmem, hunit⟩ := RuleSet.mem_of.mp hrule
  cases hreq : rule.requirement with
  | fixed target =>
      simp only [hreq, Logged.result_pure, Except.ok.injEq] at hab
      exact hab ▸ ha
  | predicate name =>
      simp only [hreq, Logged.result_bind_eq_ok_iff, Logged.result_pure, Except.ok.injEq] at hab
      obtain ⟨⟨z, moved⟩, hfilter, rfl⟩ := hab
      obtain ⟨p, n, hp, hretried, -⟩ := filter_eq_ok hfilter
      exact hstep rule hmem hunit name hreq p n a z hp hretried ha

/-- What every step to the next period preserves, moving the free parent on preserves. -/
theorem filterAll_preserves_of_shift {unit : TimeUnit} {P : δ → Prop}
    (hstep : ∀ a b, Calendar.shift a unit 1 = .ok b → P a → P b) {x y : δ}
    (h : (s.filterAll unit x).result = .ok y) (hx : P x) : P y := by
  refine filterAll_preserves ?_ h hx
  intro rule hrule hunit name hreq p n a b hp hretried ha
  exact hretried.preserves hstep ha

/-! ## Tours and runs -/

/-- A visit of a rule, from the date it begins with to the date it ends with. -/
structure Leg (δ : Type) where
  rule : Rule
  start : δ
  stop : δ

/-- The visits of the rules of a list, one after the other. -/
inductive Tour (s : Search) : List Rule → δ → List (Leg δ) → δ → Prop
  | nil (x : δ) : Tour s [] x [] x
  | cons {rule : Rule} {rest : List Rule} {x y z : δ} {legs : List (Leg δ)}
      (hvisit : (s.visit x rule).result = .ok y) (htour : Tour s rest y legs z) :
      Tour s (rule :: rest) x (⟨rule, x, y⟩ :: legs) z

/-- Tours of all rules, one after the other, of which only the last one ends on a date that
satisfies them. -/
inductive Run (s : Search) : δ → List (Leg δ) → δ → Prop
  | settled {x y : δ} {legs : List (Leg δ)} (htour : Tour s s.rules.toList x legs y)
      (hmatch : s.violation y = .ok none) : Run s x legs y
  | repaired {x y z : δ} {legs more : List (Leg δ)} {unit : TimeUnit}
      (htour : Tour s s.rules.toList x legs y) (hviolation : s.violation y = .ok (some unit))
      (hrun : Run s y more z) : Run s x (legs ++ more) z

/-- Visits of rules, one after the other, in whatever order. -/
inductive Chain (s : Search) : δ → List (Leg δ) → δ → Prop
  | nil (x : δ) : Chain s x [] x
  | cons {rule : Rule} {x y z : δ} {legs : List (Leg δ)} (hrule : rule ∈ s.rules.toList)
      (hvisit : (s.visit x rule).result = .ok y) (hrest : Chain s y legs z) :
      Chain s x (⟨rule, x, y⟩ :: legs) z

namespace Chain

variable {x y z : δ} {legs more : List (Leg δ)}

theorem append (h : Chain s x legs y) (hmore : Chain s y more z) : Chain s x (legs ++ more) z := by
  induction h with
  | nil x => exact hmore
  | cons hrule hvisit hrest ih => exact .cons hrule hvisit (ih hmore)

theorem leg (h : Chain s x legs z) {leg : Leg δ} (hleg : leg ∈ legs) :
    leg.rule ∈ s.rules.toList ∧ (s.visit leg.start leg.rule).result = .ok leg.stop := by
  induction h with
  | nil x => simp at hleg
  | cons hrule hvisit hrest ih =>
      rcases List.mem_cons.mp hleg with rfl | hleg
      · exact ⟨hrule, hvisit⟩
      · exact ih hleg

/-- Whatever no leg spoils, the chain preserves. -/
theorem preserves {P : δ → Prop} (h : Chain s x legs z)
    (hlegs : ∀ leg ∈ legs, P leg.start → P leg.stop) (hx : P x) : P z := by
  induction h with
  | nil x => exact hx
  | cons hrule hvisit hrest ih =>
      exact ih (fun leg hleg => hlegs leg (List.mem_cons_of_mem _ hleg))
        (hlegs _ List.mem_cons_self hx)

end Chain

theorem Tour.chain {rules : List Rule} {x z : δ} {legs : List (Leg δ)} (h : Tour s rules x legs z)
    (hrules : ∀ rule ∈ rules, rule ∈ s.rules.toList) : Chain s x legs z := by
  induction h with
  | nil x => exact .nil x
  | cons hvisit htour ih =>
      apply Chain.cons (hrules _ List.mem_cons_self) hvisit
      exact ih fun rule hrule => hrules rule (List.mem_cons_of_mem _ hrule)

theorem Run.chain {x e : δ} {legs : List (Leg δ)} (h : Run s x legs e) : Chain s x legs e := by
  induction h with
  | settled htour hmatch => exact htour.chain fun _ hrule => hrule
  | repaired htour hviolation hrun ih => exact (htour.chain fun _ hrule => hrule).append ih

theorem foldlM_visit_eq_ok {rules : List Rule} {x z : δ} :
    (rules.foldlM s.visit x).result = .ok z ↔ ∃ legs, Tour s rules x legs z := by
  induction rules generalizing x with
  | nil =>
      constructor
      · intro h
        simp only [List.foldlM_nil, Logged.result_pure, Except.ok.injEq] at h
        exact ⟨[], h ▸ .nil x⟩
      · rintro ⟨legs, h⟩
        cases h
        rfl
  | cons rule rest ih =>
      simp only [List.foldlM_cons, Logged.result_bind_eq_ok_iff, ih]
      constructor
      · rintro ⟨y, hvisit, legs, htour⟩
        exact ⟨_, .cons hvisit htour⟩
      · rintro ⟨_, h⟩
        cases h with
        | cons hvisit htour => exact ⟨_, hvisit, _, htour⟩

theorem pass_eq_ok {x z : δ} :
    (s.pass x).result = .ok z ↔ ∃ legs, Tour s s.rules.toList x legs z :=
  foldlM_visit_eq_ok

theorem Run.matches_end {x e : δ} {legs : List (Leg δ)} (h : Run s x legs e) : s.Matches e := by
  induction h with
  | settled htour hmatch => exact violation_eq_none_iff.mp hmatch
  | repaired htour hviolation hrun ih => exact ih

theorem settle_eq_ok {reference : δ} {remaining : Nat} {failing : TimeUnit} {x d : δ}
    (h : (s.settle reference remaining failing x).result = .ok d) :
    ∃ legs e, Run s x legs e ∧ d = if e < reference then reference else e := by
  induction remaining generalizing failing x with
  | zero => simp [settle] at h
  | succ remaining ih =>
      simp only [settle, Logged.result_bind_eq_ok_iff, Logged.result_lift] at h
      obtain ⟨y, hpass, violation, hviolation, h⟩ := h
      obtain ⟨legs, htour⟩ := pass_eq_ok.mp hpass
      -- The run goes on exactly if the tour ends on a violated date.
      cases violation with
      | none =>
          simp only [Logged.result_tell_bind, Logged.result_pure, Except.ok.injEq] at h
          exact ⟨legs, y, .settled htour hviolation, h.symm⟩
      | some unit =>
          simp only [Logged.result_tell_bind] at h
          obtain ⟨more, e, hrun, hd⟩ := ih h
          exact ⟨legs ++ more, e, .repaired htour hviolation hrun, hd⟩

/-- The answer of a search is the date on which a run from the truncated reference settles, or
the reference when that date lies before it. -/
theorem next_eq_ok {reference d : δ} (h : (s.next reference).result = .ok d) :
    ∃ x legs e, Calendar.truncate reference = .ok x ∧ Run s x legs e ∧
      d = if e < reference then reference else e := by
  simp only [next, Logged.result_tell_bind, Logged.result_bind_eq_ok_iff,
    Logged.result_lift] at h
  obtain ⟨x, htruncate, h⟩ := h
  obtain ⟨legs, e, hrun, hd⟩ := settle_eq_ok h
  exact ⟨x, legs, e, htruncate, hrun, hd⟩

theorem Tour.leg {rules : List Rule} {x z : δ} {legs : List (Leg δ)} (h : Tour s rules x legs z)
    {leg : Leg δ} (hleg : leg ∈ legs) :
    leg.rule ∈ rules ∧ (s.visit leg.start leg.rule).result = .ok leg.stop := by
  induction h with
  | nil x => simp at hleg
  | cons hvisit htour ih =>
      rcases List.mem_cons.mp hleg with rfl | hleg
      · exact ⟨List.mem_cons_self, hvisit⟩
      · exact ⟨List.mem_cons_of_mem _ (ih hleg).1, (ih hleg).2⟩

/-- A tour of two lists tours one after the other. -/
theorem Tour.of_append {before after : List Rule} {x z : δ} {legs : List (Leg δ)}
    (h : Tour s (before ++ after) x legs z) :
    ∃ y first second, Tour s before x first y ∧ Tour s after y second z := by
  induction before generalizing x legs with
  | nil => exact ⟨x, [], legs, .nil x, h⟩
  | cons rule before ih =>
      cases h with
      | cons hvisit htour =>
          obtain ⟨y, first, second, hfirst, hsecond⟩ := ih htour
          exact ⟨y, _, second, .cons hvisit hfirst, hsecond⟩

theorem Run.leg {x e : δ} {legs : List (Leg δ)} (h : Run s x legs e) {leg : Leg δ}
    (hleg : leg ∈ legs) :
    leg.rule ∈ s.rules.toList ∧ (s.visit leg.start leg.rule).result = .ok leg.stop :=
  h.chain.leg hleg

theorem Tour.preserves {P : δ → Prop} {rules : List Rule} {x z : δ} {legs : List (Leg δ)}
    (h : Tour s rules x legs z) (hlegs : ∀ leg ∈ legs, P leg.start → P leg.stop) (hx : P x) :
    P z := by
  induction h with
  | nil x => exact hx
  | cons hvisit htour ih =>
      exact ih (fun leg hleg => hlegs leg (List.mem_cons_of_mem _ hleg))
        (hlegs _ List.mem_cons_self hx)

/-- Whatever no leg of a run spoils, the run preserves. -/
theorem Run.preserves {P : δ → Prop} {x e : δ} {legs : List (Leg δ)} (h : Run s x legs e)
    (hlegs : ∀ leg ∈ legs, P leg.start → P leg.stop) (hx : P x) : P e :=
  h.chain.preserves hlegs hx

/-- A tour leaves a date that satisfies its rules. -/
theorem Tour.eq_of_satisfied {rules : List Rule} {x z : δ} {legs : List (Leg δ)}
    (h : Tour s rules x legs z) (hx : ∀ rule ∈ rules, s.satisfies x rule = .ok true) : z = x := by
  induction h with
  | nil x => rfl
  | cons hvisit htour ih =>
      have hstay := visit_of_satisfied (hx _ List.mem_cons_self)
      rw [hstay] at hvisit
      cases hvisit
      exact ih fun rule hrule => hx rule (List.mem_cons_of_mem _ hrule)

/-- A run from a date that satisfies every rule settles on it at once. -/
theorem Run.eq_of_matches {x e : δ} {legs : List (Leg δ)} (h : Run s x legs e)
    (hx : s.Matches x) : e = x := by
  cases h with
  | settled htour hmatch => exact htour.eq_of_satisfied hx
  | repaired htour hviolation hrun =>
      -- The first tour has not moved, so it cannot end on a violated date.
      rw [htour.eq_of_satisfied hx, violation_eq_none_iff.mpr hx] at hviolation
      cases hviolation

end Search

/-! ## Answers -/

theorem Civil.DateTime.lt_irrefl (t : DateTime) : ¬t < t := by
  rw [DateTime.lt_def]
  omega

theorem Zoned.lt_irrefl (z : Zoned) : ¬z < z := by
  intro h
  rcases h with h | ⟨-, h⟩
  · omega
  · omega

namespace Frequency

variable {f : Frequency}

/-- An answer is the date on which a run settles, unless that lies before the reference.  Then the
answer is the reference itself. -/
theorem next_eq_ok {δ : Type} [Calendar δ] {r d : δ} (h : f.next r = .ok d) :
    ∃ x legs e, Calendar.truncate r = .ok x ∧ f.search.Run x legs e ∧
      d = if e < r then r else e :=
  Search.next_eq_ok h

/-- An answer is never before the reference, and it is a match unless the run settles before the
reference and the reference is none. -/
theorem next_sound_of_irrefl {δ : Type} [Calendar δ] (hirrefl : ∀ a : δ, ¬a < a) {r d : δ}
    (h : f.next r = .ok d) :
    ¬d < r ∧ ∃ x legs e, Calendar.truncate r = .ok x ∧ f.search.Run x legs e ∧
      d = (if e < r then r else e) ∧
      (f.isMatch d = .ok true ↔ ¬e < r ∨ f.isMatch r = .ok true) := by
  obtain ⟨x, legs, e, htruncate, hrun, hd⟩ := next_eq_ok h
  have hmatch := isMatch_iff.mpr hrun.matches_end
  by_cases hback : e < r
  · have hanswer : d = r := by rw [hd, if_pos hback]
    refine ⟨?_, x, legs, e, htruncate, hrun, hd, ?_⟩
    · rw [hanswer]
      exact hirrefl r
    · simp [hanswer, hback]
  · have hanswer : d = e := by rw [hd, if_neg hback]
    refine ⟨?_, x, legs, e, htruncate, hrun, hd, ?_⟩
    · rw [hanswer]
      exact hback
    · simp [hanswer, hback, hmatch]

end Frequency

end Cadence

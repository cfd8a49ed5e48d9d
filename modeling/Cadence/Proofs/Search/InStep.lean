import Cadence.Proofs.Search.Failure

/-!
# Searches side by side

A search on one kind of dates is compared with the same search on another kind, step by step.  How
results are compared is left open: an `Agreement` relates equal failures and goes on through
sequences.  Related dates are in step (`Search.InStep`) if they are ordered alike, show alike the
numbers that the search counts with, satisfy the same rules, and are moved alike.  Then searches from
related dates agree (`Search.InStep.next`).  There is one lemma for each part of a search, and those
for the loops are inductions on the attempts or passes that remain.
-/

namespace Cadence

/-! ## Agreements -/

/-- A way to compare two results: values are compared by a relation, equal failures agree, and so do
sequences whose parts agree. -/
structure Agreement where
  Rel : {α β : Type} → (α → β → Prop) → Except Error α → Except Error β → Prop
  ok {α β : Type} {R : α → β → Prop} {a : α} {b : β} (h : R a b) : Rel R (.ok a) (.ok b)
  error {α β : Type} {R : α → β → Prop} (e : Error) : Rel R (.error e) (.error e)
  bind {α β γ κ : Type} {R : α → β → Prop} {Q : γ → κ → Prop} {x : Except Error α}
    {y : Except Error β} {f : α → Except Error γ} {g : β → Except Error κ} (h : Rel R x y)
    (hfg : ∀ a b, R a b → Rel Q (f a) (g b)) : Rel Q (x >>= f) (y >>= g)

namespace Agreement

variable (C : Agreement) {α β γ κ : Type} {R : α → β → Prop} {Q : γ → κ → Prop}

theorem of_eq {x y : Except Error α} (h : x = y) : C.Rel Eq x y := by
  subst h
  cases x with
  | ok a => exact C.ok rfl
  | error e => exact C.error e

theorem result_bind {ι ι' : Type} {x : Logged ι Error α} {y : Logged ι' Error β}
    {f : α → Logged ι Error γ} {g : β → Logged ι' Error κ} (h : C.Rel R x.result y.result)
    (hfg : ∀ a b, R a b → C.Rel Q (f a).result (g b).result) :
    C.Rel Q (x >>= f).result (y >>= g).result := by
  rw [Logged.result_bind, Logged.result_bind]
  exact C.bind h hfg

theorem foldlM {l : List γ} {f : α → γ → Except Error α} {g : β → γ → Except Error β}
    (hstep : ∀ c ∈ l, ∀ a b, R a b → C.Rel R (f a c) (g b c)) {a : α} {b : β} (h : R a b) :
    C.Rel R (l.foldlM f a) (l.foldlM g b) := by
  induction l generalizing a b with
  | nil => exact C.ok h
  | cons c l ih =>
      rw [List.foldlM_cons, List.foldlM_cons]
      apply C.bind (hstep c List.mem_cons_self a b h)
      intro a' b' h'
      exact ih (fun c' hc' => hstep c' (List.mem_cons_of_mem _ hc')) h'

end Agreement

namespace Search

variable {C : Agreement} {δ ε : Type} [Calendar δ] [Calendar ε] {s : Search} {R : δ → ε → Prop}
  {a : δ} {b : ε}

/-- Related dates are moved, tested and measured alike, as far as the search does so. -/
structure InStep (C : Agreement) (s : Search) (R : δ → ε → Prop) : Prop where
  lt_iff {a a' : δ} {b b' : ε} : R a b → R a' b' → (a < a' ↔ b < b')
  /-- Years are left out, because no number is required of them and they are not reset. -/
  read {a : δ} {b : ε} {unit scope : TimeUnit} : R a b → s.Reads unit scope → unit ≠ .year →
    Calendar.read a unit scope = Calendar.read b unit scope
  satisfies {a : δ} {b : ε} {rule : Rule} : R a b → rule ∈ s.rules.toList →
    s.satisfies a rule = s.satisfies b rule
  shift {a : δ} {b : ε} : R a b → ∀ unit k,
    C.Rel R (Calendar.shift a unit k) (Calendar.shift b unit k)
  truncate {a : δ} {b : ε} : R a b → C.Rel R (Calendar.truncate a) (Calendar.truncate b)

/-! ## Parts of a search as tests -/

/-- Waiting for a predicate is testing the rule that names it. -/
theorem result_filterWith_zero {rule : Rule} {name : String} {p : Predicate}
    (hreq : rule.requirement = .predicate name) (hp : s.predicate name = .ok p) (date : δ)
    (moved : Bool) :
    (filterWith p name rule.unit rule.scope 0 date moved).result =
      s.satisfies date rule >>= fun satisfied =>
        if satisfied then .ok (date, moved) else .error (.noMatch rule.unit maxAttempts) := by
  rw [filterWith]
  simp only [satisfies, hreq, hp, Logged.result_bind, Logged.result_lift]
  cases Calendar.read date rule.unit rule.scope with
  | error e => rfl
  | ok v =>
      show (if p v (Calendar.wallClock date) = true then _ else _ : Steps δ _).result =
        if p v (Calendar.wallClock date) = true then _ else _
      split <;> rfl

theorem result_filterWith_succ {rule : Rule} {name : String} {p : Predicate}
    (hreq : rule.requirement = .predicate name) (hp : s.predicate name = .ok p) (remaining : Nat)
    (date : δ) (moved : Bool) :
    (filterWith p name rule.unit rule.scope (remaining + 1) date moved).result =
      s.satisfies date rule >>= fun satisfied =>
        if satisfied then .ok (date, moved)
        else Calendar.shift date rule.unit 1 >>= fun later =>
          (filterWith p name rule.unit rule.scope remaining later true).result := by
  rw [filterWith]
  simp only [satisfies, hreq, hp, Logged.result_bind, Logged.result_lift]
  cases Calendar.read date rule.unit rule.scope with
  | error e => rfl
  | ok v =>
      show (if p v (Calendar.wallClock date) = true then _ else _ : Steps δ _).result =
        if p v (Calendar.wallClock date) = true then _ else _
      split
      · rfl
      · simp only [Logged.result_bind, Logged.result_lift]
        rfl

/-- Resets agree wherever they read alike and the shifts that they make agree. -/
theorem reset_rel {unit scope : TimeUnit} {value : Int} (hR : R a b)
    (hread : Calendar.read a unit scope = Calendar.read b unit scope)
    (hshift : ∀ v, Calendar.read b unit scope = .ok v →
      C.Rel R (Calendar.shift a unit (s.difference value v))
        (Calendar.shift b unit (s.difference value v))) :
    C.Rel R (s.reset a unit scope value) (s.reset b unit scope value) := by
  unfold reset
  rw [hread]
  cases hv : Calendar.read b unit scope with
  | error e => exact C.error e
  | ok v =>
      show C.Rel R (if v = value then pure a else Calendar.shift a unit (s.difference value v))
        (if v = value then pure b else Calendar.shift b unit (s.difference value v))
      split
      · exact C.ok hR
      · exact hshift v hv

/-- Dates that satisfy the same rules violate the same one first. -/
theorem violation_eq_of_satisfies
    (h : ∀ rule ∈ s.rules.toList, s.satisfies a rule = s.satisfies b rule) :
    s.violation a = s.violation b := by
  unfold Search.violation
  revert h
  induction s.rules.toList with
  | nil => exact fun _ => rfl
  | cons rule rest ih =>
      intro h
      unfold violationIn
      rw [h rule List.mem_cons_self, ih fun r hr => h r (List.mem_cons_of_mem _ hr)]

namespace InStep

variable (h : InStep C s R)

include h

/-! ## Resets -/

theorem reset (hR : R a b) {unit scope : TimeUnit} (hreads : s.Reads unit scope)
    (hyear : unit ≠ .year) (value : Int) :
    C.Rel R (s.reset a unit scope value) (s.reset b unit scope value) :=
  reset_rel hR (h.read hR hreads hyear) fun _ _ => h.shift hR unit _

theorem resetDefault (hR : R a b) {limit unit : TimeUnit} (hlimit : limit < unit) :
    C.Rel R (s.resetDefault limit a unit) (s.resetDefault limit b unit) := by
  unfold Search.resetDefault
  cases hfirst : unit.resetValue with
  | none => exact C.ok hR
  | some first =>
      exact h.reset hR (.reset hfirst hlimit) (resetValue_ne_none_of_some hfirst).2.1 first

theorem resetBelow (hR : R a b) {unit limit : TimeUnit} (hlimit : limit ≤ unit) :
    C.Rel R (s.resetBelow a unit limit) (s.resetBelow b unit limit) := by
  apply C.foldlM _ hR
  intro u hu x y hxy
  have hfiner : unit < u := of_decide_eq_true (List.mem_filter.mp hu).2
  exact h.resetDefault hxy (Nat.lt_of_le_of_lt hlimit hfiner)

theorem resetBetween (hR : R a b) (parent unit : TimeUnit) :
    C.Rel R (s.resetBetween a parent unit) (s.resetBetween b parent unit) := by
  apply C.foldlM _ hR
  intro u hu x y hxy
  have hbetween := (List.mem_filter.mp (List.mem_of_mem_filter hu)).2
  simp only [Bool.and_eq_true, decide_eq_true_eq] at hbetween
  exact h.resetDefault hxy hbetween.1

/-! ## Loops -/

variable {rule : Rule} (hrule : rule ∈ s.rules.toList)

include hrule

theorem filterWith {name : String} {p : Predicate} (hreq : rule.requirement = .predicate name)
    (hp : s.predicate name = .ok p) {remaining : Nat} {moved : Bool} (hR : R a b) :
    C.Rel (fun x y => R x.1 y.1 ∧ x.2 = y.2)
      (Search.filterWith p name rule.unit rule.scope remaining a moved).result
      (Search.filterWith p name rule.unit rule.scope remaining b moved).result := by
  -- The rule tells both dates to stay or both to move on.
  induction remaining generalizing a b moved with
  | zero =>
      rw [result_filterWith_zero hreq hp, result_filterWith_zero hreq hp]
      apply C.bind (C.of_eq (h.satisfies hR hrule))
      rintro satisfied _ rfl
      split
      · exact C.ok ⟨hR, rfl⟩
      · exact C.error _
  | succ remaining ih =>
      rw [result_filterWith_succ hreq hp, result_filterWith_succ hreq hp]
      apply C.bind (C.of_eq (h.satisfies hR hrule))
      rintro satisfied _ rfl
      split
      · exact C.ok ⟨hR, rfl⟩
      · exact C.bind (h.shift hR rule.unit 1) fun _ _ hR' => ih hR'

theorem filter {name : String} (hreq : rule.requirement = .predicate name) (hR : R a b) :
    C.Rel (fun x y => R x.1 y.1 ∧ x.2 = y.2) (s.filter a rule.unit rule.scope name).result
      (s.filter b rule.unit rule.scope name).result := by
  unfold Search.filter
  rw [Logged.result_bind, Logged.result_bind, Logged.result_lift, Logged.result_lift]
  cases hp : s.predicate name with
  | error e => exact C.error e
  | ok p => exact h.filterWith hrule hreq hp hR

omit hrule in
theorem filterAll (hR : R a b) (unit : TimeUnit) :
    C.Rel R (s.filterAll unit a).result (s.filterAll unit b).result := by
  unfold Search.filterAll
  rw [Logged.result_foldlM, Logged.result_foldlM]
  apply C.foldlM _ hR
  intro rule hof x y hxy
  obtain ⟨hrule, rfl⟩ := RuleSet.mem_of.mp hof
  cases hreq : rule.requirement with
  | fixed target => exact C.ok hxy
  | predicate name =>
      apply C.result_bind (h.filter hrule hreq hxy)
      intro filtered filtered' hfiltered
      exact C.ok hfiltered.1

variable {target : Int64} (hreq : rule.requirement = .fixed target)

include hreq

/-- What a number is required of is read alike. -/
theorem read_fixed (hR : R a b) :
    Calendar.read a rule.unit rule.scope = Calendar.read b rule.unit rule.scope := by
  refine h.read hR (.rule hrule) fun hyear => ?_
  have hnone := rule.yearNotFixed hyear
  rw [hreq] at hnone
  cases hnone

theorem stepWhilePast {remaining : Nat} (hR : R a b) :
    C.Rel R (Search.stepWhilePast rule.unit rule.scope target.toInt remaining a)
      (Search.stepWhilePast rule.unit rule.scope target.toInt remaining b) := by
  induction remaining generalizing a b with
  | zero =>
      unfold Search.stepWhilePast
      apply C.bind (C.of_eq (h.read_fixed hrule hreq hR))
      rintro v _ rfl
      split
      · exact C.ok hR
      · exact C.error _
  | succ remaining ih =>
      unfold Search.stepWhilePast
      apply C.bind (C.of_eq (h.read_fixed hrule hreq hR))
      rintro v _ rfl
      split
      · exact C.ok hR
      · exact C.bind (h.shift hR rule.unit 1) fun _ _ hR' => ih hR'

/-! ## Visits -/

theorem enter (hR : R a b) {parent : TimeUnit} (hparent : parent ≤ rule.unit) :
    C.Rel R (s.enter a rule.unit rule.scope parent target.toInt)
      (s.enter b rule.unit rule.scope parent target.toInt) := by
  have hbelow {x : δ} {y : ε} (hxy : R x y) := h.resetBelow hxy (Nat.le_refl rule.unit.rank)
  unfold Search.enter
  cases rule.unit.resetValue with
  | some first =>
      have hreset : C.Rel R (s.reset a rule.unit rule.scope first)
          (s.reset b rule.unit rule.scope first) :=
        reset_rel hR (h.read_fixed hrule hreq hR) fun _ _ => h.shift hR rule.unit _
      apply C.bind hreset
      intro x y hxy
      apply C.bind (hbelow hxy)
      intro x' y' hxy'
      exact h.shift hxy' rule.unit _
  | none =>
      apply C.bind (h.resetBelow hR hparent)
      intro x y hxy
      apply C.bind (h.stepWhilePast hrule hreq hxy)
      intro x' y' hxy'
      apply C.bind (C.of_eq (h.read_fixed hrule hreq hxy'))
      rintro v _ rfl
      exact C.bind (h.shift hxy' rule.unit _) fun _ _ hR' => hbelow hR'

theorem carry (hR : R a b) :
    C.Rel R (s.carry a rule.unit rule.scope target.toInt).result
      (s.carry b rule.unit rule.scope target.toInt).result := by
  have hparent : s.freeParent rule.unit rule.scope ≤ rule.unit :=
    Nat.le_trans freeParent_le (Nat.le_of_lt (TimeUnit.legal_coarser rule.legal))
  unfold Search.carry
  by_cases hepoch : s.freeParent rule.unit rule.scope = .epoch
  · simp only [hepoch, if_true]
    exact C.error _
  · simp only [hepoch, if_false, Logged.result_tell_bind]
    apply C.result_bind (h.shift hR _ 1)
    intro x y hxy
    apply C.result_bind (h.filterAll hxy _)
    intro x' y' hxy'
    apply C.result_bind (h.resetBetween hxy' _ rule.unit)
    intro x'' y'' hxy''
    exact h.enter hrule hreq hxy'' hparent

theorem fix (hR : R a b) :
    C.Rel R (s.fix a rule.unit rule.scope target.toInt).result
      (s.fix b rule.unit rule.scope target.toInt).result := by
  unfold Search.fix
  apply C.result_bind (C.of_eq (h.read_fixed hrule hreq hR))
  rintro v _ rfl
  by_cases heq : v = target.toInt
  · rw [if_pos heq, if_pos heq]
    exact C.ok hR
  · rw [if_neg heq, if_neg heq]
    by_cases hlt : v < target.toInt
    · rw [if_pos hlt, if_pos hlt]
      simp only [Logged.result_tell_bind]
      apply C.result_bind (h.shift hR rule.unit _)
      intro x y hxy
      exact h.resetBelow hxy (Nat.le_refl rule.unit.rank)
    · rw [if_neg hlt, if_neg hlt]
      exact h.carry hrule hreq hR

omit hreq

theorem visit (hR : R a b) : C.Rel R (s.visit a rule).result (s.visit b rule).result := by
  unfold Search.visit
  cases hreq : rule.requirement with
  | fixed target => exact h.fix hrule hreq hR
  | predicate name =>
      apply C.result_bind (h.filter hrule hreq hR)
      rintro ⟨x, moved⟩ ⟨y, _⟩ ⟨hxy, rfl⟩
      cases moved with
      | true => exact h.resetBelow hxy (Nat.le_refl rule.unit.rank)
      | false => exact C.ok hxy

omit hrule

/-! ## Searches -/

theorem violation (hR : R a b) : s.violation a = s.violation b :=
  violation_eq_of_satisfies fun _ hrule => h.satisfies hR hrule

theorem pass (hR : R a b) : C.Rel R (s.pass a).result (s.pass b).result := by
  unfold Search.pass
  rw [Logged.result_foldlM, Logged.result_foldlM]
  apply C.foldlM _ hR
  intro rule hrule x y hxy
  exact h.visit hrule hxy

theorem settle {reference : δ} {reference' : ε} (href : R reference reference') {remaining : Nat}
    {failing : TimeUnit} (hR : R a b) :
    C.Rel R (s.settle reference remaining failing a).result
      (s.settle reference' remaining failing b).result := by
  -- The references stay related while the dates move on, so the last comparison goes the same way.
  induction remaining generalizing a b failing with
  | zero => exact C.error _
  | succ remaining ih =>
      unfold Search.settle
      apply C.result_bind (h.pass hR)
      intro x y hxy
      apply C.result_bind (C.of_eq (h.violation hxy))
      rintro violation _ rfl
      cases violation with
      | none =>
          simp only [Logged.result_tell_bind, Logged.result_pure]
          by_cases hlt : x < reference
          · rw [if_pos hlt, if_pos ((h.lt_iff hxy href).mp hlt)]
            exact C.ok href
          · rw [if_neg hlt, if_neg (mt (h.lt_iff hxy href).mpr hlt)]
            exact C.ok hxy
      | some unit =>
          simp only [Logged.result_tell_bind]
          exact ih hxy

/-- Searches from related references agree. -/
theorem next (hR : R a b) : C.Rel R (s.next a).result (s.next b).result := by
  unfold Search.next
  simp only [Logged.result_tell_bind]
  exact C.result_bind (h.truncate hR) fun _ _ hxy => h.settle hR hxy

end InStep

end Search

end Cadence

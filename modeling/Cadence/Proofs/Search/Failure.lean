import Cadence.Proofs.Search.Visit

/-!
# How a search fails

A search passes on the failures of its calendar and of its registry, and a unit on which a predicate
or a week's number is waited for may run out of attempts.  Apart from these excuses (`Excuses`, or
`OwnExcuses` if only what the search itself reads, shifts and looks up is excused) a visit fails in
one way only: a unit is past its number, and no scope is free to move on
(`OwnExcuses.visit_eq_error`).  A search that fails in a visit has toured the rules up to there: it
is a `Halt`.
-/

namespace Cadence

theorem bind_eq_error_iff {ε α β : Type} {x : Except ε α} {f : α → Except ε β} {e : ε} :
    (x >>= f) = .error e ↔ x = .error e ∨ ∃ a, x = .ok a ∧ f a = .error e := by
  cases x with
  | ok a => simp [bind, Except.bind]
  | error e' => simp [bind, Except.bind]

theorem Logged.result_bind_eq_error_iff {ι ε α β : Type} {x : Logged ι ε α}
    {f : α → Logged ι ε β} {e : ε} :
    (x >>= f).result = .error e ↔
      x.result = .error e ∨ ∃ a, x.result = .ok a ∧ (f a).result = .error e := by
  rw [Logged.result_bind]
  exact bind_eq_error_iff

/-- Every failure of a computation has a property. -/
def OnlyFails {α : Type} (P : Error → Prop) (x : Except Error α) : Prop :=
  ∀ e, x = .error e → P e

namespace OnlyFails

variable {α β : Type} {P : Error → Prop}

theorem of_ok (a : α) : OnlyFails P (.ok a) := by
  intro e he
  cases he

theorem of_error {e : Error} (he : P e) : OnlyFails P (.error e : Except Error α) := by
  rintro _ ⟨⟩
  exact he

theorem bind {x : Except Error α} {f : α → Except Error β} (hx : OnlyFails P x)
    (hf : ∀ a, OnlyFails P (f a)) : OnlyFails P (x >>= f) := by
  intro e he
  rcases bind_eq_error_iff.mp he with he | ⟨a, -, he⟩
  · exact hx e he
  · exact hf a e he

theorem result_bind {ι : Type} {x : Logged ι Error α} {f : α → Logged ι Error β}
    (hx : OnlyFails P x.result) (hf : ∀ a, OnlyFails P (f a).result) :
    OnlyFails P (x >>= f).result := by
  rw [Logged.result_bind]
  exact hx.bind hf

theorem lift_bind {ι : Type} {x : Except Error α} {f : α → Logged ι Error β} (hx : OnlyFails P x)
    (hf : ∀ a, OnlyFails P (f a).result) :
    OnlyFails P ((liftM x : Logged ι Error α) >>= f).result :=
  result_bind hx hf

theorem foldlM {l : List α} {f : β → α → Except Error β}
    (hf : ∀ b, ∀ a ∈ l, OnlyFails P (f b a)) (b : β) : OnlyFails P (l.foldlM f b) := by
  induction l generalizing b with
  | nil => exact of_ok b
  | cons a l ih =>
      rw [List.foldlM_cons]
      apply (hf b a List.mem_cons_self).bind
      intro c
      exact ih (fun d a' ha' => hf d a' (List.mem_cons_of_mem _ ha')) c

end OnlyFails

open Civil

namespace Search

variable {δ : Type} [Calendar δ] {s : Search} {P : Error → Prop}

/-- The failures of readings, shifts and the registry have a property, and so has the failure of
running out of attempts. -/
structure Excuses (δ : Type) [Calendar δ] (s : Search) (P : Error → Prop) : Prop where
  read (date : δ) (unit scope : TimeUnit) : OnlyFails P (Calendar.read date unit scope)
  shift (date : δ) (unit : TimeUnit) (count : Int) : OnlyFails P (Calendar.shift date unit count)
  predicate (name : String) : OnlyFails P (s.predicate name)
  exhausted (unit : TimeUnit) : P (.noMatch unit maxAttempts)

/-- The units and scopes that a search reads: those of its rules, and those within which a unit is
reset when a coarser one has moved. -/
inductive Reads (s : Search) : TimeUnit → TimeUnit → Prop
  | rule {rule : Rule} (hrule : rule ∈ s.rules.toList) : Reads s rule.unit rule.scope
  | reset {unit limit : TimeUnit} {first : Int} (hfirst : unit.resetValue = some first)
      (hlimit : limit < unit) : Reads s unit (unit.defaultScope.finer limit)

theorem Reads.unit_ne_epoch {unit scope : TimeUnit} (h : s.Reads unit scope) : unit ≠ .epoch := by
  cases h with
  | @rule rule hrule => exact rule.unit_ne_epoch
  | reset hfirst hlimit => exact (resetValue_ne_none_of_some hfirst).1

/-- What a search reads can be measured, apart from what its rules are about. -/
theorem Reads.eq_rule_of_not_measured {unit scope : TimeUnit} (h : s.Reads unit scope)
    (hm : measured unit scope = false) :
    ∃ rule ∈ s.rules.toList, rule.unit = unit ∧ rule.scope = scope := by
  cases h with
  | rule hrule => exact ⟨_, hrule, rfl, rfl⟩
  | reset hfirst hlimit =>
      rw [(finer_defaultScope hfirst hlimit).2.1] at hm
      cases hm

/-- The failures of the readings and shifts that a search makes and of the predicates that its rules
name have a property, and so has the failure of running out of attempts. -/
structure OwnExcuses (δ : Type) [Calendar δ] (s : Search) (P : Error → Prop) : Prop where
  read (date : δ) {unit scope : TimeUnit} (hreads : s.Reads unit scope) :
    OnlyFails P (Calendar.read date unit scope)
  shift (date : δ) {unit : TimeUnit} (hunit : unit ≠ .epoch) (count : Int) :
    OnlyFails P (Calendar.shift date unit count)
  predicate {rule : Rule} (hrule : rule ∈ s.rules.toList) {name : String}
    (hreq : rule.requirement = .predicate name) : OnlyFails P (s.predicate name)
  exhausted (unit : TimeUnit) : P (.noMatch unit maxAttempts)

/-- The failures of the readings and shifts that a search makes and of the predicates that its rules
name have a property.  Nothing is excused on which the search itself gives up. -/
structure PartExcuses (δ : Type) [Calendar δ] (s : Search) (P : Error → Prop) : Prop where
  read (date : δ) {unit scope : TimeUnit} (hreads : s.Reads unit scope) :
    OnlyFails P (Calendar.read date unit scope)
  shift (date : δ) {unit : TimeUnit} (hunit : unit ≠ .epoch) (count : Int) :
    OnlyFails P (Calendar.shift date unit count)
  predicate {rule : Rule} (hrule : rule ∈ s.rules.toList) {name : String}
    (hreq : rule.requirement = .predicate name) : OnlyFails P (s.predicate name)

theorem Excuses.own (h : Excuses δ s P) : OwnExcuses δ s P where
  read date unit scope _ := h.read date unit scope
  shift date unit _ count := h.shift date unit count
  predicate _ name _ := h.predicate name
  exhausted := h.exhausted

theorem OwnExcuses.parts (h : OwnExcuses δ s P) : PartExcuses δ s P where
  read := h.read
  shift := h.shift
  predicate := h.predicate

/-! ## Parts of a visit -/

namespace PartExcuses

variable (h : PartExcuses δ s P)

include h

theorem reset (date : δ) {unit scope : TimeUnit} (hreads : s.Reads unit scope) (value : Int) :
    OnlyFails P (s.reset date unit scope value) := by
  unfold Search.reset
  apply (h.read date hreads).bind
  intro current
  split
  · exact .of_ok date
  · exact h.shift date hreads.unit_ne_epoch _

theorem resetDefault {limit unit : TimeUnit} (hlimit : limit < unit) (date : δ) :
    OnlyFails P (s.resetDefault limit date unit) := by
  unfold Search.resetDefault
  split
  · rename_i first hfirst
    exact h.reset date (.reset hfirst hlimit) first
  · exact .of_ok date

theorem resetBelow (date : δ) {unit limit : TimeUnit} (hlimit : limit ≤ unit) :
    OnlyFails P (s.resetBelow date unit limit) := by
  apply OnlyFails.foldlM
  intro date u hu
  have hfiner : unit < u := of_decide_eq_true (List.mem_filter.mp hu).2
  exact h.resetDefault (Nat.lt_of_le_of_lt hlimit hfiner) date

theorem resetBetween (date : δ) (parent unit : TimeUnit) :
    OnlyFails P (s.resetBetween date parent unit) := by
  apply OnlyFails.foldlM
  intro date u hu
  have hbetween := (List.mem_filter.mp (List.mem_of_mem_filter hu)).2
  simp only [Bool.and_eq_true, decide_eq_true_eq] at hbetween
  exact h.resetDefault hbetween.1 date

theorem filterWith (p : Predicate) (name : String) {unit scope : TimeUnit}
    (hexhausted : P (.noMatch unit maxAttempts)) (hreads : s.Reads unit scope) (remaining : Nat)
    (date : δ) (moved : Bool) :
    OnlyFails P (Search.filterWith p name unit scope remaining date moved).result := by
  induction remaining generalizing date moved with
  | zero =>
      unfold Search.filterWith
      apply OnlyFails.lift_bind (h.read date hreads)
      intro value
      split
      · exact .of_ok _
      · exact .of_error hexhausted
  | succ remaining ih =>
      unfold Search.filterWith
      apply OnlyFails.lift_bind (h.read date hreads)
      intro value
      split
      · exact .of_ok _
      · simp only [Logged.result_tell_bind]
        apply OnlyFails.lift_bind (h.shift date hreads.unit_ne_epoch 1)
        intro later
        exact ih later true

theorem filter {rule : Rule} (hexhausted : P (.noMatch rule.unit maxAttempts))
    (hrule : rule ∈ s.rules.toList) (date : δ) {name : String}
    (hreq : rule.requirement = .predicate name) :
    OnlyFails P (s.filter date rule.unit rule.scope name).result := by
  unfold Search.filter
  apply OnlyFails.lift_bind (h.predicate hrule hreq)
  intro p
  exact h.filterWith p name hexhausted (.rule hrule) maxAttempts date false

theorem filterAll {unit : TimeUnit} (hexhausted : P (.noMatch unit maxAttempts)) (date : δ) :
    OnlyFails P (s.filterAll unit date).result := by
  unfold Search.filterAll
  rw [Logged.result_foldlM]
  apply OnlyFails.foldlM
  intro date rule hof
  obtain ⟨hrule, rfl⟩ := RuleSet.mem_of.mp hof
  split
  · exact .of_ok date
  · rename_i name hreq
    apply OnlyFails.result_bind (h.filter hexhausted hrule date hreq)
    intro filtered
    exact .of_ok _

end PartExcuses

namespace OwnExcuses

variable (h : OwnExcuses δ s P) {rule : Rule} (hrule : rule ∈ s.rules.toList)

include h hrule

theorem stepWhilePast (target : Int) (remaining : Nat) (date : δ) :
    OnlyFails P (Search.stepWhilePast rule.unit rule.scope target remaining date) := by
  induction remaining generalizing date with
  | zero =>
      unfold Search.stepWhilePast
      apply (h.read date (.rule hrule)).bind
      intro current
      split
      · exact .of_ok date
      · exact .of_error (h.exhausted rule.unit)
  | succ remaining ih =>
      unfold Search.stepWhilePast
      apply (h.read date (.rule hrule)).bind
      intro current
      split
      · exact .of_ok date
      · exact (h.shift date rule.unit_ne_epoch 1).bind ih

theorem enter (date : δ) {parent : TimeUnit} (hparent : parent ≤ rule.unit) (target : Int) :
    OnlyFails P (s.enter date rule.unit rule.scope parent target) := by
  have hunit := rule.unit_ne_epoch
  have hbelow (date : δ) := h.parts.resetBelow date (Nat.le_refl rule.unit.rank)
  unfold Search.enter
  split
  · apply (h.parts.reset date (.rule hrule) _).bind
    intro date
    apply (hbelow date).bind
    intro date
    exact h.shift date hunit _
  · apply (h.parts.resetBelow date hparent).bind
    intro date
    apply (h.stepWhilePast hrule target _ date).bind
    intro date
    apply (h.read date (.rule hrule)).bind
    intro current
    apply (h.shift date hunit _).bind
    intro date
    exact hbelow date

theorem satisfies (date : δ) : OnlyFails P (s.satisfies date rule) := by
  unfold Search.satisfies
  apply (h.read date (.rule hrule)).bind
  intro value
  split
  · exact .of_ok _
  · rename_i name hreq
    apply (h.predicate hrule hreq).bind
    intro p
    exact .of_ok _

omit hrule in
theorem violation (date : δ) : OnlyFails P (s.violation date) := by
  have hrules : ∀ rule ∈ s.rules.toList, OnlyFails P (s.satisfies date rule) :=
    fun rule hrule => h.satisfies hrule date
  unfold Search.violation
  revert hrules
  induction s.rules.toList with
  | nil =>
      intro hrules
      exact .of_ok none
  | cons first rest ih =>
      intro hrules
      obtain ⟨hfirst, hrest⟩ := List.forall_mem_cons.mp hrules
      unfold violationIn
      apply hfirst.bind
      intro satisfied
      split
      · exact ih hrest
      · exact .of_ok _

/-! ## Visits -/

variable {x : δ} {e : Error}

/-- A carry without an excuse has found no scope to move on. -/
theorem carry_eq_error {target : Int}
    (he : (s.carry x rule.unit rule.scope target).result = .error e) (hP : ¬P e) :
    s.freeParent rule.unit rule.scope = .epoch ∧ e = .noMatch rule.unit 1 := by
  unfold Search.carry at he
  by_cases hparent : s.freeParent rule.unit rule.scope = .epoch
  · simp only [hparent, if_true, Logged.result_fail, Except.error.injEq] at he
    exact ⟨hparent, he.symm⟩
  · -- Beyond the free parent there are only shifts, resets and predicates.
    have hle : s.freeParent rule.unit rule.scope ≤ rule.unit :=
      Nat.le_trans freeParent_le (Nat.le_of_lt (TimeUnit.legal_coarser rule.legal))
    simp only [hparent, if_false, Logged.result_tell_bind] at he
    refine absurd (OnlyFails.lift_bind (h.shift x hparent 1) (fun a => ?_) e he) hP
    apply OnlyFails.result_bind (h.parts.filterAll (h.exhausted _) a)
    intro b
    apply OnlyFails.lift_bind (h.parts.resetBetween b _ rule.unit)
    intro c
    exact h.enter hrule c hle target

/-- A visit without an excuse has found a unit past its number and no scope to move on. -/
theorem visit_eq_error (he : (s.visit x rule).result = .error e) (hP : ¬P e) :
    e = .noMatch rule.unit 1 ∧ s.freeParent rule.unit rule.scope = .epoch ∧
      ∃ target v, rule.requirement = .fixed target ∧
        Calendar.read x rule.unit rule.scope = .ok v ∧ target.toInt < v := by
  have hbelow (y : δ) := h.parts.resetBelow y (Nat.le_refl rule.unit.rank)
  unfold Search.visit at he
  cases hreq : rule.requirement with
  | fixed target =>
      simp only [hreq, fix, Logged.result_bind_eq_error_iff, Logged.result_lift] at he
      rcases he with he | ⟨v, hread, he⟩
      · exact absurd (h.read x (.rule hrule) e he) hP
      · split at he
        · cases he
        · split at he
          · -- A raise only shifts and resets.
            simp only [Logged.result_tell_bind] at he
            exact absurd (OnlyFails.lift_bind (h.shift x rule.unit_ne_epoch _) hbelow e he) hP
          · obtain ⟨hparent, he⟩ := h.carry_eq_error hrule he hP
            exact ⟨he, hparent, target, v, rfl, hread, by omega⟩
  | predicate name =>
      simp only [hreq] at he
      refine absurd (OnlyFails.result_bind (h.parts.filter (h.exhausted _) hrule x hreq) ?_ e he) hP
      rintro ⟨y, moved⟩
      cases moved with
      | true => exact hbelow y
      | false => exact .of_ok y

end OwnExcuses

/-! ## Halts -/

/-- A search that fails in the visit of a rule, and the legs that have led there. -/
inductive Halt (s : Search) (e : Error) : δ → List (Leg δ) → δ → Rule → Prop
  | stuck {x y : δ} {legs : List (Leg δ)} {before after : List Rule} {rule : Rule}
      (hrules : s.rules.toList = before ++ rule :: after) (htour : Tour s before x legs y)
      (hvisit : (s.visit y rule).result = .error e) : Halt s e x legs y rule
  | repaired {x y z : δ} {legs more : List (Leg δ)} {unit : TimeUnit} {rule : Rule}
      (htour : Tour s s.rules.toList x legs y) (hviolation : s.violation y = .ok (some unit))
      (hrest : Halt s e y more z rule) : Halt s e x (legs ++ more) z rule

namespace Halt

variable {e : Error} {x y : δ} {legs : List (Leg δ)} {rule : Rule}

theorem chain (h : Halt s e x legs y rule) : Chain s x legs y := by
  induction h with
  | stuck hrules htour hvisit =>
      apply htour.chain
      intro rule hrule
      rw [hrules]
      exact List.mem_append_left _ hrule
  | repaired htour hviolation hrest ih => exact (htour.chain fun _ hrule => hrule).append ih

theorem visit (h : Halt s e x legs y rule) :
    rule ∈ s.rules.toList ∧ (s.visit y rule).result = .error e := by
  induction h with
  | stuck hrules htour hvisit =>
      refine ⟨?_, hvisit⟩
      rw [hrules]
      exact List.mem_append_right _ List.mem_cons_self
  | repaired htour hviolation hrest ih => exact ih

end Halt

theorem foldlM_visit_eq_error {rules : List Rule} {x : δ} {e : Error}
    (h : (rules.foldlM s.visit x).result = .error e) :
    ∃ before rule after legs y, rules = before ++ rule :: after ∧ Tour s before x legs y ∧
      (s.visit y rule).result = .error e := by
  induction rules generalizing x with
  | nil => cases h
  | cons rule rest ih =>
      simp only [List.foldlM_cons, Logged.result_bind_eq_error_iff] at h
      rcases h with h | ⟨y, hvisit, h⟩
      · exact ⟨[], rule, rest, [], x, rfl, .nil x, h⟩
      · obtain ⟨before, stuck, after, legs, z, rfl, htour, hstuck⟩ := ih h
        exact ⟨rule :: before, stuck, after, _, z, rfl, .cons hvisit htour, hstuck⟩

/-- Passes that fail run out of their number, or meet a date that cannot be read, or halt. -/
theorem settle_eq_error {reference : δ} {remaining : Nat} {failing : TimeUnit} {x : δ} {e : Error}
    (h : (s.settle reference remaining failing x).result = .error e) :
    (∃ unit, e = .noMatch unit maxPasses) ∨ (∃ y : δ, s.violation y = .error e) ∨
      ∃ legs y rule, Halt s e x legs y rule := by
  -- The tours of the passes made so far are kept, so the halt starts where the passes did.
  induction remaining generalizing failing x with
  | zero =>
      simp only [settle, Logged.result_fail, Except.error.injEq] at h
      exact Or.inl ⟨failing, h.symm⟩
  | succ remaining ih =>
      simp only [settle, Logged.result_bind_eq_error_iff, Logged.result_lift] at h
      rcases h with h | ⟨y, hpass, h | ⟨violation, hviolation, h⟩⟩
      · obtain ⟨before, rule, after, legs, y, hrules, htour, hvisit⟩ := foldlM_visit_eq_error h
        exact Or.inr (Or.inr ⟨legs, y, rule, .stuck hrules htour hvisit⟩)
      · exact Or.inr (Or.inl ⟨y, h⟩)
      · obtain ⟨legs, htour⟩ := pass_eq_ok.mp hpass
        cases violation with
        | none =>
            simp only [Logged.result_tell_bind, Logged.result_pure] at h
            cases h
        | some unit =>
            simp only [Logged.result_tell_bind] at h
            refine (ih h).imp_right (Or.imp_right ?_)
            rintro ⟨more, z, rule, hrest⟩
            exact ⟨legs ++ more, z, rule, .repaired htour hviolation hrest⟩

/-- A search that fails on a date that can be truncated, with neither an excuse nor too many passes,
halts. -/
theorem exists_halt (hexcuses : Excuses δ s P) {reference x : δ} {e : Error}
    (htruncate : Calendar.truncate reference = .ok x) (h : (s.next reference).result = .error e)
    (hP : ¬P e) (hpasses : ∀ unit, e ≠ .noMatch unit maxPasses) :
    ∃ legs y rule, Halt s e x legs y rule := by
  unfold next at h
  simp only [Logged.result_tell_bind, Logged.result_bind_eq_error_iff, Logged.result_lift,
    htruncate, reduceCtorEq, Except.ok.injEq, exists_eq_left', false_or] at h
  rcases settle_eq_error h with ⟨unit, hunit⟩ | ⟨y, hviolation⟩ | hhalt
  · exact absurd hunit (hpasses unit)
  · exact absurd (hexcuses.own.violation y e hviolation) hP
  · exact hhalt

end Search

end Cadence

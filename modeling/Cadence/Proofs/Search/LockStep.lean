import Cadence.Proofs.Search.InStep

/-!
# Searches in lock step

Two kinds of dates may show the same wall clock times and differ only in how far they reach.  Then
a search on the one kind and a search on the other make the same steps, up to the first shift that
the narrower kind cannot make.

* `Agrees` — two results are related values or the same failure, unless the first one has left the
  supported range.
* `Follows` — what two calendars owe each other: equal wall clocks, the same order, and shifts and
  truncations that agree.
* `Follows.next` — then searches agree, because the dates are in step.
-/

namespace Cadence

/-! ## Results that agree -/

/-- Both results are related values, or both are the same failure.  A first result that has left
the supported range is compared with nothing. -/
inductive Agrees {α β : Type} (R : α → β → Prop) : Except Error α → Except Error β → Prop
  | ok {a : α} {b : β} (h : R a b) : Agrees R (.ok a) (.ok b)
  | error (e : Error) : Agrees R (.error e) (.error e)
  | outOfRange (y : Except Error β) : Agrees R (.error .outOfRange) y

namespace Agrees

variable {α β γ κ : Type} {R : α → β → Prop} {Q : γ → κ → Prop}

theorem bind {x : Except Error α} {y : Except Error β} {f : α → Except Error γ}
    {g : β → Except Error κ} (h : Agrees R x y) (hfg : ∀ a b, R a b → Agrees Q (f a) (g b)) :
    Agrees Q (x >>= f) (y >>= g) := by
  cases h with
  | ok hab => exact hfg _ _ hab
  | error e => exact .error e
  | outOfRange y => exact .outOfRange _

/-- The comparison with results that reach at least as far. -/
def agreement : Agreement where
  Rel := Agrees
  ok := .ok
  error := .error
  bind := bind

theorem result_bind {ι ι' : Type} {x : Logged ι Error α} {y : Logged ι' Error β}
    {f : α → Logged ι Error γ} {g : β → Logged ι' Error κ} (h : Agrees R x.result y.result)
    (hfg : ∀ a b, R a b → Agrees Q (f a).result (g b).result) :
    Agrees Q (x >>= f).result (y >>= g).result :=
  agreement.result_bind h hfg

theorem foldlM {l : List γ} {f : α → γ → Except Error α} {g : β → γ → Except Error β}
    (hstep : ∀ c ∈ l, ∀ a b, R a b → Agrees R (f a c) (g b c)) {a : α} {b : β} (h : R a b) :
    Agrees R (l.foldlM f a) (l.foldlM g b) :=
  agreement.foldlM hstep h

/-- What the second result alone is known to be may be added to the relation. -/
theorem and {P : β → Prop} {x : Except Error α} {y : Except Error β} (h : Agrees R x y)
    (hP : ∀ b, y = .ok b → P b) : Agrees (fun a b => R a b ∧ P b) x y := by
  cases h with
  | ok hab => exact .ok ⟨hab, hP _ rfl⟩
  | error e => exact .error e
  | outOfRange y => exact .outOfRange y

end Agrees

namespace Search

variable {δ ε : Type} [Calendar δ] [Calendar ε] {s : Search} {R : δ → ε → Prop} {a : δ} {b : ε}

/-- Dates of the first kind follow those of the second: related dates show the same time, are
ordered alike, and are moved alike as far as the first kind reaches. -/
structure Follows (R : δ → ε → Prop) : Prop where
  wallClock {a : δ} {b : ε} : R a b → Calendar.wallClock a = Calendar.wallClock b
  lt_iff {a a' : δ} {b b' : ε} : R a b → R a' b' → (a < a' ↔ b < b')
  shift {a : δ} {b : ε} : R a b → ∀ unit k,
    Agrees R (Calendar.shift a unit k) (Calendar.shift b unit k)
  truncate {a : δ} {b : ε} : R a b → Agrees R (Calendar.truncate a) (Calendar.truncate b)

/-! ## Dates that show the same time -/

variable [WallClockCalendar δ] [WallClockCalendar ε]

theorem read_congr (h : Calendar.wallClock a = Calendar.wallClock b) (unit scope : TimeUnit) :
    Calendar.read a unit scope = Calendar.read b unit scope := by
  rw [WallClockCalendar.read_eq, WallClockCalendar.read_eq, h]

theorem satisfies_congr (h : Calendar.wallClock a = Calendar.wallClock b) (rule : Rule) :
    s.satisfies a rule = s.satisfies b rule := by
  unfold satisfies
  rw [read_congr h, h]

theorem violation_congr (h : Calendar.wallClock a = Calendar.wallClock b) :
    s.violation a = s.violation b :=
  violation_eq_of_satisfies fun rule _ => satisfies_congr h rule

/-- Resets agree wherever the shifts that they make agree. -/
theorem reset_agrees (hwall : Calendar.wallClock a = Calendar.wallClock b) (hR : R a b)
    {unit scope : TimeUnit} {value : Int}
    (hshift : ∀ v, Calendar.read b unit scope = .ok v →
      Agrees R (Calendar.shift a unit (s.difference value v))
        (Calendar.shift b unit (s.difference value v))) :
    Agrees R (s.reset a unit scope value) (s.reset b unit scope value) :=
  reset_rel (C := Agrees.agreement) hR (read_congr hwall unit scope) hshift

/-! ## Dates that follow others -/

namespace Follows

variable (h : Follows R)

include h

theorem inStep (s : Search) : s.InStep Agrees.agreement R where
  lt_iff := h.lt_iff
  read hR _ _ := read_congr (h.wallClock hR) _ _
  satisfies hR _ := satisfies_congr (h.wallClock hR) _
  shift := h.shift
  truncate := h.truncate

theorem visit {rule : Rule} (hrule : rule ∈ s.rules.toList) (hR : R a b) :
    Agrees R (s.visit a rule).result (s.visit b rule).result :=
  (h.inStep s).visit hrule hR

/-- Searches from related references agree. -/
theorem next (hR : R a b) : Agrees R (s.next a).result (s.next b).result :=
  (h.inStep s).next hR

end Follows

end Search

end Cadence

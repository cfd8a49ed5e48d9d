/-!
# Computations that keep a record

A computation that may fail and that tells what it does along the way.  What was told before a
failure is kept.  Running a computation for its result alone forgets the record, and this respects
sequencing (`Logged.result_bind`), so statements about results need not mention it.
-/

namespace Cadence

/-- The outcome of a computation together with what it told, in order. -/
structure Logged (ι ε α : Type) where
  entries : List ι
  result : Except ε α

namespace Logged

variable {ι κ ε φ α β : Type}

/-- A computation that succeeds and tells nothing. -/
def ofValue (a : α) : Logged ι ε α := ⟨[], .ok a⟩

/-- Runs a second computation on the value of a first one.  A failure of the first is final. -/
def andThen (x : Logged ι ε α) (f : α → Logged ι ε β) : Logged ι ε β :=
  match x.result with
  | .ok a =>
      let y := f a
      ⟨x.entries ++ y.entries, y.result⟩
  | .error e => ⟨x.entries, .error e⟩

instance : Monad (Logged ι ε) where
  pure := ofValue
  bind := andThen

/-- A computation that fails and tells nothing. -/
def fail (e : ε) : Logged ι ε α := ⟨[], .error e⟩

/-- A computation that tells nothing. -/
def ofExcept (result : Except ε α) : Logged ι ε α := ⟨[], result⟩

instance : MonadLift (Except ε) (Logged ι ε) := ⟨ofExcept⟩

/-- Tells an entry. -/
def tell (entry : ι) : Logged ι ε Unit := ⟨[entry], .ok ()⟩

/-- Tells some entries. -/
def tellAll (entries : List ι) : Logged ι ε Unit := ⟨entries, .ok ()⟩

/-- Puts what is told into other words. -/
def mapEntries (f : ι → κ) (x : Logged ι ε α) : Logged κ ε α := ⟨x.entries.map f, x.result⟩

/-- Puts a failure into other words. -/
def mapError (f : ε → φ) (x : Logged ι ε α) : Logged ι φ α := ⟨x.entries, x.result.mapError f⟩

@[simp] theorem result_pure (a : α) : (pure a : Logged ι ε α).result = .ok a := rfl

@[simp] theorem result_fail (e : ε) : (fail e : Logged ι ε α).result = .error e := rfl

@[simp] theorem result_ofExcept (r : Except ε α) : (ofExcept r : Logged ι ε α).result = r := rfl

@[simp] theorem result_lift (r : Except ε α) : (liftM r : Logged ι ε α).result = r := rfl

@[simp] theorem result_tell (entry : ι) : (tell entry : Logged ι ε Unit).result = .ok () := rfl

@[simp] theorem result_mapError (f : ε → φ) (x : Logged ι ε α) :
    (x.mapError f).result = x.result.mapError f := rfl

/-- The result of a sequence is the sequence of the results. -/
@[simp] theorem result_bind (x : Logged ι ε α) (f : α → Logged ι ε β) :
    (x >>= f).result = x.result.bind fun a => (f a).result := by
  simp only [bind, andThen]
  cases x.result <;> rfl

/-- A successful sequence succeeds in both steps. -/
theorem bind_eq_ok {x : Logged ι ε α} {f : α → Logged ι ε β} {b : β}
    (h : (x >>= f).result = .ok b) : ∃ a, x.result = .ok a ∧ (f a).result = .ok b := by
  rw [result_bind] at h
  cases hx : x.result with
  | ok a => exact ⟨a, rfl, by simpa [hx, Except.bind] using h⟩
  | error e => simp [hx, Except.bind] at h

/-- Telling something first does not change the result. -/
@[simp] theorem result_tell_bind (entry : ι) (f : Unit → Logged ι ε β) :
    (tell entry >>= f).result = (f ()).result := by
  simp [Except.bind]

instance : LawfulMonad (Logged ι ε) :=
  LawfulMonad.mk' _
    (fun x => by
      obtain ⟨entries, result⟩ := x
      cases result <;> simp [Functor.map, andThen, ofValue])
    (fun a f => by simp [bind, andThen, pure, ofValue])
    (fun x f g => by
      obtain ⟨entries, result⟩ := x
      cases result with
      | error e => rfl
      | ok a =>
          simp only [bind, andThen]
          cases (f a).result <;> simp)

end Logged

end Cadence

import Cadence.Proofs.Rules.Membership
import Cadence.Proofs.Search.Cause

/-!
# Frequencies whose predicates are registered

A frequency is closed if its own registry has every predicate that its rules name.  All constructors
make closed frequencies (`Source.isClosed_of_build`), and adding a rule to a closed frequency keeps
it closed although only the new rule is checked (`Frequency.IsClosed.on`).  A search of a closed
frequency never misses a predicate (`Frequency.IsClosed.failsOnly`).
-/

namespace Cadence

theorem forM_eq_ok_iff {ε α : Type} {f : α → Except ε Unit} {l : List α} :
    l.forM f = .ok () ↔ ∀ a ∈ l, f a = .ok () := by
  induction l with
  | nil => simp [pure, Except.pure]
  | cons a l ih =>
      have hcons : (a :: l).forM f = f a >>= fun _ => l.forM f := rfl
      rw [hcons, bind_eq_ok_iff, List.forall_mem_cons, ← ih]
      constructor
      · rintro ⟨⟨⟩, ha, hl⟩
        exact ⟨ha, hl⟩
      · rintro ⟨ha, hl⟩
        exact ⟨(), ha, hl⟩

/-- Some operation of a calendar fails with an error. -/
inductive Calendar.Reports (δ : Type) [Calendar δ] (e : Error) : Prop
  | read {date : δ} {unit scope : TimeUnit} (h : Calendar.read date unit scope = .error e)
  | shift {date : δ} {unit : TimeUnit} {count : Int} (h : Calendar.shift date unit count = .error e)
  | truncate {date : δ} (h : Calendar.truncate date = .error e)

theorem Civil.DateTime.not_reports (name : String) :
    ¬Calendar.Reports DateTime (.unknownPredicate name) := by
  rintro (h | @⟨date, unit, count, h⟩ | h)
  · exact nomatch (DateTime.read_eq_error h).2
  · by_cases hunit : unit = .epoch
    · rw [hunit] at h
      cases h
    · exact nomatch Civil.shift_eq_error hunit h
  · cases h

theorem Zoned.not_reports (name : String) : ¬Calendar.Reports Zoned (.unknownPredicate name) := by
  rintro (h | @⟨date, unit, count, h⟩ | h)
  · exact nomatch (Civil.DateTime.read_eq_error h).2
  · by_cases hunit : unit = .epoch
    · rw [hunit] at h
      cases h
    · exact nomatch Zoned.shift_eq_error hunit h
  · exact nomatch Zoned.truncate_eq_error h

namespace Frequency

/-- Every predicate that a rule names is registered. -/
def IsClosed (f : Frequency) : Prop :=
  ∀ rule ∈ f.rules.toList, ∀ name, rule.requirement = .predicate name →
    f.predicates.contains name = true

theorem checkRule_eq_ok_iff {predicates : Registry} {rule : Rule} :
    checkRule predicates rule = .ok () ↔
      ∀ name, rule.requirement = .predicate name → predicates.contains name = true := by
  unfold checkRule
  cases rule.requirement with
  | fixed value => simp
  | predicate name => simp

theorem isClosed_empty (predicates : Registry) : (empty predicates).IsClosed :=
  fun _ hrule => absurd hrule List.not_mem_nil

theorem ofRules_eq_ok_iff {rules : RuleSet} {predicates : Registry} {f : Frequency} :
    ofRules rules predicates = .ok f ↔ f = ⟨rules, predicates⟩ ∧ f.IsClosed := by
  have hchecked : rules.toList.forM (checkRule predicates) = .ok () ↔
      (⟨rules, predicates⟩ : Frequency).IsClosed := by
    simp only [forM_eq_ok_iff, checkRule_eq_ok_iff, IsClosed]
  unfold ofRules
  simp only [bind_eq_ok_iff, pure, Except.pure, Except.ok.injEq]
  constructor
  · rintro ⟨⟨⟩, hrules, rfl⟩
    exact ⟨rfl, hchecked.mp hrules⟩
  · rintro ⟨rfl, hclosed⟩
    exact ⟨(), hchecked.mpr hclosed, rfl⟩

theorem on_eq_ok_iff {f g : Frequency} {unit : TimeUnit} {requirement : Requirement}
    {scope : Option TimeUnit} :
    f.on unit requirement scope = .ok g ↔
      ∃ rule, Rule.make unit scope requirement = .ok rule ∧
        (∀ name, rule.requirement = .predicate name → f.predicates.contains name = true) ∧
        g = { f with rules := f.rules.insert rule } := by
  unfold Frequency.on
  simp only [bind_eq_ok_iff, pure, Except.pure, Except.ok.injEq]
  constructor
  · rintro ⟨rule, hrule, ⟨⟩, hname, rfl⟩
    exact ⟨rule, hrule, checkRule_eq_ok_iff.mp hname, rfl⟩
  · rintro ⟨rule, hrule, hname, rfl⟩
    exact ⟨rule, hrule, (), checkRule_eq_ok_iff.mpr hname, rfl⟩

theorem predicates_on {f g : Frequency} {unit : TimeUnit} {requirement : Requirement}
    {scope : Option TimeUnit} (h : f.on unit requirement scope = .ok g) :
    g.predicates = f.predicates := by
  obtain ⟨rule, -, -, rfl⟩ := on_eq_ok_iff.mp h
  rfl

/-- A rule that is added is checked, and the others are rules of a closed frequency. -/
theorem IsClosed.on {f g : Frequency} (hf : f.IsClosed) {unit : TimeUnit}
    {requirement : Requirement} {scope : Option TimeUnit}
    (h : f.on unit requirement scope = .ok g) : g.IsClosed := by
  obtain ⟨added, -, hadded, rfl⟩ := on_eq_ok_iff.mp h
  intro rule hrule name hreq
  rcases RuleSet.mem_insert.mp hrule with rfl | ⟨hold, -⟩
  · exact hadded name hreq
  · exact hf rule hold name hreq

/-- Whatever is asked about the matches of a closed frequency, no predicate is unknown unless an
operation of the calendar says so. -/
theorem IsClosed.failsOnly {f : Frequency} (hf : f.IsClosed) (δ : Type) [Calendar δ] :
    f.FailsOnly δ (fun e => ∀ name, e = .unknownPredicate name → Calendar.Reports δ e) := by
  refine f.failsOnly_cause.mono fun e he name => ?_
  cases he with
  | givesUp => simp
  | @unregistered rule missing hrule hreq hname =>
      rw [hf rule hrule missing hreq] at hname
      cases hname
  | read hreads h => exact fun _ => .read h
  | shift hunit h => exact fun _ => .shift h
  | truncate h => exact fun _ => .truncate h

theorem IsClosed.failsOnly_civil {f : Frequency} (hf : f.IsClosed) :
    f.FailsOnly Civil.DateTime (fun e => ∀ name, e ≠ .unknownPredicate name) := by
  refine (hf.failsOnly Civil.DateTime).mono fun e he name => ?_
  rintro rfl
  exact Civil.DateTime.not_reports name (he name rfl)

theorem IsClosed.failsOnly_zoned {f : Frequency} (hf : f.IsClosed) :
    f.FailsOnly Zoned (fun e => ∀ name, e ≠ .unknownPredicate name) := by
  refine (hf.failsOnly Zoned).mono fun e he name => ?_
  rintro rfl
  exact Zoned.not_reports name (he name rfl)

end Frequency

/-! ## Constructors -/

/-- What a frequency is built from, besides a registry. -/
inductive Source
  /-- Nothing: the frequency without rules. -/
  | nothing
  | text (written : String)
  | map (entries : RuleMap)
  /-- Rules in some order.  Of two rules for the same unit and scope the later one counts. -/
  | rules (list : List Rule)

namespace Source

/-- Builds a frequency that holds on to a registry. -/
def build (predicates : Registry) : Source → Except Error Frequency
  | nothing => .ok (.empty predicates)
  | text written => Frequency.parse written predicates
  | map entries => Frequency.ofMap entries predicates
  | rules list => Frequency.ofRules (.ofList list) predicates

/-- Every constructor goes by way of a set of rules that is checked. -/
theorem exists_ofRules_of_build {source : Source} {predicates : Registry} {f : Frequency}
    (h : source.build predicates = .ok f) :
    ∃ rules, Frequency.ofRules rules predicates = .ok f := by
  cases source with
  | nothing =>
      cases h
      exact ⟨.empty, Frequency.ofRules_eq_ok_iff.mpr ⟨rfl, Frequency.isClosed_empty predicates⟩⟩
  | text written =>
      obtain ⟨rules, -, h⟩ := bind_eq_ok_iff.mp h
      exact ⟨rules, h⟩
  | map entries =>
      obtain ⟨rules, -, h⟩ := bind_eq_ok_iff.mp h
      exact ⟨rules, h⟩
  | rules list => exact ⟨.ofList list, h⟩

theorem predicates_of_build {source : Source} {predicates : Registry} {f : Frequency}
    (h : source.build predicates = .ok f) : f.predicates = predicates := by
  obtain ⟨rules, hrules⟩ := exists_ofRules_of_build h
  rw [(Frequency.ofRules_eq_ok_iff.mp hrules).1]

theorem isClosed_of_build {source : Source} {predicates : Registry} {f : Frequency}
    (h : source.build predicates = .ok f) : f.IsClosed := by
  obtain ⟨rules, hrules⟩ := exists_ofRules_of_build h
  exact (Frequency.ofRules_eq_ok_iff.mp hrules).2

end Source

end Cadence

import Mathlib.Data.List.Forall2
import Cadence.Proofs.Frequency.Closed
import Cadence.Proofs.Rules.FiniteMap

/-!
# Routes to a frequency

A frequency can be built one rule after the other, where every rule is made and checked before the
next is looked at, from entries that are all made into rules before any is checked, and from rules
that are there already.  Each route succeeds exactly if all entries are rules and certain predicates
are registered: one after the other those of all entries (`Frequency.onAll_eq_ok_iff`), at once only
those of the rules that are not overridden (`Frequency.ofMap_eq_ok_iff`).  Where they succeed they
give the same frequency.
-/

namespace Cadence

/-- A traversal succeeds if its step does on every element. -/
theorem mapM_eq_ok_iff {ε α β : Type} {f : α → Except ε β} {l : List α} {bs : List β} :
    l.mapM f = .ok bs ↔ List.Forall₂ (fun a b => f a = .ok b) l bs := by
  induction l generalizing bs with
  | nil => simp [pure, Except.pure, eq_comm]
  | cons a l ih =>
      rw [List.mapM_cons, bind_eq_ok_iff, List.forall₂_cons_left_iff]
      simp only [bind_eq_ok_iff, ih, pure, Except.pure, Except.ok.injEq]
      constructor
      · rintro ⟨b, hb, rest, hrest, rfl⟩
        exact ⟨b, rest, hb, hrest, rfl⟩
      · rintro ⟨b, rest, hb, hrest, rfl⟩
        exact ⟨b, hb, rest, hrest, rfl⟩

namespace RuleEntry

/-- An entry asks for a rule: the rule is about its unit, within the scope that its own scope stands
for, and requires the same. -/
structure AsksFor (entry : RuleEntry) (rule : Rule) : Prop where
  unit : rule.unit = entry.unit
  scope : rule.scope = entry.unit.normalizeScope entry.scope
  requirement : rule.requirement = entry.requirement

theorem asksFor_of_mapM {entries : RuleMap} {rules : List Rule}
    (h : entries.mapM toRule = .ok rules) : List.Forall₂ AsksFor entries rules :=
  (mapM_eq_ok_iff.mp h).imp fun _ _ hrule =>
    let ⟨hunit, hscope, hrequirement⟩ := Rule.make_unit hrule
    ⟨hunit, hscope, hrequirement⟩

/-- The entries for a unit and what a scope stands for. -/
def entriesFor (entries : RuleMap) (unit : TimeUnit) (scope : Option TimeUnit) : RuleMap :=
  entries.filter fun entry =>
    entry.unit = unit ∧ unit.normalizeScope entry.scope = unit.normalizeScope scope

/-- What the last entry for a unit and what a scope stands for requires. -/
def lastRequirement (entries : RuleMap) (unit : TimeUnit) (scope : Option TimeUnit) :
    Option Requirement :=
  (entriesFor entries unit scope).getLast?.map (·.requirement)

theorem map_requirement_inserted {entries : RuleMap} {rules : List Rule}
    (h : List.Forall₂ AsksFor entries rules) (unit : TimeUnit) (scope : Option TimeUnit) :
    (RuleSet.inserted rules unit (unit.normalizeScope scope)).map (·.requirement) =
      (entriesFor entries unit scope).map (·.requirement) := by
  induction h with
  | nil => rfl
  | @cons entry rule entries rules hasks _ ih =>
      have hiff : (rule.unit = unit ∧ rule.scope = unit.normalizeScope scope) ↔
          (entry.unit = unit ∧ unit.normalizeScope entry.scope = unit.normalizeScope scope) := by
        rw [hasks.unit, hasks.scope]
        exact and_congr_right fun hunit => by rw [hunit]
      simp only [RuleSet.inserted, entriesFor, List.filter_cons, decide_eq_true_eq, hiff] at ih ⊢
      split_ifs
      · rw [List.map_cons, List.map_cons, hasks.requirement, ih]
      · exact ih

/-- The rule that is inserted last requires what the last entry requires. -/
theorem requirement_lastInserted {entries : RuleMap} {rules : List Rule}
    (h : List.Forall₂ AsksFor entries rules) (unit : TimeUnit) (scope : Option TimeUnit) :
    (RuleSet.lastInserted rules unit (unit.normalizeScope scope)).map (·.requirement) =
      lastRequirement entries unit scope := by
  rw [RuleSet.lastInserted, lastRequirement, ← List.getLast?_map, ← List.getLast?_map,
    map_requirement_inserted h]

end RuleEntry

namespace Frequency

variable {f g : Frequency} {entries : RuleMap} {rules : List Rule} {predicates : Registry}

/-- Adds a rule for every entry, one after the other. -/
def onAll (f : Frequency) (entries : RuleMap) : Except Error Frequency :=
  entries.foldlM (fun g entry => g.on entry.unit entry.requirement entry.scope) f

/-- All predicates that rules name are registered. -/
def Registers (predicates : Registry) (rules : List Rule) : Prop :=
  ∀ rule ∈ rules, ∀ name, rule.requirement = .predicate name → predicates.contains name = true

/-- Adding rules one after the other succeeds if all entries are rules and the predicates of all of
them are registered. -/
theorem onAll_eq_ok_iff :
    f.onAll entries = .ok g ↔
      ∃ rules, entries.mapM RuleEntry.toRule = .ok rules ∧ Registers f.predicates rules ∧
        g = { f with rules := rules.foldl RuleSet.insert f.rules } := by
  induction entries generalizing f with
  | nil =>
      simp only [onAll, List.foldlM_nil, List.mapM_nil, pure, Except.pure, Except.ok.injEq]
      constructor
      · rintro rfl
        exact ⟨[], rfl, by simp [Registers], rfl⟩
      · rintro ⟨rules, rfl, -, rfl⟩
        rfl
  | cons entry entries ih =>
      have hstep : f.onAll (entry :: entries) =
          f.on entry.unit entry.requirement entry.scope >>= fun next => next.onAll entries :=
        List.foldlM_cons
      rw [hstep, List.mapM_cons]
      simp only [bind_eq_ok_iff, on_eq_ok_iff, ih, pure, Except.pure, Except.ok.injEq]
      constructor
      · rintro ⟨next, ⟨rule, hrule, hname, rfl⟩, rest, hrest, hnames, rfl⟩
        exact ⟨rule :: rest, ⟨rule, hrule, rest, hrest, rfl⟩,
          List.forall_mem_cons.mpr ⟨hname, hnames⟩, rfl⟩
      · rintro ⟨-, ⟨rule, hrule, rest, hrest, rfl⟩, hnames, rfl⟩
        obtain ⟨hname, hnames⟩ := List.forall_mem_cons.mp hnames
        exact ⟨_, ⟨rule, hrule, hname, rfl⟩, rest, hrest, hnames, rfl⟩

/-- Entries make a frequency if they are rules and the predicates of those that are not overridden
are registered. -/
theorem ofMap_eq_ok_iff :
    ofMap entries predicates = .ok f ↔
      ∃ rules, entries.mapM RuleEntry.toRule = .ok rules ∧
        ofRules (.ofList rules) predicates = .ok f := by
  have hrules {set : RuleSet} : RuleMap.toRules entries = .ok set ↔
      ∃ rules, entries.mapM RuleEntry.toRule = .ok rules ∧ RuleSet.ofList rules = set := by
    unfold RuleMap.toRules
    cases entries.mapM RuleEntry.toRule <;> simp [Functor.map, Except.map]
  rw [ofMap, bind_eq_ok_iff]
  constructor
  · rintro ⟨set, hset, hf⟩
    obtain ⟨rules, hmap, rfl⟩ := hrules.mp hset
    exact ⟨rules, hmap, hf⟩
  · rintro ⟨rules, hmap, hf⟩
    exact ⟨.ofList rules, hrules.mpr ⟨rules, hmap, rfl⟩, hf⟩

theorem ofRules_of_registers (h : Registers predicates rules) :
    ofRules (.ofList rules) predicates = .ok ⟨.ofList rules, predicates⟩ :=
  ofRules_eq_ok_iff.mpr ⟨rfl, fun rule hrule => h rule (RuleSet.mem_ofList hrule)⟩

/-- What is required is looked up in the map that the rules make. -/
theorem getValue_ofList (hrules : List.Forall₂ RuleEntry.AsksFor entries rules) (unit : TimeUnit)
    (scope : Option TimeUnit) :
    (⟨.ofList rules, predicates⟩ : Frequency).getValue unit scope =
      RuleEntry.lastRequirement entries unit scope := by
  rw [getValue, RuleSet.get?_ofList, RuleEntry.requirement_lastInserted hrules]

theorem registers_iff (hrules : List.Forall₂ RuleEntry.AsksFor entries rules) :
    Registers predicates rules ↔
      ∀ entry ∈ entries, ∀ name, entry.requirement = .predicate name →
        predicates.contains name = true := by
  induction hrules with
  | nil => simp [Registers]
  | cons hasks _ ih =>
      rw [Registers, List.forall_mem_cons, List.forall_mem_cons, ← hasks.requirement, ← ih]
      rfl

/-- A frequency that is built by adding rules one after the other is the one that the entries make,
and the one that the rules make that the entries stand for; it holds on to the same registry, and the
last entry for a unit and a scope says what it requires.  Conversely, rules can be added for entries
that make a frequency if the predicates of all entries are registered. -/
theorem onAll_agrees (predicates : Registry) (entries : RuleMap) :
    (∀ f, (empty predicates).onAll entries = .ok f →
      ofMap entries predicates = .ok f ∧
        (∃ rules, entries.mapM RuleEntry.toRule = .ok rules ∧
          ofRules (.ofList rules) predicates = .ok f) ∧
        f.predicates = predicates ∧
        ∀ unit scope, f.getValue unit scope = RuleEntry.lastRequirement entries unit scope) ∧
      ∀ f, ofMap entries predicates = .ok f →
        (∀ entry ∈ entries, ∀ name, entry.requirement = .predicate name →
          predicates.contains name = true) →
        (empty predicates).onAll entries = .ok f := by
  constructor
  · intro f hf
    obtain ⟨rules, hmap, hnames, rfl⟩ := onAll_eq_ok_iff.mp hf
    have hasks := RuleEntry.asksFor_of_mapM hmap
    have hrules := ofRules_of_registers hnames
    exact ⟨ofMap_eq_ok_iff.mpr ⟨rules, hmap, hrules⟩, ⟨rules, hmap, hrules⟩, rfl,
      getValue_ofList hasks⟩
  · intro f hf hnames
    obtain ⟨rules, hmap, hrules⟩ := ofMap_eq_ok_iff.mp hf
    obtain ⟨rfl, -⟩ := ofRules_eq_ok_iff.mp hrules
    exact onAll_eq_ok_iff.mpr
      ⟨rules, hmap, (registers_iff (RuleEntry.asksFor_of_mapM hmap)).mpr hnames, rfl⟩

/-- Hours are no scope of days, so the second entry overrides the first one. -/
def oddTenthsEntries : RuleMap :=
  [⟨.day, none, .fixed 15⟩, ⟨.day, some .hour, .predicate "odd"⟩, ⟨.hour, none, .fixed 10⟩]

/-- The tenth hour of every odd day of a month. -/
def oddTenths : Frequency :=
  ((empty (Registry.empty.register "odd" .odd)).onAll oddTenthsEntries).toOption.get rfl

/-- The later entry counts, whether the frequency is built rule by rule or at once. -/
theorem onAll_oddTenths :
    ((empty (Registry.empty.register "odd" .odd)).onAll oddTenthsEntries = .ok oddTenths ∧
      ofMap oddTenthsEntries (Registry.empty.register "odd" .odd) = .ok oddTenths ∧
      oddTenths.getValue .day none = some (.predicate "odd")) ∧
      (∀ entry ∈ oddTenthsEntries, ∀ name, entry.requirement = .predicate name →
        (Registry.empty.register "odd" .odd).contains name = true) ∧
      (empty (Registry.empty.register "odd" .odd)).onAll oddTenthsEntries = .ok oddTenths := by
  have hbuilt :
      (empty (Registry.empty.register "odd" .odd)).onAll oddTenthsEntries = .ok oddTenths := rfl
  have hroutes := onAll_agrees (Registry.empty.register "odd" .odd) oddTenthsEntries
  obtain ⟨hmap, -, -, hvalue⟩ := hroutes.1 oddTenths hbuilt
  have hnames : ∀ entry ∈ oddTenthsEntries, ∀ name, entry.requirement = .predicate name →
      (Registry.empty.register "odd" .odd).contains name = true := by
    simp [oddTenthsEntries, Registry.contains, Registry.get?, Registry.register, Registry.empty,
      Registry.insertEntry]
  exact ⟨⟨hbuilt, hmap, hvalue .day none⟩, hnames, hroutes.2 oddTenths hmap hnames⟩

end Frequency

end Cadence

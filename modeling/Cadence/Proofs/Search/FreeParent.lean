import Mathlib.Data.List.Pairwise
import Cadence.Proofs.Search.GivingUp

/-!
# The scope that a carry moves on

A carry moves on the scope that is listed last among those in play for the unit and the coarser
ones, as far as they are no finer than the scope of the rule and have no number required of them.
The list goes from coarse units to fine ones, but the scopes of one unit stand in the order of its
legal scopes, which begins with the usual one and mostly goes from fine to coarse.  So the scope
moved on is the finest one only where the last unit in the list offers the finest scope and none
that is listed behind it (`Search.freeParent_isNearest_iff`).
-/

namespace Cadence

/-- The scopes in play for a unit: those of its rules, or the default one if it has none. -/
inductive RuleSet.InPlay (rules : RuleSet) : TimeUnit → TimeUnit → Prop
  | rule {rule : Rule} (hrule : rule ∈ rules.toList) : InPlay rules rule.unit rule.scope
  | default {unit : TimeUnit} (hunit : unit ≠ .epoch)
      (hnone : ∀ rule ∈ rules.toList, rule.unit ≠ unit) : InPlay rules unit unit.defaultScope

namespace Search

/-- A unit no finer than that of a rule has a scope in play that the rule may move on: it is no
finer than the scope of the rule, and no number is required of it. -/
structure Offers (s : Search) (rule : Rule) (unit scope : TimeUnit) : Prop where
  inPlay : s.rules.InPlay unit scope
  unit_le : unit ≤ rule.unit
  scope_le : scope ≤ rule.scope
  free : ∀ other ∈ s.rules.toList, other.unit = scope → other.requirement.fixed? = none

/-- The finest of all scopes that are offered. -/
structure IsNearest (s : Search) (rule : Rule) (scope : TimeUnit) : Prop where
  exists_offers : ∃ unit, s.Offers rule unit scope
  le (unit other : TimeUnit) (h : s.Offers rule unit other) : other ≤ scope

/-- The finest unit that offers a scope. -/
structure IsLastUnit (s : Search) (rule : Rule) (unit : TimeUnit) : Prop where
  exists_offers : ∃ scope, s.Offers rule unit scope
  le (other scope : TimeUnit) (h : s.Offers rule other scope) : other ≤ unit

/-- The last scope that the finest unit offers, in the order of its legal scopes. -/
def IsLastOffer (s : Search) (rule : Rule) (scope : TimeUnit) : Prop :=
  ∃ unit, s.IsLastUnit rule unit ∧ s.Offers rule unit scope ∧
    ∀ other, s.Offers rule unit other → unit.scopeRank other ≤ unit.scopeRank scope

variable {s : Search} {rule : Rule} {unit scope other : TimeUnit}

/-! ## The list of the scopes in play -/

/-- The scopes in play for a unit, in the order of its legal scopes. -/
def scopesInPlay (s : Search) (unit : TimeUnit) : List TimeUnit :=
  match s.rules.of unit with
  | [] => [unit.defaultScope]
  | rules => rules.map (·.scope)

/-- The scopes that are offered, each with the unit that offers it. -/
def offers (s : Search) (rule : Rule) : List (TimeUnit × TimeUnit) :=
  ((TimeUnit.constrainable.filter (· ≤ rule.unit)).flatMap fun unit =>
    (s.scopesInPlay unit).map fun scope => (unit, scope)).filter fun offer =>
      offer.2 ≤ rule.scope && !s.rules.isFixed offer.2

/-- One offer is listed no later than another one. -/
def NoLater (a b : TimeUnit × TimeUnit) : Prop :=
  a.1 < b.1 ∨ (a.1 = b.1 ∧ b.1.scopeRank a.2 ≤ b.1.scopeRank b.2)

theorem isFixed_eq_false_iff : s.rules.isFixed unit = false ↔
    ∀ other ∈ s.rules.toList, other.unit = unit → other.requirement.fixed? = none := by
  simp [RuleSet.isFixed, RuleSet.mem_of]

theorem mem_scopesInPlay (hunit : unit ≠ .epoch) :
    scope ∈ s.scopesInPlay unit ↔ s.rules.InPlay unit scope := by
  unfold scopesInPlay
  have hmem {rule : Rule} : rule ∈ s.rules.of unit ↔ _ := RuleSet.mem_of
  split
  · rename_i hof
    have hnone : ∀ rule ∈ s.rules.toList, rule.unit ≠ unit := by
      intro rule hrule heq
      rw [hof] at hmem
      exact List.not_mem_nil (hmem.mpr ⟨hrule, heq⟩)
    rw [List.mem_singleton]
    constructor
    · rintro rfl
      exact .default hunit hnone
    · rintro (⟨hrule⟩ | -)
      · exact absurd rfl (hnone _ hrule)
      · rfl
  · rename_i hof
    rw [List.mem_map]
    constructor
    · rintro ⟨rule, hrule, rfl⟩
      obtain ⟨hin, rfl⟩ := hmem.mp hrule
      exact .rule hin
    · rintro (⟨hrule⟩ | ⟨-, hnone⟩)
      · exact ⟨_, hmem.mpr ⟨hrule, rfl⟩, rfl⟩
      · refine absurd (List.eq_nil_iff_forall_not_mem.mpr fun rule hrule => ?_) hof
        exact hnone rule (hmem.mp hrule).1 (hmem.mp hrule).2

theorem sorted_scopesInPlay (s : Search) (unit : TimeUnit) :
    (s.scopesInPlay unit).Pairwise fun a b => unit.scopeRank a < unit.scopeRank b := by
  unfold scopesInPlay
  split
  · exact List.pairwise_singleton _ _
  · have hsorted : (s.rules.of unit).Pairwise fun a b => a.place < b.place :=
      s.rules.sorted.filter _
    refine List.pairwise_map.mpr (hsorted.imp_of_mem ?_)
    intro a b ha hb hlt
    obtain ⟨-, rfl⟩ := RuleSet.mem_of.mp ha
    have hunit := (RuleSet.mem_of.mp hb).2
    rw [Rule.place, Rule.place, hunit] at hlt
    omega

theorem mem_offers : (unit, scope) ∈ s.offers rule ↔ s.Offers rule unit scope := by
  have hunits : unit ∈ TimeUnit.constrainable ↔ unit ≠ .epoch := by
    cases unit <;> decide
  simp only [offers, List.mem_filter, List.mem_flatMap, List.mem_map, Bool.and_eq_true,
    decide_eq_true_eq, Bool.not_eq_true', isFixed_eq_false_iff]
  constructor
  · rintro ⟨⟨u, ⟨hu, hle⟩, c, hc, heq⟩, hscope, hfree⟩
    obtain ⟨rfl, rfl⟩ := Prod.mk.inj heq
    exact ⟨(mem_scopesInPlay (hunits.mp hu)).mp hc, hle, hscope, hfree⟩
  · rintro ⟨hplay, hle, hscope, hfree⟩
    have hunit : unit ≠ .epoch := by
      cases hplay with
      | @rule r hrule => exact r.unit_ne_epoch
      | default hunit hnone => exact hunit
    exact ⟨⟨unit, ⟨hunits.mpr hunit, hle⟩, scope, (mem_scopesInPlay hunit).mpr hplay, rfl⟩,
      hscope, hfree⟩

theorem sorted_offers (s : Search) (rule : Rule) : (s.offers rule).Pairwise NoLater := by
  have hunits : (TimeUnit.constrainable.filter (· ≤ rule.unit)).Pairwise (· < ·) :=
    (show TimeUnit.constrainable.Pairwise (· < ·) by decide).filter _
  refine List.Pairwise.filter _ (List.pairwise_flatMap.mpr ⟨fun unit _ => ?_, ?_⟩)
  · refine List.pairwise_map.mpr ((s.sorted_scopesInPlay unit).imp fun hlt => ?_)
    exact .inr ⟨rfl, Nat.le_of_lt hlt⟩
  · refine hunits.imp fun hlt a ha b hb => ?_
    obtain ⟨-, -, rfl⟩ := List.mem_map.mp ha
    obtain ⟨-, -, rfl⟩ := List.mem_map.mp hb
    exact .inl hlt

/-- Years offer the epoch to every rule. -/
theorem offers_epoch (s : Search) (rule : Rule) : s.Offers rule .year .epoch := by
  refine ⟨?_, ?_, Nat.zero_le _, fun other _ hepoch => absurd hepoch other.unit_ne_epoch⟩
  · by_cases hnone : ∀ r ∈ s.rules.toList, r.unit ≠ .year
    · exact .default (by decide) hnone
    · push Not at hnone
      obtain ⟨r, hr, hunit⟩ := hnone
      have hlegal := r.legal
      rw [hunit] at hlegal
      have hscope : r.scope = .epoch := by simpa [TimeUnit.isLegalScope, TimeUnit.legalScopes] using hlegal
      exact hunit ▸ hscope ▸ .rule hr
  · have hepoch := rule.unit_ne_epoch
    revert hepoch
    cases rule.unit <;> decide

theorem freeParent_eq (s : Search) (rule : Rule) :
    s.freeParent rule.unit rule.scope = ((s.offers rule).map Prod.snd).getLastD .epoch := by
  have hmap : (s.offers rule).map Prod.snd =
      ((TimeUnit.constrainable.filter (· ≤ rule.unit)).flatMap s.scopesInPlay).filter
        fun scope => scope ≤ rule.scope && !s.rules.isFixed scope := by
    simp only [offers, List.filter_flatMap, List.map_flatMap, List.filter_map, List.map_map]
    simp [Function.comp_def]
  rw [hmap]
  rfl

/-! ## The last offer -/

theorem Offers.legal (h : s.Offers rule unit scope) : unit.isLegalScope scope = true := by
  cases h.inPlay with
  | @rule r hrule => exact r.legal
  | default hunit hnone => exact TimeUnit.defaultScope_legal hunit

/-- The free parent is the last offer. -/
theorem isLastOffer_freeParent (s : Search) (rule : Rule) :
    s.IsLastOffer rule (s.freeParent rule.unit rule.scope) := by
  have hne : s.offers rule ≠ [] := List.ne_nil_of_mem (mem_offers.mpr (s.offers_epoch rule))
  have hlast : s.freeParent rule.unit rule.scope = ((s.offers rule).getLast hne).2 := by
    rw [freeParent_eq, List.getLastD_eq_getLast?, List.getLast?_map,
      List.getLast?_eq_some_getLast hne]
    rfl
  have hmem := List.getLast_mem hne
  have hbehind {u c : TimeUnit} (h : s.Offers rule u c) :
      NoLater (u, c) ((s.offers rule).getLast hne) :=
    (s.sorted_offers rule).rel_getLast_of_rel_getLast_getLast (mem_offers.mpr h)
      (.inr ⟨rfl, Nat.le_refl _⟩)
  rw [hlast]
  generalize (s.offers rule).getLast hne = last at hmem hbehind ⊢
  obtain ⟨unit, scope⟩ := last
  refine ⟨unit, ⟨⟨scope, mem_offers.mp hmem⟩, fun other c h => ?_⟩, mem_offers.mp hmem,
    fun other h => ?_⟩
  · rcases hbehind h with hlt | ⟨heq, -⟩
    · exact Nat.le_of_lt hlt
    · exact Nat.le_of_eq (congrArg TimeUnit.rank heq)
  · rcases hbehind h with hlt | ⟨-, hle⟩
    · exact absurd hlt (Nat.lt_irrefl _)
    · exact hle

theorem IsLastUnit.eq {u : TimeUnit} (h : s.IsLastUnit rule unit) (h' : s.IsLastUnit rule u) :
    unit = u := by
  obtain ⟨c, hc⟩ := h.exists_offers
  obtain ⟨c', hc'⟩ := h'.exists_offers
  exact TimeUnit.rank_injective (Nat.le_antisymm (h'.le _ _ hc) (h.le _ _ hc'))

/-- The legal scopes of a unit go from fine to coarse, but the year comes before weeks among those of
days, and before months among those of weeks. -/
def ComesBehindYear (unit scope : TimeUnit) : Prop :=
  (unit = .day ∧ scope = .week) ∨ (unit = .week ∧ scope = .month)

theorem eq_of_scopeRank_le (hscope : unit.isLegalScope scope = true)
    (hother : unit.isLegalScope other = true) (hle : other ≤ scope)
    (hrank : unit.scopeRank other ≤ unit.scopeRank scope) :
    other = scope ∨ (ComesBehindYear unit scope ∧ other ≠ .epoch) := by
  revert hscope hother hle hrank
  unfold ComesBehindYear
  cases unit <;> cases scope <;> cases other <;> decide

theorem eq_of_comesBehindYear (hbehind : ComesBehindYear unit scope)
    (hother : unit.isLegalScope other = true) (hepoch : other ≠ .epoch)
    (hrank : unit.scopeRank scope ≤ unit.scopeRank other) : other = scope := by
  revert hother hepoch hrank
  rcases hbehind with ⟨rfl, rfl⟩ | ⟨rfl, rfl⟩ <;> cases other <;> decide

theorem eq_epoch_of_scopeRank_le (hscope : unit.isLegalScope scope = true)
    (hrank : unit.scopeRank .epoch ≤ unit.scopeRank scope) : scope = .epoch := by
  revert hscope hrank
  cases unit <;> cases scope <;> decide

/-- The free parent of a rule is the last scope offered.  It is the finest one if and only if the
last unit that offers a scope offers the finest and none that is listed behind it.  It is the epoch
if and only if that unit offers the epoch, which it may do although finer scopes are offered. -/
theorem freeParent_isNearest_iff (s : Search) (rule : Rule) :
    s.IsLastOffer rule (s.freeParent rule.unit rule.scope) ∧
    (s.IsNearest rule (s.freeParent rule.unit rule.scope) ↔
      ∃ unit nearest, s.IsLastUnit rule unit ∧ s.IsNearest rule nearest ∧
        s.Offers rule unit nearest ∧ ∀ other, s.Offers rule unit other →
          other = nearest ∨ (ComesBehindYear unit nearest ∧ other ≠ .epoch)) ∧
    (s.freeParent rule.unit rule.scope = .epoch ↔
      ∃ unit, s.IsLastUnit rule unit ∧ s.Offers rule unit .epoch) ∧
    (s.IsNearest rule .epoch → s.freeParent rule.unit rule.scope = .epoch) := by
  have hparent := s.isLastOffer_freeParent rule
  refine ⟨hparent, ?_⟩
  obtain ⟨unit, hunit, hoffers, hlast⟩ := hparent
  generalize s.freeParent rule.unit rule.scope = parent at hoffers hlast ⊢
  refine ⟨⟨fun hnearest => ?_, ?_⟩, ⟨?_, ?_⟩, fun hnearest => ?_⟩
  · refine ⟨unit, parent, hunit, hnearest, hoffers, fun other hother => ?_⟩
    exact eq_of_scopeRank_le hoffers.legal hother.legal (hnearest.le _ _ hother) (hlast other hother)
  · rintro ⟨u, nearest, hu, hnearest, hfinest, honly⟩
    obtain rfl := hu.eq hunit
    have hparent : parent = nearest := by
      rcases honly parent hoffers with heq | ⟨hbehind, hepoch⟩
      · exact heq
      · exact eq_of_comesBehindYear hbehind hoffers.legal hepoch (hlast _ hfinest)
    exact hparent ▸ hnearest
  · rintro rfl
    exact ⟨unit, hunit, hoffers⟩
  · rintro ⟨u, hu, hepoch⟩
    obtain rfl := hu.eq hunit
    exact eq_epoch_of_scopeRank_le hoffers.legal (hlast _ hepoch)
  · have hle := hnearest.le _ _ hoffers
    exact TimeUnit.rank_injective (Nat.le_zero.mp hle)

/-- The fifth day of the month. -/
def fifthDay : Rule := (Rule.make .day none (.fixed 5)).toOption.get rfl

/-- The days have a rule within the epoch as well, which is listed last.  So the epoch is taken for
the scope to move on, although the month is offered. -/
theorem freeParent_fifthDay_isNotNearest :
    fifthDay ∈ Frequency.oneFifth.search.rules.toList ∧
      Frequency.oneFifth.search.IsNearest fifthDay .month ∧
      Frequency.oneFifth.search.freeParent fifthDay.unit fifthDay.scope = .epoch ∧
      ¬Frequency.oneFifth.search.IsNearest fifthDay
        (Frequency.oneFifth.search.freeParent fifthDay.unit fifthDay.scope) ∧
      ¬(Frequency.oneFifth.search.freeParent fifthDay.unit fifthDay.scope = .epoch ↔
        ∀ unit scope, Frequency.oneFifth.search.Offers fifthDay unit scope → scope = .epoch) := by
  have hrule : fifthDay ∈ Frequency.oneFifth.search.rules.toList := by decide
  have hmonth : Frequency.oneFifth.search.Offers fifthDay .day .month :=
    ⟨.rule hrule, by decide, by decide, by decide⟩
  have hparent : Frequency.oneFifth.search.freeParent fifthDay.unit fifthDay.scope = .epoch := by
    decide
  refine ⟨hrule, ⟨⟨_, hmonth⟩, fun _ _ h => h.scope_le⟩, hparent, ?_, ?_⟩
  · rw [hparent]
    intro hnearest
    exact absurd (hnearest.le _ _ hmonth) (by decide)
  · rw [hparent]
    intro honly
    exact absurd (honly.mp rfl _ _ hmonth) (by decide)

end Search

end Cadence

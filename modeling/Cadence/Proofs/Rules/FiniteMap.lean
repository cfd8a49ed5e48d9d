import Mathlib.Data.List.Dedup
import Cadence.Proofs.Rules.Membership

/-!
# Rule sets as finite maps

A rule set that is made by insertions shows, for every unit and scope, the rule that was inserted
last for them, and nothing else (`RuleSet.get?_ofList`).  Everything else that it shows follows from
that map: the rules of a unit, the units, the number of rules, and what an insertion displaces.

An insertion is a cut of the list at a place, and the rules of a unit are what stands between two
cuts.  Neither depends on how a cut is found: any one that parts what comes before from what does not
gives the same list (`RuleSet.exchange_of_found`, `RuleSet.exchange_of_missing`,
`RuleSet.of_eq_of_cut`), and there always is one (`RuleSet.exists_cut`), because the list is in
order.
-/

namespace Cadence

namespace Rule

/-- What a rule set holds at most one rule for. -/
def key (rule : Rule) : TimeUnit × TimeUnit := (rule.unit, rule.scope)

/-- Canonical order: coarser units first, and the rules of one unit in the order of its scopes. -/
def Precedes (a b : Rule) : Prop :=
  a.unit < b.unit ∨
    (a.unit = b.unit ∧ a.unit.scopeRank a.scope < b.unit.scopeRank b.scope)

/-- Places count the rules in canonical order. -/
theorem place_lt_iff {a b : Rule} : a.place < b.place ↔ a.Precedes b := by
  have ha := a.place_bounds
  have hb := b.place_bounds
  have hap : a.place = a.unit.rank * 8 + a.unit.scopeRank a.scope := rfl
  have hbp : b.place = b.unit.rank * 8 + b.unit.scopeRank b.scope := rfl
  constructor
  · intro hlt
    rcases Nat.lt_or_ge a.unit.rank b.unit.rank with hrank | hrank
    · exact .inl hrank
    · have hunit : a.unit.rank = b.unit.rank := by omega
      exact .inr ⟨TimeUnit.rank_injective hunit, by omega⟩
  · rintro (hunit | ⟨hunit, hscope⟩)
    · have hrank : a.unit.rank < b.unit.rank := hunit
      omega
    · rw [hunit] at hap hscope
      omega

end Rule

namespace RuleSet

variable {rules : RuleSet} {rule old : Rule} {front back list : List Rule} {unit scope : TimeUnit}

/-! ## Cuts -/

theorem insertList_of_found (hfront : ∀ a ∈ front, a.place < rule.place)
    (hold : old.place = rule.place) :
    insertList rule (front ++ old :: back) = (some old, front ++ rule :: back) := by
  induction front with
  | nil => simp [insertList, hold]
  | cons first front ih =>
      obtain ⟨hfirst, hrest⟩ := List.forall_mem_cons.mp hfront
      have hnot : ¬rule.place < first.place := by omega
      simp only [List.cons_append, insertList, hnot, hfirst, if_true, if_false, ih hrest]

theorem insertList_of_missing (hfront : ∀ a ∈ front, a.place < rule.place)
    (hback : ∀ a ∈ back, rule.place < a.place) :
    insertList rule (front ++ back) = (none, front ++ rule :: back) := by
  induction front with
  | nil =>
      cases back with
      | nil => rfl
      | cons first back => simp [insertList, hback first List.mem_cons_self]
  | cons first front ih =>
      obtain ⟨hfirst, hrest⟩ := List.forall_mem_cons.mp hfront
      have hnot : ¬rule.place < first.place := by omega
      simp only [List.cons_append, insertList, hnot, hfirst, if_true, if_false, ih hrest]

/-- A rule with the place of the new one is displaced where it stands. -/
theorem exchange_of_found (h : rules.toList = front ++ old :: back)
    (hold : old.place = rule.place) :
    (rules.exchange rule).1 = some old ∧ (rules.insert rule).toList = front ++ rule :: back := by
  have hsorted := rules.sorted
  rw [h] at hsorted
  have hfront : ∀ a ∈ front, a.place < rule.place := fun a ha => by
    have := (List.pairwise_append.mp hsorted).2.2 a ha old List.mem_cons_self
    omega
  have hinsert : insertList rule (front ++ old :: back) = (some old, front ++ rule :: back) :=
    insertList_of_found hfront hold
  rw [← h] at hinsert
  exact ⟨congrArg Prod.fst hinsert, congrArg Prod.snd hinsert⟩

/-- A new rule goes to where the places before its own end. -/
theorem exchange_of_missing (h : rules.toList = front ++ back)
    (hfront : ∀ a ∈ front, a.place < rule.place) (hback : ∀ a ∈ back, rule.place < a.place) :
    (rules.exchange rule).1 = none ∧ (rules.insert rule).toList = front ++ rule :: back := by
  have hinsert := insertList_of_missing hfront hback
  rw [← h] at hinsert
  exact ⟨congrArg Prod.fst hinsert, congrArg Prod.snd hinsert⟩

/-- The places before a number come first. -/
theorem exists_cut (rules : RuleSet) (n : Nat) :
    ∃ front back, rules.toList = front ++ back ∧ (∀ a ∈ front, a.place < n) ∧
      ∀ a ∈ back, n ≤ a.place := by
  have hsorted := rules.sorted
  generalize rules.toList = list at hsorted
  induction list with
  | nil => exact ⟨[], [], rfl, by simp, by simp⟩
  | cons first rest ih =>
      obtain ⟨hfirst, hrest⟩ := List.pairwise_cons.mp hsorted
      by_cases hlt : first.place < n
      · obtain ⟨front, back, rfl, hfront, hback⟩ := ih hrest
        exact ⟨first :: front, back, rfl, List.forall_mem_cons.mpr ⟨hlt, hfront⟩, hback⟩
      · refine ⟨[], first :: rest, rfl, by simp, List.forall_mem_cons.mpr ⟨by omega, ?_⟩⟩
        intro a ha
        have := hfirst a ha
        omega

/-- What stands between the rules of coarser units and those of finer ones are the rules of a
unit. -/
theorem of_eq_of_cut {coarser same finer : List Rule}
    (h : rules.toList = coarser ++ same ++ finer) (hcoarser : ∀ a ∈ coarser, a.unit < unit)
    (hsame : ∀ a ∈ same, a.unit = unit) (hfiner : ∀ a ∈ finer, unit < a.unit) :
    rules.of unit = same := by
  have hne {a b : TimeUnit} (h : a < b) : a ≠ b := fun hab =>
    absurd (hab ▸ h : a < a) (Nat.lt_irrefl _)
  have hnone {part : List Rule} (hpart : ∀ a ∈ part, a.unit ≠ unit) :
      part.filter (·.unit = unit) = [] :=
    List.filter_eq_nil_iff.mpr fun a ha => by simpa using hpart a ha
  have hall : same.filter (·.unit = unit) = same :=
    List.filter_eq_self.mpr fun a ha => by simpa using hsame a ha
  rw [of, h, List.filter_append, List.filter_append, hnone fun a ha => hne (hcoarser a ha), hall,
    hnone fun a ha => (hne (hfiner a ha)).symm, List.nil_append, List.append_nil]

/-- The rules of a unit stand together, behind those of coarser units and before those of finer
ones. -/
theorem toList_eq_append_of (rules : RuleSet) (unit : TimeUnit) :
    ∃ coarser finer, rules.toList = coarser ++ rules.of unit ++ finer ∧
      (∀ a ∈ coarser, a.unit < unit) ∧ ∀ a ∈ finer, unit < a.unit := by
  obtain ⟨coarser, rest, hcut, hcoarser, hrest⟩ := rules.exists_cut (unit.rank * 8)
  have hsorted := rules.sorted
  rw [hcut] at hsorted
  obtain ⟨same, finer, hsame, hle, hfiner⟩ :=
    exists_cut ⟨rest, (List.pairwise_append.mp hsorted).2.1⟩ (unit.rank * 8 + 8)
  change rest = same ++ finer at hsame
  subst hsame
  rw [← List.append_assoc] at hcut
  have hlt : ∀ a ∈ coarser, a.unit < unit := fun a ha => by
    have := hcoarser a ha
    have := a.place_bounds
    exact TimeUnit.lt_def.mpr (by omega)
  have heq : ∀ a ∈ same, a.unit = unit := fun a ha => by
    have := hle a ha
    have := hrest a (List.mem_append_left _ ha)
    have := a.place_bounds
    exact TimeUnit.rank_injective (by omega)
  have hgt : ∀ a ∈ finer, unit < a.unit := fun a ha => by
    have := hfiner a ha
    have := a.place_bounds
    exact TimeUnit.lt_def.mpr (by omega)
  exact ⟨coarser, finer, of_eq_of_cut hcut hlt heq hgt ▸ hcut, hlt, hgt⟩

/-! ## One insertion -/

/-- A rule set has the rules that are found for their own units and scopes. -/
theorem get?_self_iff : rules.get? rule.unit rule.scope = some rule ↔ rule ∈ rules.toList := by
  rw [get?_eq_some_iff]
  exact and_iff_left ⟨rfl, rfl⟩

/-- After an insertion the new rule is found for its unit and scope, and every other rule as
before. -/
theorem get?_insert :
    (rules.insert rule).get? unit scope =
      if rule.unit = unit ∧ rule.scope = scope then some rule else rules.get? unit scope := by
  split_ifs with hkey
  · exact get?_eq_some_iff.mpr ⟨mem_insert.mpr (.inl rfl), hkey⟩
  · refine Option.ext fun a => ?_
    rw [get?_eq_some_iff, get?_eq_some_iff, mem_insert]
    constructor
    · rintro ⟨rfl | ⟨ha, -⟩, haunit⟩
      · exact absurd haunit hkey
      · exact ⟨ha, haunit⟩
    · rintro ⟨ha, haunit, hascope⟩
      refine ⟨.inr ⟨ha, fun hplace => hkey ?_⟩, haunit, hascope⟩
      obtain ⟨hunit, hscope⟩ := Rule.place_eq_iff.mp hplace
      exact ⟨hunit.symm.trans haunit, hscope.symm.trans hascope⟩

/-- An insertion gives back the rule that was found for the unit and the scope of the new one. -/
theorem exchange_fst : (rules.exchange rule).1 = rules.get? rule.unit rule.scope := by
  cases hget : rules.get? rule.unit rule.scope with
  | some old =>
      obtain ⟨hmem, hkey⟩ := get?_eq_some_iff.mp hget
      obtain ⟨front, back, hcut⟩ := List.append_of_mem hmem
      exact (exchange_of_found hcut (Rule.place_eq_iff.mpr hkey)).1
  | none =>
      obtain ⟨front, back, hcut, hfront, hback⟩ := rules.exists_cut rule.place
      refine (exchange_of_missing hcut hfront fun a ha => ?_).1
      have hmem : a ∈ rules.toList := hcut ▸ List.mem_append_right _ ha
      have hne : a.place ≠ rule.place := fun hplace =>
        get?_eq_none_iff.mp hget a hmem (Rule.place_eq_iff.mp hplace)
      have := hback a ha
      omega

/-! ## A run of insertions -/

/-- The rules of a list for a unit and a scope, in the order of the list. -/
def inserted (list : List Rule) (unit scope : TimeUnit) : List Rule :=
  list.filter fun rule => rule.unit = unit ∧ rule.scope = scope

/-- The last rule of a list for a unit and a scope. -/
def lastInserted (list : List Rule) (unit scope : TimeUnit) : Option Rule :=
  (inserted list unit scope).getLast?

theorem mem_inserted :
    rule ∈ inserted list unit scope ↔ rule ∈ list ∧ rule.unit = unit ∧ rule.scope = scope := by
  simp [inserted]

theorem lastInserted_append_singleton :
    lastInserted (list ++ [rule]) unit scope =
      if rule.unit = unit ∧ rule.scope = scope then some rule
      else lastInserted list unit scope := by
  simp only [lastInserted, inserted, List.filter_append, List.filter_cons, List.filter_nil,
    decide_eq_true_eq]
  split_ifs with hkey
  · exact List.getLast?_concat
  · rw [List.append_nil]

/-- A rule set that is made by insertions shows the last rule for every unit and scope. -/
theorem get?_ofList (list : List Rule) (unit scope : TimeUnit) :
    (ofList list).get? unit scope = lastInserted list unit scope := by
  induction list using List.reverseRecOn with
  | nil => rfl
  | append_singleton list rule ih =>
      rw [ofList_append_singleton, get?_insert, ih, lastInserted_append_singleton]

theorem mem_ofList (h : rule ∈ (ofList list).toList) : rule ∈ list := by
  have hget := get?_self_iff.mpr h
  rw [get?_ofList, lastInserted] at hget
  exact (mem_inserted.mp (List.mem_of_getLast? hget)).1

/-- For the unit and the scope of a rule that was inserted some rule is there. -/
theorem exists_mem_ofList (h : rule ∈ list) :
    ∃ last ∈ (ofList list).toList, last.unit = rule.unit ∧ last.scope = rule.scope := by
  have hne : inserted list rule.unit rule.scope ≠ [] :=
    List.ne_nil_of_mem (mem_inserted.mpr ⟨h, rfl, rfl⟩)
  obtain ⟨last, hlast⟩ := Option.isSome_iff_exists.mp (List.getLast?_isSome.mpr hne)
  have hget : (ofList list).get? rule.unit rule.scope = some last := by
    rw [get?_ofList, lastInserted, hlast]
  exact ⟨last, get?_eq_some_iff.mp hget⟩

/-! ## What a map determines -/

theorem eq_of_get?_eq {r s : RuleSet} (h : ∀ unit scope, r.get? unit scope = s.get? unit scope) :
    r = s := by
  refine eq_of_mem_iff fun rule => ?_
  rw [← get?_self_iff, ← get?_self_iff, h]

theorem pairwise_legalScopes (unit : TimeUnit) :
    unit.legalScopes.Pairwise fun s t => unit.scopeRank s < unit.scopeRank t := by
  cases unit <;> decide

/-- The rules of a unit are those found for its scopes, in the order of the scopes. -/
theorem of_eq_filterMap (rules : RuleSet) (unit : TimeUnit) :
    rules.of unit = unit.legalScopes.filterMap (rules.get? unit) := by
  have : Std.Antisymm fun a b : Rule => a.place < b.place := ⟨fun _ _ h₁ h₂ => by omega⟩
  have : Std.Irrefl fun a b : Rule => a.place < b.place := ⟨fun _ h => by omega⟩
  have hof : (rules.of unit).Pairwise fun a b => a.place < b.place := rules.sorted.filter _
  have hfound : (unit.legalScopes.filterMap (rules.get? unit)).Pairwise
      fun a b => a.place < b.place := by
    refine List.pairwise_filterMap.mpr ((pairwise_legalScopes unit).imp ?_)
    intro s t hst a ha b hb
    obtain ⟨-, haunit, hascope⟩ := get?_eq_some_iff.mp ha
    obtain ⟨-, hbunit, hbscope⟩ := get?_eq_some_iff.mp hb
    exact Rule.place_lt_iff.mpr
      (.inr ⟨haunit.trans hbunit.symm, by rw [haunit, hbunit, hascope, hbscope]; exact hst⟩)
  refine hof.eq_of_mem_iff hfound fun rule => ?_
  rw [mem_of, List.mem_filterMap]
  constructor
  · rintro ⟨hrule, rfl⟩
    exact ⟨rule.scope, List.contains_iff_mem.mp rule.legal, get?_eq_some_iff.mpr ⟨hrule, rfl, rfl⟩⟩
  · rintro ⟨scope, -, hget⟩
    obtain ⟨hrule, hunit, -⟩ := get?_eq_some_iff.mp hget
    exact ⟨hrule, hunit⟩

theorem of_ofList_eq_nil_iff :
    (ofList list).of unit = [] ↔ ∀ rule ∈ list, rule.unit ≠ unit := by
  constructor
  · intro h rule hrule hunit
    obtain ⟨last, hlast, hlastUnit, -⟩ := exists_mem_ofList hrule
    exact List.not_mem_nil (h ▸ mem_of.mpr ⟨hlast, hlastUnit.trans hunit⟩)
  · intro h
    refine List.eq_nil_iff_forall_not_mem.mpr fun rule hrule => ?_
    obtain ⟨hmem, hunit⟩ := mem_of.mp hrule
    exact h rule (mem_ofList hmem) hunit

theorem units_ofList (list : List Rule) :
    (ofList list).units =
      TimeUnit.constrainable.filter fun unit => list.any fun rule => rule.unit = unit := by
  refine List.filter_congr fun unit _ => ?_
  rw [Bool.eq_iff_iff, Bool.not_eq_true', ← Bool.not_eq_true, List.isEmpty_iff,
    of_ofList_eq_nil_iff]
  simp

/-- The keys of a rule set are those of the rules that were inserted, each of them once. -/
theorem perm_keys_ofList (list : List Rule) :
    ((ofList list).toList.map Rule.key).Perm (list.map Rule.key).dedup := by
  have hnodup : ((ofList list).toList.map Rule.key).Nodup := by
    refine List.pairwise_map.mpr ((ofList list).sorted.imp fun {a b} hlt hkey => ?_)
    have hplace := Rule.place_eq_iff.mpr (Prod.mk.injEq .. ▸ hkey)
    omega
  refine (List.perm_ext_iff_of_nodup hnodup (List.nodup_dedup _)).mpr fun key => ?_
  rw [List.mem_dedup, List.mem_map, List.mem_map]
  constructor
  · rintro ⟨rule, hrule, rfl⟩
    exact ⟨rule, mem_ofList hrule, rfl⟩
  · rintro ⟨rule, hrule, rfl⟩
    obtain ⟨last, hlast, hunit, hscope⟩ := exists_mem_ofList hrule
    exact ⟨last, hlast, Prod.ext hunit hscope⟩

theorem size_ofList (list : List Rule) :
    (ofList list).size = (list.map Rule.key).dedup.length := by
  rw [size, ← (perm_keys_ofList list).length_eq, List.length_map]

theorem ofList_eq_iff {other : List Rule} :
    ofList list = ofList other ↔
      ∀ unit scope, lastInserted list unit scope = lastInserted other unit scope := by
  constructor
  · intro h unit scope
    rw [← get?_ofList, ← get?_ofList, h]
  · intro h
    refine eq_of_get?_eq fun unit scope => ?_
    rw [get?_ofList, get?_ofList, h]

/-- A rule set that is made by insertions is the map from units and scopes to the rules that were
inserted last for them: lookups, what an insertion gives back, the number of rules, the rules of a
unit and the units are those of the map, and nothing but the map matters. -/
theorem ofList_isMap (list : List Rule) :
    (ofList list).toList.Pairwise Rule.Precedes ∧
      (∀ unit scope, (ofList list).get? unit scope = lastInserted list unit scope) ∧
      (∀ rule, ((ofList list).exchange rule).1 = lastInserted list rule.unit rule.scope) ∧
      (ofList list).size = (list.map Rule.key).dedup.length ∧
      (∀ unit, (ofList list).of unit = unit.legalScopes.filterMap (lastInserted list unit) ∧
        ∃ coarser finer, (ofList list).toList = coarser ++ (ofList list).of unit ++ finer ∧
          (∀ a ∈ coarser, a.unit < unit) ∧ ∀ a ∈ finer, unit < a.unit) ∧
      (ofList list).units =
        TimeUnit.constrainable.filter (fun unit => list.any fun rule => rule.unit = unit) ∧
      ∀ other,
        (ofList list = ofList other ↔
          ∀ unit scope, lastInserted list unit scope = lastInserted other unit scope) ∧
        ((∀ unit scope, inserted list unit scope = inserted other unit scope) →
          ofList list = ofList other) := by
  have hget : (ofList list).get? = lastInserted list :=
    funext fun unit => funext fun scope => get?_ofList list unit scope
  refine ⟨(ofList list).sorted.imp Rule.place_lt_iff.mp, fun unit scope => by rw [hget],
    fun rule => by rw [exchange_fst, hget], size_ofList list, fun unit => ⟨?_, ?_⟩,
    units_ofList list, fun other => ⟨ofList_eq_iff, fun h => ?_⟩⟩
  · rw [of_eq_filterMap, hget]
  · exact (ofList list).toList_eq_append_of unit
  · exact ofList_eq_iff.mpr fun unit scope => by rw [lastInserted, lastInserted, h]

/-- The third day of the week. -/
def thirdDay : Rule := (Rule.make .day (some .week) (.fixed 3)).toOption.get rfl

/-- The tenth hour of the day, which is what a scope that hours have not got stands for. -/
def tenthHour : Rule := (Rule.make .hour (some .minute) (.fixed 10)).toOption.get rfl

/-- The odd days of the week. -/
def oddDays : Rule := (Rule.make .day (some .week) (.predicate "odd")).toOption.get rfl

/-- It does not matter when the rule on hours is inserted, but of the two rules on days of the week
the later one displaces the other. -/
theorem ofList_oddDays :
    (∀ unit scope, inserted [thirdDay, tenthHour, oddDays] unit scope =
        inserted [tenthHour, thirdDay, oddDays] unit scope) ∧
      ofList [thirdDay, tenthHour, oddDays] = ofList [tenthHour, thirdDay, oddDays] ∧
      ((ofList [thirdDay, tenthHour]).exchange oddDays).1 = some thirdDay := by
  have hinserted : ∀ unit scope, inserted [thirdDay, tenthHour, oddDays] unit scope =
      inserted [tenthHour, thirdDay, oddDays] unit scope := by
    intro unit scope
    cases unit <;> cases scope <;> rfl
  exact ⟨hinserted,
    ((ofList_isMap [thirdDay, tenthHour, oddDays]).2.2.2.2.2.2 _).2 hinserted,
    (ofList_isMap [thirdDay, tenthHour]).2.2.1 oddDays⟩

end RuleSet

end Cadence

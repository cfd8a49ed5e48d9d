import Mathlib.Data.List.Nodup
import Cadence.Frequency.Description
import Cadence.Proofs.Frequency.Members
import Cadence.Proofs.Json.Writing

/-!
# Descriptions that are read back

The description of a frequency loses nothing: its rules, read back as entries from the text in which
they are written, make the frequency again, and so do the same rules as an object from units to
objects from scopes to requirements (`Frequency.description_lossless`).  Every rule names its scope
and has its own unit and scope, so no entry is about another scope than the rule it comes from, and
none overrides another.
-/

namespace Cadence

open Json

theorem TimeUnit.ofName?_name (unit : TimeUnit) : ofName? unit.name = some unit := by
  cases unit <;> decide +kernel

/-! ## Values -/

namespace Json.Value

/-- The value of the first member of an object with a name. -/
def member? (name : String) : Value → Option Value
  | object members => members.lookup name
  | _ => none

/-- The characters of a string. -/
def text? : Value → Option String
  | string s => some s
  | _ => none

/-- The unit that a member of an object names. -/
def unit? (name : String) (value : Value) : Option TimeUnit :=
  ((value.member? name).bind text?).bind TimeUnit.ofName?

end Json.Value

/-- A requirement as a value. -/
def Requirement.value : Requirement → Value
  | fixed n => .number (.integer n.toInt)
  | predicate name => .string name

/-- A rule as a value. -/
def Rule.value (rule : Rule) : Value :=
  .object [("scope", .string rule.scope.name), ("unit", .string rule.unit.name),
    ("value", rule.requirement.value)]

/-- A description as a value. -/
def Frequency.Description.value (d : Description) : Value :=
  .object [("frequency", .string d.frequency), ("rules", .array (d.rules.map Rule.value))]

namespace RuleEntry

/-- The entry that a described rule stands for. -/
def ofValue? (value : Value) : Option RuleEntry := do
  let unit ← value.unit? "unit"
  let scope ← value.unit? "scope"
  let requirement ← (value.member? "value").bind Value.requirement?
  pure ⟨unit, some scope, requirement⟩

/-- The entries that the rules of a description stand for. -/
def ofDescription? (value : Value) : Option RuleMap :=
  match value.member? "rules" with
  | some (.array rules) => rules.mapM ofValue?
  | _ => none

/-- The entry that names the scope of a rule. -/
def ofRule (rule : Rule) : RuleEntry := ⟨rule.unit, some rule.scope, rule.requirement⟩

end RuleEntry

/-! ## Reading values back -/

theorem Requirement.isRequirement_value (requirement : Requirement) :
    requirement.value.IsRequirement := by
  cases requirement with
  | fixed n => exact .integer ⟨n.le_toInt, n.toInt_le⟩
  | predicate name => exact .name name

theorem Requirement.requirement?_value (requirement : Requirement) :
    requirement.value.requirement? = some requirement := by
  cases requirement with
  | fixed n =>
      have hle : n.toInt ≤ 9223372036854775807 := n.toInt_le
      rw [value, Value.requirement?, if_pos hle, Int64.ofInt_toInt]
  | predicate name => rfl

namespace RuleEntry

theorem ofValue?_value (rule : Rule) : ofValue? rule.value = some (ofRule rule) := by
  have hunit : rule.value.unit? "unit" = some rule.unit := TimeUnit.ofName?_name rule.unit
  have hscope : rule.value.unit? "scope" = some rule.scope := TimeUnit.ofName?_name rule.scope
  have hvalue : rule.value.member? "value" = some rule.requirement.value := rfl
  rw [ofValue?, hunit, hscope, hvalue]
  simp only [Option.bind_eq_bind, Option.bind_some, rule.requirement.requirement?_value]
  rfl

theorem ofDescription?_value (d : Frequency.Description) :
    ofDescription? d.value = some (d.rules.map ofRule) := by
  have hrules : d.value.member? "rules" = some (.array (d.rules.map Rule.value)) := rfl
  rw [ofDescription?, hrules]
  show (d.rules.map Rule.value).mapM ofValue? = _
  induction d.rules with
  | nil => rfl
  | cons rule rules ih =>
      rw [List.map_cons, List.mapM_cons, ofValue?_value, ih]
      rfl

end RuleEntry

/-! ## Written values -/

theorem Requirement.writes_text (requirement : Requirement) :
    Writes (Frequency.requirementText requirement).toList requirement.value.tokens := by
  cases requirement with
  | fixed n => exact writes_intText n.le_toInt n.toInt_le
  | predicate name => exact writes_stringText name

theorem Rule.writes_text (rule : Rule) :
    Writes (Frequency.ruleText rule).toList rule.value.tokens :=
  writes_objectText
    (.cons ⟨rfl, writes_stringText _⟩ (.cons ⟨rfl, writes_stringText _⟩
      (.cons ⟨rfl, rule.requirement.writes_text⟩ .nil)))

theorem Frequency.Description.writes_text (d : Description) :
    Writes d.text.toList d.value.tokens := by
  have hrules : List.Forall₂ (fun text rule => Writes text.toList rule.tokens)
      (d.rules.map ruleText) (d.rules.map Rule.value) := by
    rw [List.forall₂_map_left_iff, List.forall₂_map_right_iff]
    exact List.forall₂_same.mpr fun rule _ => rule.writes_text
  exact writes_objectText
    (.cons ⟨rfl, writes_stringText _⟩ (.cons ⟨rfl, writes_arrayText hrules⟩ .nil))

/-! ## Groups of rules -/

/-- Rules in groups, each about the unit of its group. -/
structure IsGrouping (rules : List Rule) (groups : List (TimeUnit × List Rule)) : Prop where
  unit : ∀ group ∈ groups, ∀ rule ∈ group.2, rule.unit = group.1
  perm : (groups.flatMap Prod.snd).Perm rules

/-- The member that a group of rules is in an object from units. -/
def groupMember (group : TimeUnit × List Rule) : Member :=
  (group.1.name,
    .object (group.2.map fun rule => (rule.scope.name, rule.requirement.value)))

theorem isRuleMember_groupMember (group : TimeUnit × List Rule) :
    IsRuleMember (groupMember group) where
  unit := by rw [groupMember, TimeUnit.ofName?_name]; rfl
  requirements := .scopes (List.forall_mem_map.mpr fun rule _ =>
    rule.requirement.isRequirement_value)

theorem memberEntries_groupMember {group : TimeUnit × List Rule}
    (h : ∀ rule ∈ group.2, rule.unit = group.1) :
    memberEntries (groupMember group) = group.2.map RuleEntry.ofRule := by
  have hscopes : (groupMember group).2.scopeEntries =
      group.2.map fun rule => (some rule.scope, rule.requirement) := by
    show (group.2.map _).filterMap _ = _
    rw [List.filterMap_map, List.filterMap_eq_map_iff_forall_eq_some]
    intro rule _
    simp [Requirement.requirement?_value, TimeUnit.ofName?_name]
  have hunit : TimeUnit.ofName? (groupMember group).1 = some group.1 :=
    TimeUnit.ofName?_name group.1
  have hentry : ∀ rule ∈ group.2,
      (⟨group.1, some rule.scope, rule.requirement⟩ : RuleEntry) = RuleEntry.ofRule rule :=
    fun rule hrule => by rw [RuleEntry.ofRule, h rule hrule]
  unfold memberEntries
  rw [hunit, hscopes]
  simp only [List.map_map]
  exact List.map_congr_left hentry

theorem entries_map_groupMember {groups : List (TimeUnit × List Rule)}
    (h : ∀ group ∈ groups, ∀ rule ∈ group.2, rule.unit = group.1) :
    entries (groups.map groupMember) = (groups.flatMap Prod.snd).map RuleEntry.ofRule := by
  induction groups with
  | nil => rfl
  | cons group groups ih =>
      obtain ⟨hgroup, hgroups⟩ := List.forall_mem_cons.mp h
      have hcons : entries ((group :: groups).map groupMember) =
          memberEntries (groupMember group) ++ entries (groups.map groupMember) := rfl
      rw [hcons, memberEntries_groupMember hgroup, ih hgroups, List.flatMap_cons, List.map_append]

/-- Groups can be written as an object from units to objects from scopes to requirements. -/
theorem exists_writes_groups (groups : List (TimeUnit × List Rule)) :
    ∃ text, Writes text (Value.object (groups.map groupMember)).tokens := by
  have hrules : ∀ group : TimeUnit × List Rule, Writes
      (objectText (group.2.map fun rule =>
        (rule.scope.name, Frequency.requirementText rule.requirement))).toList
      (groupMember group).2.tokens := by
    intro group
    refine writes_objectText ?_
    rw [List.forall₂_map_left_iff, List.forall₂_map_right_iff]
    exact List.forall₂_same.mpr fun rule _ => ⟨rfl, rule.requirement.writes_text⟩
  refine ⟨(objectText (groups.map fun group => (group.1.name, objectText (group.2.map fun rule =>
    (rule.scope.name, Frequency.requirementText rule.requirement))))).toList, ?_⟩
  refine writes_objectText ?_
  rw [List.forall₂_map_left_iff, List.forall₂_map_right_iff]
  exact List.forall₂_same.mpr fun group _ => ⟨rfl, hrules group⟩

/-- The rules of a rule set can be grouped by their units. -/
theorem isGrouping_units (rules : RuleSet) :
    IsGrouping rules.toList (rules.units.map fun unit => (unit, rules.of unit)) where
  unit := List.forall_mem_map.mpr fun unit _ rule hrule => (RuleSet.mem_of.mp hrule).2
  perm := by
    have hnodup : rules.toList.Nodup := rules.sorted.imp fun h heq => by
      rw [heq] at h
      exact Nat.lt_irrefl _ h
    have hunits : rules.units.Nodup := List.Nodup.filter _ (by decide)
    have hparts : (rules.units.flatMap rules.of).Nodup := by
      refine List.nodup_flatMap.mpr ⟨fun unit _ => hnodup.filter _, hunits.imp ?_⟩
      intro a b hne rule ha hb
      exact hne ((RuleSet.mem_of.mp ha).2.symm.trans (RuleSet.mem_of.mp hb).2)
    rw [List.flatMap_map, List.perm_ext_iff_of_nodup hparts hnodup]
    intro rule
    rw [List.mem_flatMap]
    constructor
    · rintro ⟨unit, -, hrule⟩
      exact (RuleSet.mem_of.mp hrule).1
    · intro hrule
      have hall : ∀ unit ∈ TimeUnit.all, unit ≠ .epoch → unit ∈ TimeUnit.constrainable := by decide
      have hof : rule ∈ rules.of rule.unit := RuleSet.mem_of.mpr ⟨hrule, rfl⟩
      refine ⟨rule.unit, List.mem_filter.mpr ⟨?_, ?_⟩, hof⟩
      · exact hall _ (TimeUnit.mem_all _) rule.unit_ne_epoch
      · rw [Bool.not_eq_true', List.isEmpty_eq_false_iff]
        exact List.ne_nil_of_mem hof

namespace Frequency

variable {f : Frequency}

/-- The rules of a frequency make it again, in any order. -/
theorem ofMap_ofRule_of_perm (hf : f.IsClosed) {rules : List Rule}
    (hrules : rules.Perm f.rules.toList) :
    ofMap (rules.map RuleEntry.ofRule) f.predicates = .ok f := by
  have hmade : (rules.map RuleEntry.ofRule).mapM RuleEntry.toRule = .ok rules := by
    rw [mapM_eq_ok_iff, List.forall₂_map_left_iff]
    exact List.forall₂_same.mpr fun rule _ => rule.make_parts
  have hplaces : rules.Pairwise fun a b => a.place ≠ b.place :=
    (hrules.pairwise_iff Ne.symm).mpr (f.rules.sorted.imp Nat.ne_of_lt)
  have hset : RuleSet.ofList rules = f.rules :=
    RuleSet.eq_of_mem_iff fun rule => (RuleSet.mem_ofList_iff hplaces).trans hrules.mem_iff
  exact ofMap_eq_ok_iff.mpr ⟨rules, hmade, ofRules_eq_ok_iff.mpr ⟨by rw [hset], hf⟩⟩

/-- The description of a frequency is JSON, and from whatever it is read as, the notation of the
frequency and entries for its rules can be read, which make the frequency again.  The rules can also
be grouped by their units, and any object from units to objects from scopes to requirements that has
them, in any order, is read as the frequency. -/
theorem description_lossless (hf : f.IsClosed) :
    (∃ value : Value, Token.RowMeans f.description.text.toList value.tokens) ∧
    (∀ value : Value, Token.RowMeans f.description.text.toList value.tokens →
      (value.member? "frequency").bind Value.text? = some f.text ∧
      ∃ entries, RuleEntry.ofDescription? value = some entries ∧
        ofMap entries f.predicates = .ok f) ∧
    (∃ groups, IsGrouping f.rules.toList groups ∧ (groups.map Prod.fst).Nodup) ∧
    ∀ groups, IsGrouping f.rules.toList groups →
      (∃ text, Token.RowMeans text (Value.object (groups.map groupMember)).tokens) ∧
      ∀ text, Token.RowMeans text (Value.object (groups.map groupMember)).tokens →
        ofJson text f.predicates = .ok f := by
  have hwritten := f.description.writes_text.rowMeans
  refine ⟨⟨_, hwritten⟩, ?_, ⟨_, isGrouping_units f.rules, ?_⟩, ?_⟩
  · intro value hvalue
    rw [hvalue.value_unique hwritten]
    exact ⟨rfl, _, RuleEntry.ofDescription?_value f.description,
      ofMap_ofRule_of_perm hf (.refl _)⟩
  · rw [List.map_map]
    exact (List.map_id _).symm ▸ List.Nodup.filter _ (by decide)
  · intro groups hgroups
    obtain ⟨text, htext⟩ := exists_writes_groups groups
    refine ⟨⟨text, htext.rowMeans⟩, fun text htext => ?_⟩
    have hfaults : faults (groups.map groupMember) = [] :=
      faults_eq_nil (List.forall_mem_map.mpr fun group _ => isRuleMember_groupMember group)
    rw [ofJson_of_no_faults htext.ofText_eq hfaults, entries_map_groupMember hgroups.unit,
      ofMap_ofRule_of_perm hf hgroups.perm]
    rfl

/-- A name that needs escapes. -/
def quotedName : String := "a\"\\\n\x01"

/-- Days in three scopes, one of them with the least number, and hours with the greatest. -/
def daysEntries : RuleMap :=
  [⟨.day, some .year, .fixed (-9223372036854775808)⟩, ⟨.day, none, .predicate quotedName⟩,
    ⟨.day, some .week, .fixed (-3)⟩, ⟨.hour, none, .fixed 9223372036854775807⟩]

def daysRegistry : Registry := Registry.empty.register quotedName .odd

def days : Frequency := ((Source.map daysEntries).build daysRegistry).toOption.get rfl

/-- Numbers of all sizes, several scopes of a unit and any names are read back. -/
theorem description_lossless_days :
    days.IsClosed ∧ days.rules.size = 4 ∧
      ∃ entries, RuleEntry.ofDescription? days.description.value = some entries ∧
        ofMap entries days.predicates = .ok days := by
  have hbuilt : (Source.map daysEntries).build daysRegistry = .ok days := rfl
  have hclosed := Source.isClosed_of_build hbuilt
  obtain ⟨-, hread, -⟩ := description_lossless hclosed
  exact ⟨hclosed, rfl, (hread _ days.description.writes_text.rowMeans).2⟩

end Frequency

end Cadence

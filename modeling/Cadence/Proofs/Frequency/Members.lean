import Cadence.Frequency.Reader
import Cadence.Proofs.Frequency.Routes
import Cadence.Proofs.Json.Members
import Cadence.Proofs.Json.Spelling

/-!
# Frequencies from objects

A frequency that is written as an object is made in three stages, each of which may refuse it: the
members are read, the entries that they stand for are made into rules, and the predicates that the
rules name are looked up.  The members and the entries are taken in reading order, and a stage only
begins after the one before it, so what is reported is the first of the complaints in this order
(`Frequency.ofJson_object`).
-/

namespace Cadence

open Json

namespace RuleEntry

/-- Why an entry is no rule. -/
def rejection? (entry : RuleEntry) : Option Error :=
  if entry.unit = .epoch then some (.invalidUnit TimeUnit.epoch.name)
  else if entry.unit = .year ∧ entry.requirement.fixed? ≠ none then some .fixedYear
  else none

theorem toRule_of_rejected {entry : RuleEntry} {e : Error} (h : entry.rejection? = some e) :
    entry.toRule = .error e := by
  unfold rejection? at h
  unfold toRule Rule.make
  split at h
  · rename_i hepoch
    cases h
    rw [dif_pos hepoch, hepoch]
  · rename_i hepoch
    rw [dif_neg hepoch]
    split at h
    · rename_i hyear
      cases h
      rw [dif_pos hyear]
    · cases h

theorem exists_toRule {entry : RuleEntry} (h : entry.rejection? = none) :
    ∃ rule, entry.toRule = .ok rule := by
  unfold rejection? at h
  unfold toRule Rule.make
  split at h
  · cases h
  · rename_i hepoch
    split at h
    · cases h
    · rename_i hyear
      rw [dif_neg hepoch, dif_neg hyear]
      exact ⟨_, rfl⟩

/-- Why the entries of a list are no rules, in reading order. -/
def rejections (entries : RuleMap) : List Error := entries.filterMap rejection?

/-- Of the entries that are no rules the first one decides the error. -/
theorem mapM_toRule_of_rejected {entries : RuleMap} {e : Error}
    (h : (rejections entries).head? = some e) : entries.mapM toRule = .error e := by
  induction entries with
  | nil => cases h
  | cons entry entries ih =>
      rw [List.mapM_cons]
      unfold rejections at h ih
      rw [List.filterMap_cons] at h
      cases hrejected : entry.rejection? with
      | some e' =>
          rw [hrejected] at h
          cases h
          rw [toRule_of_rejected hrejected]
          rfl
      | none =>
          rw [hrejected] at h
          obtain ⟨rule, hrule⟩ := exists_toRule hrejected
          rw [hrule, ih h]
          rfl

theorem exists_mapM_toRule {entries : RuleMap} (h : rejections entries = []) :
    ∃ rules, entries.mapM toRule = .ok rules := by
  induction entries with
  | nil => exact ⟨[], rfl⟩
  | cons entry entries ih =>
      obtain ⟨hrejected, hrest⟩ : entry.rejection? = none ∧ rejections entries = [] := by
        simpa [rejections] using h
      obtain ⟨rule, hrule⟩ := exists_toRule hrejected
      obtain ⟨rules, hrules⟩ := ih hrest
      refine ⟨rule :: rules, ?_⟩
      rw [List.mapM_cons, hrule, hrules]
      rfl

end RuleEntry

namespace Frequency

variable {predicates : Registry}

/-! ## Refusals -/

/-- Checking rules fails only on a predicate that is not registered. -/
theorem checkRules_eq_error {rules : List Rule} {e : Error}
    (h : rules.forM (checkRule predicates) = .error e) :
    ∃ name, predicates.contains name = false ∧ e = .unknownPredicate name := by
  induction rules with
  | nil => cases h
  | cons rule rules ih =>
      change (checkRule predicates rule >>= fun _ => rules.forM (checkRule predicates)) = _ at h
      rcases bind_eq_error_iff.mp h with h | ⟨-, -, h⟩
      · unfold checkRule at h
        split at h
        · cases h
        · rename_i name _
          split at h
          · cases h
          · rename_i hname
            cases h
            exact ⟨name, Bool.eq_false_iff.mpr hname, rfl⟩
      · exact ih h

/-- The first entry that is no rule decides the error. -/
theorem ofMap_of_rejected {entries : RuleMap} {e : Error}
    (h : (RuleEntry.rejections entries).head? = some e) : ofMap entries predicates = .error e := by
  unfold ofMap RuleMap.toRules
  rw [RuleEntry.mapM_toRule_of_rejected h]
  rfl

/-- Entries that are all rules make a frequency, unless a predicate is not registered. -/
theorem ofMap_of_rules {entries : RuleMap} (h : RuleEntry.rejections entries = []) :
    (∃ f, ofMap entries predicates = .ok f) ∨
      ∃ name, predicates.contains name = false ∧
        ofMap entries predicates = .error (.unknownPredicate name) := by
  obtain ⟨rules, hrules⟩ := RuleEntry.exists_mapM_toRule h
  have hmap : ofMap entries predicates = ofRules (.ofList rules) predicates := by
    unfold ofMap RuleMap.toRules
    rw [hrules]
    rfl
  rw [hmap]
  unfold ofRules
  cases hchecked : (RuleSet.ofList rules).toList.forM (checkRule predicates) with
  | ok checked => exact .inl ⟨_, rfl⟩
  | error e =>
      obtain ⟨name, hname, rfl⟩ := checkRules_eq_error hchecked
      exact .inr ⟨name, hname, rfl⟩

theorem getValue_of_ofMap {entries : RuleMap} {f : Frequency} (h : ofMap entries predicates = .ok f)
    (unit : TimeUnit) (scope : Option TimeUnit) :
    f.getValue unit scope = RuleEntry.lastRequirement entries unit scope := by
  obtain ⟨rules, hrules, hset⟩ := ofMap_eq_ok_iff.mp h
  obtain ⟨rfl, -⟩ := ofRules_eq_ok_iff.mp hset
  exact getValue_ofList (RuleEntry.asksFor_of_mapM hrules) unit scope

/-! ## Texts -/

/-- The frequency that a text stands for.  The text may be no rule map, or its entries may be
refused. -/
def ofJson (text : List Char) (predicates : Registry) : Except (MapFault ⊕ Error) Frequency := do
  let entries ← (outcome (ruleMapOf (Token.ofText text))).mapError .inl
  (ofMap entries predicates).mapError .inr

/-- What is wrong with bytes that are no frequency, apart from the place. -/
def ReadError.cause : ReadError → MapFault ⊕ Error
  | noRuleMap _ fault _ => .inl fault
  | notUtf8 _ _ => .inl .malformed
  | refused error => .inr error

/-- Bytes in braces are read as the text that they encode. -/
theorem read_eq_ofJson (predicates : Registry) {bytes : Text.Bytes}
    (h : (Text.trimWhere Text.isBlankByte bytes).head? = some 0x7B) :
    (read predicates bytes).result.mapError ReadError.cause =
      ofJson (Token.charsOf (Text.trimWhere Text.isBlankByte bytes)) predicates := by
  unfold read ofJson outcome
  rw [if_pos h, Logged.result_bind]
  unfold readRuleMap
  simp only [Logged.result_mapError, Logged.result_ofExcept]
  generalize ruleMapOf (Token.ofText (Token.charsOf (Text.trimWhere Text.isBlankByte bytes))) = map
  cases map.result with
  | error misread => rfl
  | ok entries =>
      show ((ofMap entries predicates).mapError ReadError.refused).mapError ReadError.cause =
        (ofMap entries predicates).mapError .inr
      cases ofMap entries predicates <;> rfl

/-- What is wrong with the members of an object, in the order in which it is reported: first with
the members themselves and then with the entries that they stand for, each in reading order. -/
def complaints (members : List Member) : List (MapFault ⊕ Error) :=
  (faults members).map .inl ++ (RuleEntry.rejections (entries members)).map .inr

section Object

variable {text : List Char} {members : List Member}
  (htext : Token.ofText text = (Value.object members).tokens)

include htext

theorem ofJson_of_faults {fault : MapFault} {rest : List MapFault}
    (hfaults : faults members = fault :: rest) :
    ofJson text predicates = .error (.inl fault) := by
  unfold ofJson
  rw [htext, outcome_ruleMapOf, hfaults]
  rfl

theorem ofJson_of_no_faults (hfaults : faults members = []) :
    ofJson text predicates = (ofMap (entries members) predicates).mapError .inr := by
  unfold ofJson
  rw [htext, outcome_ruleMapOf, hfaults]
  rfl

theorem ofJson_of_complaint {complaint : MapFault ⊕ Error}
    (h : (complaints members).head? = some complaint) :
    ofJson text predicates = .error complaint := by
  unfold complaints at h
  cases hfaults : faults members with
  | cons fault rest =>
      rw [hfaults] at h
      cases h
      exact ofJson_of_faults htext hfaults
  | nil =>
      rw [hfaults, List.map_nil, List.nil_append, List.head?_map, Option.map_eq_some_iff] at h
      obtain ⟨e, he, rfl⟩ := h
      rw [ofJson_of_no_faults htext hfaults, ofMap_of_rejected he]
      rfl

theorem ofMap_of_ofJson {f : Frequency} (h : ofJson text predicates = .ok f) :
    ofMap (entries members) predicates = .ok f := by
  cases hfaults : faults members with
  | cons fault rest =>
      rw [ofJson_of_faults htext hfaults] at h
      cases h
  | nil =>
      rw [ofJson_of_no_faults htext hfaults] at h
      cases hmap : ofMap (entries members) predicates with
      | ok g =>
          rw [hmap] at h
          cases h
          rfl
      | error e =>
          rw [hmap] at h
          cases h

end Object

/-- From the text of an object a frequency is made like from the entries that its members stand
for, in reading order, and the last one for a unit and what a scope stands for says what is
required.  The first complaint is reported, and if there is none, at most that a predicate is not
registered. -/
theorem ofJson_object (predicates : Registry) {text : List Char} {members : List Member}
    (htext : Token.RowMeans text (Value.object members).tokens) :
    ((∀ member ∈ members, IsRuleMember member) →
      ofJson text predicates = (ofMap (entries members) predicates).mapError .inr) ∧
    (∀ f, ofJson text predicates = .ok f → ∀ unit scope,
      f.getValue unit scope = RuleEntry.lastRequirement (entries members) unit scope) ∧
    (∀ complaint, (complaints members).head? = some complaint →
      ofJson text predicates = .error complaint) ∧
    (complaints members = [] → (∃ f, ofJson text predicates = .ok f) ∨
      ∃ name, predicates.contains name = false ∧
        ofJson text predicates = .error (.inr (.unknownPredicate name))) := by
  have htokens := htext.ofText_eq
  refine ⟨?_, ?_, ?_, ?_⟩
  · intro hmembers
    exact ofJson_of_no_faults htokens (faults_eq_nil hmembers)
  · intro f hf unit scope
    exact getValue_of_ofMap (ofMap_of_ofJson htokens hf) unit scope
  · intro complaint hcomplaint
    exact ofJson_of_complaint htokens hcomplaint
  · intro hnone
    obtain ⟨hfaults, hrejections⟩ := List.append_eq_nil_iff.mp hnone
    rw [ofJson_of_no_faults htokens (List.map_eq_nil_iff.mp hfaults)]
    rcases ofMap_of_rules (List.map_eq_nil_iff.mp hrejections) with ⟨f, hf⟩ | ⟨name, hname, hf⟩
    · exact .inl ⟨f, by rw [hf]; rfl⟩
    · exact .inr ⟨name, hname, by rw [hf]; rfl⟩

/-- Both members are about days of the month, because hours are no scope of days. -/
def dayTwice : String := "\x7b\"day\":\x7b\"hour\":3\x7d,\"D\":\"odd\"\x7d"

def dayTwiceMembers : List Member :=
  [("day", .object [("hour", .number (.integer 3))]), ("D", .string "odd")]

/-- The year may not be given a number, and the fortnight is no unit, but it is null. -/
def fortnight : String := "\x7b\"year\": 2014, \"fortnight\":null\x7d"

def fortnightMembers : List Member :=
  [("year", .number (.integer 2014)), ("fortnight", .null)]

theorem dayTwice_spelling :
    Token.RowMeans dayTwice.toList (Value.object dayTwiceMembers).tokens := by
  have htext : dayTwice.toList =
      ['\x7b'] ++ (('"' :: (['d', 'a', 'y'] ++ ['"'])) ++ ([':'] ++ (['\x7b'] ++
        (('"' :: (['h', 'o', 'u', 'r'] ++ ['"'])) ++ ([':'] ++ ([] ++ (['3'] ++ (['\x7d'] ++ ([','] ++
          (('"' :: (['D'] ++ ['"'])) ++ ([':'] ++ (('"' :: (['o', 'd', 'd'] ++ ['"'])) ++
            (['\x7d'] ++ []))))))))))))) := by
    decide +kernel
  have hthree : Number.Means ['3'] (.integer 3) :=
    @Number.Means.numeral ⟨false, ['3'], none, none⟩ [] [] _
      (.positive (by decide) ⟨by decide, List.all_eq_true.mp (by decide)⟩) .none .none rfl
  rw [htext]
  refine .next .openBrace nofun ?_
  refine .next (.string (.of_plain (by decide))) nofun ?_
  refine .next .colon nofun ?_
  refine .next .openBrace nofun ?_
  refine .next (.string (.of_plain (by decide))) nofun ?_
  refine .next .colon nofun ?_
  refine .cons (List.forall_mem_nil _) (.number hthree) ?_ ?_
  · intro n _
    rintro _ ⟨⟩
    decide
  refine .next .closeBrace nofun ?_
  refine .next .comma nofun ?_
  refine .next (.string (.of_plain (by decide))) nofun ?_
  refine .next .colon nofun ?_
  refine .next (.string (.of_plain (by decide))) nofun ?_
  refine .next .closeBrace nofun ?_
  exact .nil (List.forall_mem_nil _)

theorem fortnight_spelling :
    Token.RowMeans fortnight.toList (Value.object fortnightMembers).tokens := by
  have htext : fortnight.toList =
      ['\x7b'] ++ (('"' :: (['y', 'e', 'a', 'r'] ++ ['"'])) ++ ([':'] ++
        ([' '] ++ (['2', '0', '1', '4'] ++ ([','] ++ ([' '] ++
          (('"' :: (['f', 'o', 'r', 't', 'n', 'i', 'g', 'h', 't'] ++ ['"'])) ++
            ([':'] ++ (['n', 'u', 'l', 'l'] ++ (['\x7d'] ++ [])))))))))) := by
    decide +kernel
  have hyear : Number.Means ['2', '0', '1', '4'] (.integer 2014) :=
    @Number.Means.numeral ⟨false, ['2', '0', '1', '4'], none, none⟩ [] [] _
      (.positive (by decide) ⟨by decide, List.all_eq_true.mp (by decide)⟩) .none .none rfl
  rw [htext]
  refine .next .openBrace nofun ?_
  refine .next (.string (.of_plain (by decide))) nofun ?_
  refine .next .colon nofun ?_
  refine .cons (List.forall_mem_singleton.mpr (by decide)) (.number hyear) ?_ ?_
  · intro n _
    rintro _ ⟨⟩
    decide
  refine .next .comma nofun ?_
  refine .cons (List.forall_mem_singleton.mpr (by decide)) (.string (.of_plain (by decide))) nofun ?_
  refine .next .colon nofun ?_
  refine .next .null nofun ?_
  refine .next .closeBrace nofun ?_
  exact .nil (List.forall_mem_nil _)

/-- The later member counts, and of complaints the first one. -/
theorem ofJson_texts :
    (Token.RowMeans dayTwice.toList (Value.object dayTwiceMembers).tokens ∧
      (∀ member ∈ dayTwiceMembers, IsRuleMember member) ∧
      ∃ f, ofJson dayTwice.toList .builtin = .ok f ∧
        f.getValue .day none = some (.predicate "odd")) ∧
      Token.RowMeans fortnight.toList (Value.object fortnightMembers).tokens ∧
      ofJson fortnight.toList .builtin = .error (.inl (.unexpected .null .requirementOrScopes)) := by
  have hcomplaint : (complaints fortnightMembers).head? =
      some (.inl (.unexpected .null .requirementOrScopes)) := by
    decide +kernel
  have hmembers : ∀ member ∈ dayTwiceMembers, IsRuleMember member := by
    rw [dayTwiceMembers, List.forall_mem_cons, List.forall_mem_singleton]
    exact ⟨⟨by decide +kernel, .scopes (List.forall_mem_singleton.mpr (.integer (by decide)))⟩,
      ⟨by decide +kernel, .requirement (.name "odd")⟩⟩
  obtain ⟨f, hf⟩ : ∃ f, ofMap (entries dayTwiceMembers) .builtin = .ok f := by
    have hsome : (ofMap (entries dayTwiceMembers) .builtin).toOption.isSome = true := by
      decide +kernel
    cases hf : ofMap (entries dayTwiceMembers) .builtin with
    | ok f => exact ⟨f, rfl⟩
    | error e =>
        rw [hf] at hsome
        cases hsome
  obtain ⟨hmap, hvalue, -, -⟩ := ofJson_object .builtin dayTwice_spelling
  have hread : ofJson dayTwice.toList .builtin = .ok f := by
    rw [hmap hmembers, hf]
    rfl
  refine ⟨⟨dayTwice_spelling, hmembers, f, hread, ?_⟩, fortnight_spelling, ?_⟩
  · rw [hvalue f hread]
    decide +kernel
  · exact (ofJson_object .builtin fortnight_spelling).2.2.1 _ hcomplaint

end Frequency

end Cadence

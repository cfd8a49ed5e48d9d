import Cadence.Notation.Printer
import Cadence.Proofs.Notation.Reading

/-!
# Reading what was written

The written form of a rule set is one of its spellings, provided that its numbers are not negative
and its names are words of notation (`Requirement.IsWritable`).  It is read back then.  Other rule
sets are not, for everything that is read can be written (`parse_text_iff`).
-/

namespace Cadence

/-- What notation can express: a number without a sign, or a word. -/
def Requirement.IsWritable : Requirement → Prop
  | .fixed n => 0 ≤ n.toInt
  | .predicate name => name ≠ "" ∧ ∀ c ∈ name.toList, Notation.isNameChar c = true

namespace Notation

/-! ## Groups -/

section Groups

variable {value : List Char} {requirement : Requirement} {rule : Rule} {time : Bool}

theorem ValueMeans.isWritable (h : ValueMeans value requirement) : requirement.IsWritable := by
  cases h with
  | number hne hdigits hvalue =>
      rw [Requirement.IsWritable, hvalue]
      exact Int.natCast_nonneg _
  | @word name hne hname =>
      refine ⟨fun hempty => hne ?_, by rwa [String.toList_ofList]⟩
      rw [← String.toList_ofList (l := name), hempty, String.toList_empty]

theorem valueMeans_valueChars (h : requirement.IsWritable) :
    ValueMeans (valueChars requirement) requirement := by
  cases requirement with
  | fixed n =>
      have hn : ¬n.toInt < 0 := Int.not_lt.mpr h
      rw [valueChars, Text.decimalInt, if_neg hn]
      refine .number (Text.decimal_ne_nil _) (fun c hc => Text.isDigit_of_mem_decimal hc) ?_
      rw [Text.value_decimal]
      exact (Int.natAbs_of_nonneg h).symm
  | predicate name =>
      have hword := ValueMeans.word (fun hnil => h.1 (by simpa using hnil)) h.2
      rwa [String.ofList_toList] at hword

theorem letter_mem (rule : Rule) : (letter rule.unit, rule.unit) ∈ unitLetters rule.unit.isTime := by
  have hall : ∀ unit ∈ TimeUnit.all, unit ≠ .epoch →
      (letter unit, unit) ∈ unitLetters unit.isTime := by
    decide
  exact hall _ (TimeUnit.mem_all _) rule.unit_ne_epoch

theorem code_mem (rule : Rule) : (rule.scope.code, rule.scope) ∈ scopeLetters := by
  -- No unit is finer than the second, the only scope without a letter.
  have hall : ∀ unit ∈ TimeUnit.all, ∀ scope ∈ TimeUnit.all, unit.isLegalScope scope = true →
      (scope.code, scope) ∈ scopeLetters := by
    decide
  exact hall _ (TimeUnit.mem_all _) _ (TimeUnit.mem_all _) rule.legal

/-- Every rule that can be written has a group, and this is the text of it. -/
theorem exists_group (htime : rule.unit.isTime = time) (h : rule.requirement.IsWritable) :
    ∃ g : Group time, g.rule = rule ∧ g.chars = groupChars rule := by
  subst htime
  by_cases hdefault : rule.hasDefaultScope = true
  · have hscope : rule.scope = rule.unit.defaultScope := by
      simpa [Rule.hasDefaultScope] using hdefault
    refine ⟨⟨_, _, none, rule, valueMeans_valueChars h, letter_mem rule, hscope⟩, rfl, ?_⟩
    simp [Group.chars, groupChars, scopeChars, hdefault, scopeSuffix]
  · refine ⟨⟨_, _, some rule.scope.code, rule, valueMeans_valueChars h, letter_mem rule,
      code_mem rule⟩, rfl, ?_⟩
    simp [Group.chars, groupChars, scopeChars, hdefault, scopeSuffix]

/-- Rules that can be written have groups, and their texts make up the text of the rules. -/
theorem exists_groups {rules : List Rule} (htime : ∀ rule ∈ rules, rule.unit.isTime = time)
    (h : ∀ rule ∈ rules, rule.requirement.IsWritable) :
    ∃ groups : List (Group time), groups.map Group.rule = rules ∧
      groups.flatMap Group.chars = rules.flatMap groupChars := by
  induction rules with
  | nil => exact ⟨[], rfl, rfl⟩
  | cons rule rules ih =>
      rw [List.forall_mem_cons] at htime h
      obtain ⟨g, hrule, hchars⟩ := exists_group htime.1 h.1
      obtain ⟨groups, hrules, hrest⟩ := ih htime.2 h.2
      exact ⟨g :: groups, by simp [hrule, hrules], by simp [hchars, hrest]⟩

end Groups

/-! ## Rule sets -/

/-- The rules in the order in which they are written. -/
def writtenRules (rules : RuleSet) : List Rule :=
  rules.toList.filter (!·.unit.isTime) ++ rules.toList.filter (·.unit.isTime)

theorem mem_writtenRules {rules : RuleSet} {rule : Rule} :
    rule ∈ writtenRules rules ↔ rule ∈ rules.toList := by
  simp only [writtenRules, List.mem_append, List.mem_filter]
  cases rule.unit.isTime <;> simp

theorem sorted_writtenRules (rules : RuleSet) :
    (writtenRules rules).Pairwise fun a b => a.place < b.place := by
  refine List.pairwise_append.mpr
    ⟨rules.sorted.filter _, rules.sorted.filter _, fun a ha b hb => ?_⟩
  -- Every date unit is coarser than every time unit.
  have hunits : ∀ u ∈ TimeUnit.all, ∀ v ∈ TimeUnit.all, u.isTime = false → v.isTime = true →
      u.rank < v.rank := by
    decide
  have hlt := hunits _ (TimeUnit.mem_all a.unit) _ (TimeUnit.mem_all b.unit)
    (by simpa using (List.mem_filter.mp ha).2) (List.mem_filter.mp hb).2
  have ha' := a.place_bounds
  have hb' := b.place_bounds
  omega

/-- The written form of a rule set that can be written is a spelling of it. -/
theorem exists_spelling {rules : RuleSet} (h : ∀ rule ∈ rules.toList, rule.requirement.IsWritable) :
    ∃ n : Spelling, n.chars = chars rules ∧ n.rules = writtenRules rules := by
  have hdate : ∀ rule ∈ rules.toList.filter (!·.unit.isTime), rule.unit.isTime = false :=
    fun rule hrule => by simpa using (List.mem_filter.mp hrule).2
  have htime : ∀ rule ∈ rules.toList.filter (·.unit.isTime), rule.unit.isTime = true :=
    fun rule hrule => (List.mem_filter.mp hrule).2
  obtain ⟨dates, hdates, hdateChars⟩ :=
    exists_groups hdate fun rule hrule => h rule (List.mem_filter.mp hrule).1
  obtain ⟨times, htimes, htimeChars⟩ :=
    exists_groups htime fun rule hrule => h rule (List.mem_filter.mp hrule).1
  have hrules : dates.map Group.rule ++ times.map Group.rule = writtenRules rules := by
    rw [hdates, htimes, writtenRules]
  have hsorted := sorted_writtenRules rules
  rw [← hrules] at hsorted
  have hordered : (dates.map Group.rule ++ times.map Group.rule).Pairwise
      fun a b => a.unit ≤ b.unit := by
    refine hsorted.imp fun {a b} hlt => ?_
    have ha := a.place_bounds
    have hb := b.place_bounds
    rw [TimeUnit.le_def]
    omega
  have hdistinct : (dates.map Group.rule ++ times.map Group.rule).Pairwise
      fun a b => ¬(a.unit = b.unit ∧ a.scope = b.scope) :=
    hsorted.imp fun hlt heq => Nat.ne_of_lt hlt (Rule.place_eq_iff.mpr heq)
  refine ⟨⟨dates, times, hordered, hdistinct⟩, ?_, hrules⟩
  rw [chars, Spelling.chars, hdateChars, ← htimes]
  cases times with
  | nil => rfl
  | cons g times =>
      rw [← htimes] at htimeChars
      simp only [timePart, timeChars, List.map_cons] at htimeChars ⊢
      rw [htimeChars]

theorem parse_text_of_isWritable {rules : RuleSet}
    (h : ∀ rule ∈ rules.toList, rule.requirement.IsWritable) :
    parse (text rules) = .ok rules := by
  obtain ⟨n, hchars, hrules⟩ := exists_spelling h
  refine parse_eq_ok_iff.mpr ⟨n, by rw [Spelling.text, hchars, text], fun rule => ?_⟩
  rw [hrules, mem_writtenRules]

theorem isWritable_of_parse {s : String} {rules : RuleSet} (h : parse s = .ok rules) :
    ∀ rule ∈ rules.toList, rule.requirement.IsWritable := by
  obtain ⟨n, -, hrules⟩ := parse_eq_ok_iff.mp h
  intro rule hrule
  have hmem := (hrules rule).mp hrule
  rw [Spelling.rules, List.mem_append, List.mem_map, List.mem_map] at hmem
  rcases hmem with ⟨g, -, rfl⟩ | ⟨g, -, rfl⟩
  · exact g.value_means.isWritable
  · exact g.value_means.isWritable

/-- A rule set is read back from its written form if and only if all its numbers and names can be
written.  This holds of everything that is read, so what was read and written once is written in the
same way ever after. -/
theorem parse_text_iff :
    (∀ rules : RuleSet, parse (text rules) = .ok rules ↔
      ∀ rule ∈ rules.toList, rule.requirement.IsWritable) ∧
    ∀ s rules, parse s = .ok rules →
      (∀ rule ∈ rules.toList, rule.requirement.IsWritable) ∧
        ∃ again, parse (text rules) = .ok again ∧ text again = text rules := by
  refine ⟨fun rules => ⟨isWritable_of_parse, parse_text_of_isWritable⟩, fun s rules h => ?_⟩
  have hwritable := isWritable_of_parse h
  exact ⟨hwritable, rules, parse_text_of_isWritable hwritable, rfl⟩

/-- The tenth second of every hour of the fifteenth, if that is a Monday. -/
def mixedScopes : RuleSet := (parse "F1D/W15DT10S/H").toOption.getD .empty

/-- It is written with the scopes in order and the hour in lower case. -/
theorem parse_mixedScopes :
    parse "F1D/W15DT10S/H" = .ok mixedScopes ∧ text mixedScopes = "F15D1D/WT10S/h" ∧
      parse (text mixedScopes) = .ok mixedScopes := by
  have hparse : parse "F1D/W15DT10S/H" = .ok mixedScopes := by decide +kernel
  have hwritable := (parse_text_iff.2 _ _ hparse).1
  exact ⟨hparse, by decide +kernel, (parse_text_iff.1 mixedScopes).mpr hwritable⟩

/-- A name that closes its own parenthesis is read as two rules. -/
example : (parse (text (.ofList [⟨.day, .month, .predicate "a)W(b", rfl, nofun⟩]))).toOption.map
    RuleSet.size = some 2 := by decide +kernel

end Notation

end Cadence

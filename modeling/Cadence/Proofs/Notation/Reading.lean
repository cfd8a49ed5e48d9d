import Mathlib.Data.List.TakeWhile
import Mathlib.Tactic.Common
import Cadence.Proofs.Notation.Grammar
import Cadence.Proofs.Rules.Membership

/-!
# Reading accepts exactly the grammar

Every step of the reader takes exactly one part of the grammar off a text: a value
(`exists_value_of_readValue`, `readValue_append`), a letter, a scope, a group
(`readGroup_eq_ok_iff`), the groups of one half of the notation (`exists_groups_of_readGroups`,
`exists_readGroups`).  What the reader keeps between groups, the last unit and the rules so far,
stands for the order of the groups and for their being distinct (`Kept`).  So a text is read if and
only if it has a spelling, and the rules are then those of the spelling (`readChars_eq_ok_iff`).
-/

namespace Cadence.Notation

/-! ## Rows of characters -/

section Rows

variable {p : Char → Bool} {front rest : List Char}

theorem takeWhile_append_stop (hfront : ∀ c ∈ front, p c = true)
    (hrest : ∀ c ∈ rest.head?, p c = false) : (front ++ rest).takeWhile p = front := by
  rw [List.takeWhile_append_of_pos hfront]
  cases rest with
  | nil => simp
  | cons c rest =>
      have hc : p c = false := hrest c rfl
      simp [hc]

theorem dropWhile_append_stop (hfront : ∀ c ∈ front, p c = true)
    (hrest : ∀ c ∈ rest.head?, p c = false) : (front ++ rest).dropWhile p = rest := by
  rw [List.dropWhile_append_of_pos hfront]
  cases rest with
  | nil => rfl
  | cons c rest =>
      have hc : p c = false := hrest c rfl
      simp [hc]

end Rows

/-! ## Values -/

section Values

variable {text rest value : List Char} {requirement : Requirement}

theorem exists_int64_iff {n : Nat} : n < valueLimit ↔ ∃ m : Int64, m.toInt = n := by
  constructor
  · intro h
    exact ⟨Int64.ofNat n, Int64.toInt_ofNat_of_lt h⟩
  · rintro ⟨m, hm⟩
    have := m.toInt_lt
    simp only [valueLimit]
    omega

theorem ofNat_eq_of_toInt {n : Nat} {m : Int64} (h : m.toInt = n) : Int64.ofNat n = m := by
  have hlt : n < 2 ^ 63 := exists_int64_iff.mpr ⟨m, h⟩
  exact Int64.toInt_inj.mp ((Int64.toInt_ofNat_of_lt hlt).trans h.symm)

/-- What is read as a value means what is read. -/
theorem exists_value_of_readValue (h : readValue text = .ok (requirement, rest)) :
    ∃ value, text = value ++ rest ∧ ValueMeans value requirement := by
  unfold readValue at h
  split at h
  case h_1 inner =>
    simp only [readName] at h
    split_ifs at h with hname
    split at h
    case h_1 after hafter =>
      obtain ⟨rfl, rfl⟩ := Prod.mk.inj (Except.ok.inj h)
      refine ⟨_, ?_, .word hname fun c hc => List.mem_takeWhile_imp hc⟩
      have hcut := List.takeWhile_append_dropWhile (p := isNameChar) (l := inner)
      rw [hafter] at hcut
      simpa using hcut.symm
    case h_2 => cases h
  case h_2 =>
    simp only [readNumber] at h
    split_ifs at h with hdigits hlimit
    obtain ⟨rfl, rfl⟩ := Prod.mk.inj (Except.ok.inj h)
    obtain ⟨n, hn⟩ := exists_int64_iff.mp hlimit
    rw [ofNat_eq_of_toInt hn]
    exact ⟨_, List.takeWhile_append_dropWhile.symm,
      .number hdigits (fun c hc => List.mem_takeWhile_imp hc) hn⟩

/-- A value is read up to its end, if no digit follows. -/
theorem readValue_append (h : ValueMeans value requirement)
    (hrest : ∀ c ∈ rest.head?, Text.isDigit c = false) :
    readValue (value ++ rest) = .ok (requirement, rest) := by
  cases h with
  | @number _ n hne hdigits hvalue =>
      have hread : readValue (value ++ rest) = readNumber (value ++ rest) := by
        obtain ⟨c, more, rfl⟩ := List.exists_cons_of_ne_nil hne
        have hc : c ≠ '(' := by
          rintro rfl
          exact absurd (hdigits '(' List.mem_cons_self) (by decide)
        unfold readValue
        split
        case h_1 heq => exact absurd (List.cons.inj heq).1 hc
        case h_2 => rfl
      rw [hread, readNumber, takeWhile_append_stop hdigits hrest,
        dropWhile_append_stop hdigits hrest]
      simp only [if_neg hne, if_pos (exists_int64_iff.mpr ⟨n, hvalue⟩), ofNat_eq_of_toInt hvalue]
  | @word name hne hname =>
      have hclose : ∀ c ∈ (')' :: rest).head?, isNameChar c = false := by
        rintro c ⟨⟩
        exact isNameChar_close
      show readName (name ++ [')'] ++ rest) = _
      rw [List.append_assoc, List.singleton_append, readName, takeWhile_append_stop hname hclose,
        dropWhile_append_stop hname hclose]
      simp only [if_neg hne]

end Values

/-! ## Units and scopes -/

section Letters

variable {time : Bool} {text rest : List Char} {unit scope : TimeUnit}

theorem dateUnit_eq_ok_iff {c : Char} : dateUnit c = .ok unit ↔ (c, unit) ∈ dateLetters := by
  unfold dateUnit
  split <;> simp_all [dateLetters, eq_comm]

theorem timeUnit_eq_ok_iff {c : Char} : timeUnit c = .ok unit ↔ (c, unit) ∈ timeLetters := by
  unfold timeUnit
  split <;> simp_all [timeLetters, eq_comm]

theorem scopeOf?_eq_some_iff {c : Char} : scopeOf? c = some scope ↔ (c, scope) ∈ scopeLetters := by
  unfold scopeOf?
  split <;> simp_all [scopeLetters, eq_comm]

theorem readUnit_eq_ok_iff :
    readUnit time text = .ok (unit, rest) ↔
      ∃ c, text = c :: rest ∧ (c, unit) ∈ unitLetters time := by
  cases text with
  | nil => simp [readUnit]
  | cons c more =>
      have hletter : (if time then timeUnit c else dateUnit c) = .ok unit ↔
          (c, unit) ∈ unitLetters time := by
        cases time with
        | false => exact dateUnit_eq_ok_iff
        | true => exact timeUnit_eq_ok_iff
      simp only [readUnit]
      cases hread : if time then timeUnit c else dateUnit c with
      | ok u => grind
      | error fault => grind

/-- A scope is read up to the end of the group, if no slash follows a group without a letter. -/
theorem readScope_eq_ok_iff (hunit : unit ≠ .epoch) :
    readScope unit text = .ok (scope, rest) ↔
      unit.isLegalScope scope = true ∧ ∃ letter?, text = scopeSuffix letter? ++ rest ∧
        ScopeMeans unit letter? scope ∧ (letter? = none → rest.head? ≠ some '/') := by
  unfold readScope
  split
  case h_1 =>
    -- Nothing follows the slash.
    constructor
    · intro h
      cases h
    · rintro ⟨-, letter?, htext, -, hslash⟩
      cases letter? with
      | none =>
          obtain rfl : ['/'] = rest := htext
          exact absurd rfl (hslash rfl)
      | some c => simp [scopeSuffix] at htext
  case h_2 c more =>
    constructor
    · intro h
      split at h
      · cases h
      · rename_i found hfound
        split_ifs at h with hlegal
        obtain ⟨rfl, rfl⟩ := Prod.mk.inj (Except.ok.inj h)
        exact ⟨hlegal, some c, rfl, scopeOf?_eq_some_iff.mp hfound, by simp⟩
    · rintro ⟨hlegal, letter?, htext, hscope, hslash⟩
      cases letter? with
      | none =>
          obtain rfl : '/' :: c :: more = rest := htext
          exact absurd rfl (hslash rfl)
      | some d =>
          simp only [scopeSuffix, List.cons_append, List.nil_append, List.cons.injEq,
            true_and] at htext
          obtain ⟨rfl, rfl⟩ := htext
          rw [scopeOf?_eq_some_iff.mpr hscope]
          simp only [if_pos hlegal]
  case h_3 hlone hslash =>
    constructor
    · intro h
      obtain ⟨rfl, rfl⟩ := Prod.mk.inj (Except.ok.inj h)
      refine ⟨TimeUnit.defaultScope_legal hunit, none, rfl, rfl, fun _ hhead => ?_⟩
      obtain ⟨more, rfl⟩ := List.head?_eq_some_iff.mp hhead
      cases more with
      | nil => exact hlone rfl
      | cons c more => exact hslash c more rfl
    · rintro ⟨-, letter?, rfl, hscope, -⟩
      cases letter? with
      | none =>
          obtain rfl : scope = unit.defaultScope := hscope
          rfl
      | some c => exact absurd rfl (hslash c rest)

end Letters

/-! ## Groups -/

section Groups

variable {time : Bool} {last : TimeUnit} {rules : RuleSet} {text rest : List Char} {rule : Rule}

theorem readGroup_eq_ok :
    readGroup time last rules text = .ok (rule, rest) ↔
      ∃ requirement afterValue unit afterUnit scope,
        readValue text = .ok (requirement, afterValue) ∧
        readUnit time afterValue = .ok (unit, afterUnit) ∧ last ≤ unit ∧
        readScope unit afterUnit = .ok (scope, rest) ∧ rules.get? unit scope = none ∧
        Rule.make unit (some scope) requirement = .ok rule := by
  unfold readGroup
  constructor
  · intro h
    split at h
    · cases h
    · rename_i requirement afterValue hvalue
      split at h
      · cases h
      · rename_i unit afterUnit hunit
        split_ifs at h with horder
        split at h
        · cases h
        · rename_i scope afterScope hscope
          split_ifs at h with hthere
          split at h
          · rename_i made hmade
            obtain ⟨rfl, rfl⟩ := Prod.mk.inj (Except.ok.inj h)
            exact ⟨_, _, _, _, _, hvalue, hunit, Nat.not_lt.mp horder, hscope,
              by simpa using hthere, hmade⟩
          · cases h
  · rintro ⟨requirement, afterValue, unit, afterUnit, scope, hvalue, hunit, horder, hscope, hnone,
      hmade⟩
    have hlt : ¬unit < last := Nat.not_lt.mpr horder
    simp only [hvalue, hunit, if_neg hlt, hscope, hnone, Option.isSome_none, Bool.false_eq_true,
      if_false, hmade]

/-- A group is read exactly as the grammar has it, if it comes in order and is not a repetition. -/
theorem readGroup_eq_ok_iff :
    readGroup time last rules text = .ok (rule, rest) ↔
      ∃ g : Group time, g.rule = rule ∧ text = g.chars ++ rest ∧
        (g.scope? = none → rest.head? ≠ some '/') ∧ last ≤ rule.unit ∧
        rules.get? rule.unit rule.scope = none := by
  rw [readGroup_eq_ok]
  constructor
  · rintro ⟨requirement, afterValue, unit, afterUnit, scope, hvalue, hunit, horder, hscope, hnone,
      hmade⟩
    obtain ⟨value, rfl, hmeans⟩ := exists_value_of_readValue hvalue
    obtain ⟨c, rfl, hletter⟩ := readUnit_eq_ok_iff.mp hunit
    obtain ⟨hlegal, letter?, rfl, hscope, hslash⟩ :=
      (readScope_eq_ok_iff (ne_epoch_of_letter hletter)).mp hscope
    obtain ⟨rfl, hruleScope, rfl⟩ := Rule.make_unit hmade
    rw [TimeUnit.normalizeScope_of_legal hlegal] at hruleScope
    subst hruleScope
    exact ⟨⟨value, c, letter?, rule, hmeans, hletter, hscope⟩, rfl, by simp [Group.chars], hslash,
      horder, hnone⟩
  · rintro ⟨g, rfl, rfl, hslash, horder, hnone⟩
    have hletter := g.letter_means
    refine ⟨g.rule.requirement, _, g.rule.unit, _, g.rule.scope, ?_,
      readUnit_eq_ok_iff.mpr ⟨g.letter, rfl, hletter⟩, horder,
      (readScope_eq_ok_iff (ne_epoch_of_letter hletter)).mpr
        ⟨g.rule.legal, g.scope?, rfl, g.scope_means, hslash⟩, hnone, Rule.make_parts g.rule⟩
    rw [Group.chars, List.append_assoc]
    refine readValue_append g.value_means ?_
    rintro c ⟨⟩
    exact isDigit_letter hletter

end Groups

/-! ## Rows of groups -/

/-- Rules that may stand in a notation one after the other. -/
def InOrder (rules : List Rule) : Prop :=
  rules.Pairwise fun a b => a.unit ≤ b.unit ∧ ¬(a.unit = b.unit ∧ a.scope = b.scope)

/-- What the reader keeps of the rules that it has read: their last unit, and the rules without
their order. -/
structure Kept (last : TimeUnit) (rules : RuleSet) (earlier : List Rule) : Prop where
  le_iff (unit : TimeUnit) : last ≤ unit ↔ ∀ a ∈ earlier, a.unit ≤ unit
  mem_iff (rule : Rule) : rule ∈ rules.toList ↔ rule ∈ earlier

namespace Kept

variable {last : TimeUnit} {rules : RuleSet} {earlier : List Rule} {rule : Rule}

theorem nil : Kept .epoch .empty [] :=
  ⟨fun unit => by simp [TimeUnit.le_def, TimeUnit.rank], fun _ => Iff.rfl⟩

/-- The reader lets a rule pass if and only if it may stand behind the earlier ones. -/
theorem passes_iff (h : Kept last rules earlier) :
    last ≤ rule.unit ∧ rules.get? rule.unit rule.scope = none ↔
      ∀ a ∈ earlier, a.unit ≤ rule.unit ∧ ¬(a.unit = rule.unit ∧ a.scope = rule.scope) := by
  rw [h.le_iff, RuleSet.get?_eq_none_iff]
  simp only [h.mem_iff]
  exact ⟨fun ⟨hle, hnew⟩ a ha => ⟨hle a ha, hnew a ha⟩,
    fun hall => ⟨fun a ha => (hall a ha).1, fun a ha => (hall a ha).2⟩⟩

theorem append (h : Kept last rules earlier) (horder : last ≤ rule.unit)
    (hnone : rules.get? rule.unit rule.scope = none) :
    Kept rule.unit (rules.insert rule) (earlier ++ [rule]) := by
  constructor
  case le_iff =>
    intro unit
    simp only [List.forall_mem_append, List.forall_mem_singleton]
    refine ⟨fun hle => ⟨fun a ha => ?_, hle⟩, And.right⟩
    exact Nat.le_trans ((h.le_iff _).mp horder a ha) hle
  case mem_iff =>
    intro a
    rw [RuleSet.mem_insert_of_get?_eq_none hnone, h.mem_iff]
    simp [or_comm]

end Kept

section Rows

variable {time : Bool} {last last' : TimeUnit} {rules rules' : RuleSet} {text rest : List Char}
  {earlier : List Rule}

/-- What is read as groups are groups in order. -/
theorem exists_groups_of_readGroups (h : readGroups time last rules text = .ok (last', rules', rest))
    (hkept : Kept last rules earlier) (hearlier : InOrder earlier) :
    isOver time rest = true ∧ ∃ groups : List (Group time),
      text = groups.flatMap Group.chars ++ rest ∧ InOrder (earlier ++ groups.map Group.rule) ∧
      Kept last' rules' (earlier ++ groups.map Group.rule) := by
  fun_induction readGroups time last rules text generalizing earlier with
  | case1 last rules text hover =>
      cases h
      exact ⟨hover, [], rfl, by simpa using hearlier, by simpa using hkept⟩
  | case2 => cases h
  | case3 last rules text hover rule more hgroup hshorter ih =>
      obtain ⟨g, rfl, rfl, -, horder, hnone⟩ := readGroup_eq_ok_iff.mp hgroup
      have hpasses := hkept.passes_iff.mp ⟨horder, hnone⟩
      have hearlier' : InOrder (earlier ++ [g.rule]) := by
        refine List.pairwise_append.mpr ⟨hearlier, List.pairwise_singleton _ _, ?_⟩
        simpa using hpasses
      obtain ⟨hrest, groups, rfl, hgroups, hkept'⟩ := ih h (hkept.append horder hnone) hearlier'
      rw [List.append_assoc] at hgroups hkept'
      exact ⟨hrest, g :: groups, by simp, hgroups, hkept'⟩

theorem isOver_group (g : Group time) (rest : List Char) :
    isOver time (g.chars ++ rest) = false := by
  obtain ⟨c, more, hchars, -, hc⟩ := g.head
  rw [hchars]
  simp [isOver, hc]

theorem head?_groups_ne_slash (groups : List (Group time)) (hslash : rest.head? ≠ some '/') :
    (groups.flatMap Group.chars ++ rest).head? ≠ some '/' := by
  cases groups with
  | nil => exact hslash
  | cons g groups =>
      obtain ⟨c, more, hchars, hc, -⟩ := g.head
      rw [List.flatMap_cons, hchars]
      simpa using hc

theorem readGroups_cons {rule : Rule} (hover : isOver time text = false)
    (hgroup : readGroup time last rules text = .ok (rule, rest)) :
    readGroups time last rules text = readGroups time rule.unit (rules.insert rule) rest := by
  rw [readGroups]
  simp only [hover, Bool.false_eq_true, if_false]
  split
  · rename_i stop hstop
    rw [hgroup] at hstop
    cases hstop
  · rename_i hread
    rw [hgroup] at hread
    cases hread
    rfl

/-- Groups in order are read up to the end of their part. -/
theorem exists_readGroups {groups : List (Group time)} (hrest : isOver time rest = true)
    (hslash : rest.head? ≠ some '/') (hkept : Kept last rules earlier)
    (horder : InOrder (earlier ++ groups.map Group.rule)) :
    ∃ last' rules', readGroups time last rules (groups.flatMap Group.chars ++ rest) =
        .ok (last', rules', rest) ∧ Kept last' rules' (earlier ++ groups.map Group.rule) := by
  induction groups generalizing last rules earlier with
  | nil =>
      refine ⟨last, rules, ?_, by simpa using hkept⟩
      rw [readGroups]
      simp only [List.flatMap_nil, List.nil_append, hrest, if_true]
  | cons g groups ih =>
      rw [List.map_cons, List.append_cons] at horder ⊢
      have hpasses : ∀ a ∈ earlier,
          a.unit ≤ g.rule.unit ∧ ¬(a.unit = g.rule.unit ∧ a.scope = g.rule.scope) := by
        have hpair := (List.pairwise_append.mp (List.pairwise_append.mp horder).1).2.2
        exact fun a ha => hpair a ha g.rule List.mem_cons_self
      obtain ⟨hle, hnone⟩ := hkept.passes_iff.mpr hpasses
      have hgroup : readGroup time last rules
          (g.chars ++ (groups.flatMap Group.chars ++ rest)) =
            .ok (g.rule, groups.flatMap Group.chars ++ rest) :=
        readGroup_eq_ok_iff.mpr
          ⟨g, rfl, rfl, fun _ => head?_groups_ne_slash groups hslash, hle, hnone⟩
      obtain ⟨last', rules', hread, hkept'⟩ := ih (hkept.append hle hnone) horder
      refine ⟨last', rules', ?_, hkept'⟩
      rw [List.flatMap_cons, List.append_assoc, readGroups_cons (isOver_group g _) hgroup, hread]

end Rows

/-! ## Notations -/

theorem isOver_true_iff {text : List Char} : isOver true text = true ↔ text = [] := by
  cases text <;> simp [isOver]

theorem isOver_timePart (times : List (Group true)) : isOver false (timePart times) = true := by
  cases times <;> rfl

theorem timePart_eq_cons_iff {times : List (Group true)} {rest : List Char} :
    timePart times = 'T' :: rest ↔ rest ≠ [] ∧ times.flatMap Group.chars = rest := by
  cases times with
  | nil => simp [timePart, eq_comm]
  | cons g times =>
      have hne : (g :: times).flatMap Group.chars ≠ [] := by
        obtain ⟨c, more, hchars, -, -⟩ := g.head
        simp [hchars]
      have htext : timePart (g :: times) = 'T' :: (g :: times).flatMap Group.chars := rfl
      rw [htext, List.cons.injEq]
      constructor
      · rintro ⟨-, rfl⟩
        exact ⟨hne, rfl⟩
      · rintro ⟨-, rfl⟩
        exact ⟨rfl, rfl⟩

theorem readTimes_cons_eq_ok_iff {last : TimeUnit} {rules rules' : RuleSet} {rest : List Char} :
    readTimes last rules ('T' :: rest) = .ok rules' ↔
      rest ≠ [] ∧ ∃ last' rest', readGroups true last rules rest = .ok (last', rules', rest') := by
  cases rest with
  | nil => simp [readTimes]
  | cons c more =>
      simp only [readTimes, ne_eq, reduceCtorEq, not_false_eq_true, true_and]
      cases readGroups true last rules (c :: more) with
      | error stop => simp [Functor.map, Except.map]
      | ok read =>
          obtain ⟨last', read', rest'⟩ := read
          simp [Functor.map, Except.map]

/-- The time units are read exactly as the grammar has them. -/
theorem readTimes_eq_ok_iff {last : TimeUnit} {rules rules' : RuleSet} {text : List Char}
    {earlier : List Rule} (hkept : Kept last rules earlier) (hearlier : InOrder earlier)
    (hover : isOver false text = true) :
    readTimes last rules text = .ok rules' ↔
      ∃ times : List (Group true), timePart times = text ∧
        InOrder (earlier ++ times.map Group.rule) ∧
        ∀ rule, rule ∈ rules'.toList ↔ rule ∈ earlier ++ times.map Group.rule := by
  cases text with
  | nil =>
      constructor
      · rintro ⟨⟩
        exact ⟨[], rfl, by simpa using hearlier, by simpa using hkept.mem_iff⟩
      · rintro ⟨times, htext, -, hrules⟩
        cases times with
        | nil =>
            refine congrArg Except.ok (RuleSet.eq_of_mem_iff fun rule => ?_)
            rw [hkept.mem_iff, hrules]
            simp
        | cons g times => cases htext
  | cons c rest =>
      -- The groups on date units end before a separator only.
      obtain rfl : c = 'T' := by simpa [isOver] using hover
      rw [readTimes_cons_eq_ok_iff]
      constructor
      · rintro ⟨hne, last', rest', hread⟩
        obtain ⟨hrest', times, htext, horder, hkept'⟩ :=
          exists_groups_of_readGroups hread hkept hearlier
        rw [isOver_true_iff.mp hrest', List.append_nil] at htext
        exact ⟨times, timePart_eq_cons_iff.mpr ⟨hne, htext.symm⟩, horder, hkept'.mem_iff⟩
      · rintro ⟨times, htext, horder, hrules⟩
        obtain ⟨hne, rfl⟩ := timePart_eq_cons_iff.mp htext
        obtain ⟨last', read, hread, hkept'⟩ :=
          exists_readGroups (show isOver true [] = true from rfl) (by simp) hkept horder
        have hrules' : read = rules' :=
          RuleSet.eq_of_mem_iff fun rule => by rw [hkept'.mem_iff, hrules]
        rw [List.append_nil, hrules'] at hread
        exact ⟨hne, last', [], hread⟩

theorem Spelling.inOrder (n : Spelling) : InOrder n.rules := n.ordered.and n.distinct

/-- A text is read if and only if it has a spelling, and the rules are those of the spelling. -/
theorem readChars_eq_ok_iff {text : List Char} {rules : RuleSet} :
    readChars text = .ok rules ↔
      ∃ n : Spelling, text = n.chars ∧ ∀ rule, rule ∈ rules.toList ↔ rule ∈ n.rules := by
  constructor
  · intro h
    unfold readChars at h
    split at h
    case h_2 => cases h
    case h_1 inner =>
      split at h
      · cases h
      · rename_i last dateRules rest hdates
        obtain ⟨hover, dates, rfl, hdatesOrder, hkept⟩ :=
          exists_groups_of_readGroups hdates .nil List.Pairwise.nil
        rw [List.nil_append] at hdatesOrder hkept
        obtain ⟨times, rfl, horder, hrules⟩ :=
          (readTimes_eq_ok_iff hkept hdatesOrder hover).mp h
        exact ⟨⟨dates, times, horder.imp And.left, horder.imp And.right⟩, rfl, hrules⟩
  · rintro ⟨n, rfl, hrules⟩
    have hover := isOver_timePart n.times
    have hslash : (timePart n.times).head? ≠ some '/' := by
      cases n.times <;> simp [timePart]
    have horder := n.inOrder
    have hdatesOrder : InOrder (n.dates.map Group.rule) := (List.pairwise_append.mp horder).1
    obtain ⟨last, dateRules, hdates, hkept⟩ :=
      exists_readGroups hover hslash .nil (by rwa [List.nil_append])
    rw [List.nil_append] at hkept
    have hread := (readTimes_eq_ok_iff hkept hdatesOrder hover).mpr ⟨n.times, rfl, horder, hrules⟩
    simp only [readChars, Spelling.chars, List.cons_append, hdates, hread]

theorem parse_eq_ok_iff {s : String} {rules : RuleSet} :
    parse s = .ok rules ↔
      ∃ n : Spelling, n.text = s ∧ ∀ rule, rule ∈ rules.toList ↔ rule ∈ n.rules := by
  have hread : parse s = .ok rules ↔ readChars s.toList = .ok rules := by
    unfold parse
    cases readChars s.toList <;> simp
  rw [hread, readChars_eq_ok_iff]
  refine exists_congr fun n => and_congr_left fun _ => ?_
  rw [Spelling.text, ← String.toList_inj, String.toList_ofList, eq_comm]

theorem Spelling.mem_ofList (n : Spelling) (rule : Rule) :
    rule ∈ (RuleSet.ofList n.rules).toList ↔ rule ∈ n.rules :=
  RuleSet.mem_ofList_iff (n.distinct.imp fun hne heq => hne (Rule.place_eq_iff.mp heq))

/-- The texts that are read are those that have a spelling, and what is read are the rules of the
spelling, no more and no less.  All other texts are malformed. -/
theorem parse_spelling (s : String) :
    (∀ rules, parse s = .ok rules ↔
      ∃ n : Spelling, n.text = s ∧ ∀ rule, rule ∈ rules.toList ↔ rule ∈ n.rules) ∧
    ((∃ rules, parse s = .ok rules) ↔ ∃ n : Spelling, n.text = s) ∧
    ((∃ fault offset, parse s = .error (.malformed s fault offset)) ↔
      ¬∃ n : Spelling, n.text = s) := by
  have hread : (∃ rules, parse s = .ok rules) ↔ ∃ n : Spelling, n.text = s := by
    constructor
    · rintro ⟨rules, h⟩
      obtain ⟨n, hn, -⟩ := parse_eq_ok_iff.mp h
      exact ⟨n, hn⟩
    · rintro ⟨n, hn⟩
      exact ⟨_, parse_eq_ok_iff.mpr ⟨n, hn, n.mem_ofList⟩⟩
  refine ⟨fun rules => parse_eq_ok_iff, hread, ?_⟩
  rw [← hread, parse]
  cases readChars s.toList with
  | ok rules => simp
  | error stop => simp

end Cadence.Notation

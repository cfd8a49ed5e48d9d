import Cadence.Notation.Parser

/-!
# The grammar of notation

A notation is the letter `F`, groups on date units and, after a `T`, groups on time units.  A group
is a value, the letter of a unit and, after a slash, the letter of a scope.  Here the grammar is
stated on its own, without the reader: a `Group` is a piece of text together with the rule that it
stands for, and a `Spelling` is a row of groups, in order and without repetition.  That the rule of
a group has a legal scope, and no number if it is on years, is part of the type of rules.
-/

namespace Cadence.Notation

/-- The letters of the date units. -/
def dateLetters : List (Char × TimeUnit) :=
  [('Y', .year), ('M', .month), ('W', .week), ('D', .day)]

/-- The letters of the time units. -/
def timeLetters : List (Char × TimeUnit) := [('H', .hour), ('M', .minute), ('S', .second)]

/-- The letters of the units of a part of the notation. -/
def unitLetters (time : Bool) : List (Char × TimeUnit) := if time then timeLetters else dateLetters

/-- The letters of the scopes.  The hour has two. -/
def scopeLetters : List (Char × TimeUnit) :=
  [('E', .epoch), ('Y', .year), ('M', .month), ('W', .week), ('D', .day), ('h', .hour),
    ('H', .hour), ('m', .minute)]

/-- What the value of a group requires.  A row of digits is a number, which must be one of 64 bits,
and a word in parentheses names a predicate. -/
inductive ValueMeans : List Char → Requirement → Prop
  | number {digits : List Char} {n : Int64} (hne : digits ≠ [])
      (hdigits : ∀ c ∈ digits, Text.isDigit c = true) (hvalue : n.toInt = Text.value digits) :
      ValueMeans digits (.fixed n)
  | word {name : List Char} (hne : name ≠ []) (hname : ∀ c ∈ name, isNameChar c = true) :
      ValueMeans ('(' :: (name ++ [')'])) (.predicate (String.ofList name))

/-- What the end of a group means for its unit: without a letter the default scope, else the scope
with the letter. -/
def ScopeMeans (unit : TimeUnit) : Option Char → TimeUnit → Prop
  | none, scope => scope = unit.defaultScope
  | some c, scope => (c, scope) ∈ scopeLetters

/-- The end of a group, empty or a slash and a letter. -/
def scopeSuffix : Option Char → List Char
  | none => []
  | some c => ['/', c]

/-- A group of the date units or of the time units, and the rule that it stands for. -/
structure Group (time : Bool) where
  value : List Char
  letter : Char
  scope? : Option Char
  rule : Rule
  value_means : ValueMeans value rule.requirement
  letter_means : (letter, rule.unit) ∈ unitLetters time
  scope_means : ScopeMeans rule.unit scope? rule.scope

/-- The text of a group. -/
def Group.chars {time : Bool} (g : Group time) : List Char :=
  g.value ++ g.letter :: scopeSuffix g.scope?

/-- The text of the time units, with their separator.  Without any of them it is empty. -/
def timePart : List (Group true) → List Char
  | [] => []
  | times => 'T' :: times.flatMap Group.chars

/-- Groups that make up a notation: units never get coarser, and none comes twice within the same
scope. -/
structure Spelling where
  dates : List (Group false)
  times : List (Group true)
  ordered : (dates.map Group.rule ++ times.map Group.rule).Pairwise fun a b => a.unit ≤ b.unit
  distinct : (dates.map Group.rule ++ times.map Group.rule).Pairwise fun a b =>
    ¬(a.unit = b.unit ∧ a.scope = b.scope)

namespace Spelling

/-- The rules that the groups stand for. -/
def rules (n : Spelling) : List Rule := n.dates.map Group.rule ++ n.times.map Group.rule

/-- The characters of a notation. -/
def chars (n : Spelling) : List Char := 'F' :: n.dates.flatMap Group.chars ++ timePart n.times

/-- A notation as text. -/
def text (n : Spelling) : String := String.ofList n.chars

end Spelling

/-! ## Characters -/

theorem isDigit_letter {time : Bool} {c : Char} {unit : TimeUnit}
    (h : (c, unit) ∈ unitLetters time) : Text.isDigit c = false := by
  have hall : ∀ entry ∈ unitLetters time, Text.isDigit entry.1 = false := by
    cases time <;> decide
  exact hall _ h

theorem ne_epoch_of_letter {time : Bool} {c : Char} {unit : TimeUnit}
    (h : (c, unit) ∈ unitLetters time) : unit ≠ .epoch := by
  have hall : ∀ entry ∈ unitLetters time, entry.2 ≠ .epoch := by
    cases time <;> decide
  exact hall _ h

theorem isNameChar_close : isNameChar ')' = false := by decide +kernel

/-- A value begins with a digit or a parenthesis, and not like the end of a group. -/
theorem ValueMeans.head {value : List Char} {requirement : Requirement}
    (h : ValueMeans value requirement) : ∃ c rest, value = c :: rest ∧ c ≠ '/' ∧ c ≠ 'T' := by
  cases h with
  | @number _ n hne hdigits hvalue =>
      obtain ⟨c, rest, rfl⟩ := List.exists_cons_of_ne_nil hne
      have hc := hdigits c List.mem_cons_self
      refine ⟨c, rest, rfl, ?_, ?_⟩
      · rintro rfl
        exact absurd hc (by decide)
      · rintro rfl
        exact absurd hc (by decide)
  | word hne hname => exact ⟨'(', _, rfl, by decide, by decide⟩

theorem Group.head {time : Bool} (g : Group time) :
    ∃ c rest, g.chars = c :: rest ∧ c ≠ '/' ∧ c ≠ 'T' := by
  obtain ⟨c, rest, hvalue, hc⟩ := g.value_means.head
  exact ⟨c, rest ++ g.letter :: scopeSuffix g.scope?, by rw [Group.chars, hvalue]; rfl, hc⟩

end Cadence.Notation

import Cadence.RuleSet
import Cadence.Text.Alphanumeric
import Cadence.Text.Decimal
import Cadence.Text.Utf8

/-!
# Reading notation

Notation is read from left to right.  Each step takes what is left of the text and returns what is
left after it, so the place of a fault is known from the rest: `Notation.parse` reports how many
bytes stand before it.
-/

namespace Cadence.Notation

/-- Why reading stopped, and what was left of the text by then. -/
structure Stop where
  fault : Fault
  rest : List Char
deriving DecidableEq

/-- The characters of predicate names. -/
def isNameChar (c : Char) : Bool := Text.isAlphanumeric c || c == '_'

/-- The least number that is too big for a rule. -/
def valueLimit : Nat := 9223372036854775808

/-- Reads a predicate name up to its closing parenthesis. -/
def readName (text : List Char) : Except Stop (Requirement × List Char) :=
  let name := text.takeWhile isNameChar
  let rest := text.dropWhile isNameChar
  if name = [] then
    .error ⟨.missingName, rest⟩
  else
    match rest with
    | ')' :: after => .ok (.predicate (String.ofList name), after)
    | _ => .error ⟨.unclosedName, rest⟩

/-- Reads a number. -/
def readNumber (text : List Char) : Except Stop (Requirement × List Char) :=
  let digits := text.takeWhile Text.isDigit
  let rest := text.dropWhile Text.isDigit
  if digits = [] then
    .error ⟨.missingValue, rest⟩
  else if Text.value digits < valueLimit then
    .ok (.fixed (Int64.ofNat (Text.value digits)), rest)
  else
    .error ⟨.tooBig (String.ofList digits), rest⟩

/-- Reads the value of a group: a number, or a predicate name in parentheses. -/
def readValue : List Char → Except Stop (Requirement × List Char)
  | '(' :: rest => readName rest
  | text => readNumber text

/-- The date unit with a letter, or what is wrong with the letter among the date units. -/
def dateUnit : Char → Except Fault TimeUnit
  | 'Y' => .ok .year
  | 'M' => .ok .month
  | 'W' => .ok .week
  | 'D' => .ok .day
  | 'H' | 'S' => .error .timeUnitTooEarly
  | c => .error (.unknownUnit c)

/-- The time unit with a letter, or what is wrong with the letter among the time units. -/
def timeUnit : Char → Except Fault TimeUnit
  | 'H' => .ok .hour
  | 'M' => .ok .minute
  | 'S' => .ok .second
  | 'Y' | 'W' | 'D' => .error .dateUnitTooLate
  | c => .error (.unknownUnit c)

/-- Reads the letter of a unit.  What it means depends on the part of the notation. -/
def readUnit (time : Bool) : List Char → Except Stop (TimeUnit × List Char)
  | [] => .error ⟨.missingUnit, []⟩
  | c :: rest =>
      match if time then timeUnit c else dateUnit c with
      | .ok unit => .ok (unit, rest)
      | .error fault => .error ⟨fault, c :: rest⟩

/-- The scope with a code.  The hour may be written in either case. -/
def scopeOf? : Char → Option TimeUnit
  | 'E' => some .epoch
  | 'Y' => some .year
  | 'M' => some .month
  | 'W' => some .week
  | 'D' => some .day
  | 'h' | 'H' => some .hour
  | 'm' => some .minute
  | _ => none

/-- Reads the scope of a unit, the default one when no slash follows. -/
def readScope (unit : TimeUnit) : List Char → Except Stop (TimeUnit × List Char)
  | ['/'] => .error ⟨.missingScope, []⟩
  | '/' :: c :: rest =>
      match scopeOf? c with
      | none => .error ⟨.unknownScope c, c :: rest⟩
      | some scope =>
          if unit.isLegalScope scope then
            .ok (scope, rest)
          else
            .error ⟨.illegalScope unit scope, rest⟩
  | rest => .ok (unit.defaultScope, rest)

/-- Reads one group.  Its unit may not be coarser than `last`, and its unit and scope may not
carry a rule already. -/
def readGroup (time : Bool) (last : TimeUnit) (rules : RuleSet) (text : List Char) :
    Except Stop (Rule × List Char) :=
  match readValue text with
  | .error stop => .error stop
  | .ok (requirement, rest) =>
      match readUnit time rest with
      | .error stop => .error stop
      | .ok (unit, rest) =>
          if unit < last then
            .error ⟨.outOfOrder unit last, rest⟩
          else
            match readScope unit rest with
            | .error stop => .error stop
            | .ok (scope, rest) =>
                if (rules.get? unit scope).isSome then
                  .error ⟨.repeated unit scope, rest⟩
                else
                  match Rule.make unit (some scope) requirement with
                  | .ok rule => .ok (rule, rest)
                  | .error _ => .error ⟨.fixedYear, rest⟩

/-- Whether a part of the notation is over: the text is at its end, or, among the date units, at
the separator of the time units. -/
def isOver (time : Bool) : List Char → Bool
  | [] => true
  | c :: _ => !time && c == 'T'

theorem length_dropWhile_lt {p : Char → Bool} {text : List Char} (h : text.takeWhile p ≠ []) :
    (text.dropWhile p).length < text.length := by
  have hlength := congrArg List.length (List.takeWhile_append_dropWhile (p := p) (l := text))
  have hpos : 0 < (text.takeWhile p).length := List.length_pos_iff.mpr h
  simp only [List.length_append] at hlength
  omega

theorem readName_shorter {text rest : List Char} {requirement : Requirement}
    (h : readName text = .ok (requirement, rest)) : rest.length < text.length := by
  simp only [readName] at h
  split at h
  · simp at h
  · rename_i hname
    have hlt := length_dropWhile_lt hname
    split at h
    · rename_i after heq
      rw [heq] at hlt
      obtain ⟨_, rfl⟩ := Prod.mk.inj (Except.ok.inj h)
      simp only [List.length_cons] at hlt
      omega
    · simp at h

theorem readNumber_shorter {text rest : List Char} {requirement : Requirement}
    (h : readNumber text = .ok (requirement, rest)) : rest.length < text.length := by
  simp only [readNumber] at h
  split at h
  · simp at h
  · rename_i hdigits
    split at h
    · obtain ⟨_, rfl⟩ := Prod.mk.inj (Except.ok.inj h)
      exact length_dropWhile_lt hdigits
    · simp at h

theorem readValue_shorter {text rest : List Char} {requirement : Requirement}
    (h : readValue text = .ok (requirement, rest)) : rest.length < text.length := by
  unfold readValue at h
  split at h
  · have := readName_shorter h
    simp only [List.length_cons]
    omega
  · exact readNumber_shorter h

theorem readUnit_shorter {time : Bool} {text rest : List Char} {unit : TimeUnit}
    (h : readUnit time text = .ok (unit, rest)) : rest.length < text.length := by
  unfold readUnit at h
  split at h
  · simp at h
  · split at h
    · obtain ⟨_, rfl⟩ := Prod.mk.inj (Except.ok.inj h)
      simp
    · simp at h

theorem readScope_length_le {unit scope : TimeUnit} {text rest : List Char}
    (h : readScope unit text = .ok (scope, rest)) : rest.length ≤ text.length := by
  unfold readScope at h
  split at h
  · simp at h
  · split at h
    · simp at h
    · split at h
      · obtain ⟨_, rfl⟩ := Prod.mk.inj (Except.ok.inj h)
        simp only [List.length_cons]
        omega
      · simp at h
  · obtain ⟨_, rfl⟩ := Prod.mk.inj (Except.ok.inj h)
    exact Nat.le_refl _

/-- A group takes up at least one character. -/
theorem readGroup_shorter {time : Bool} {last : TimeUnit} {rules : RuleSet}
    {text rest : List Char} {rule : Rule}
    (h : readGroup time last rules text = .ok (rule, rest)) : rest.length < text.length := by
  unfold readGroup at h
  split at h
  · simp at h
  · rename_i hvalue
    have h₁ := readValue_shorter hvalue
    split at h
    · simp at h
    · rename_i hunit
      have h₂ := readUnit_shorter hunit
      split at h
      · simp at h
      · split at h
        · simp at h
        · rename_i hscope
          have h₃ := readScope_length_le hscope
          split at h
          · simp at h
          · split at h
            · obtain ⟨_, rfl⟩ := Prod.mk.inj (Except.ok.inj h)
              omega
            · simp at h

/-- Reads the groups of one part.  Returns the last unit, the rules and the rest. -/
def readGroups (time : Bool) (last : TimeUnit) (rules : RuleSet) (text : List Char) :
    Except Stop (TimeUnit × RuleSet × List Char) :=
  if isOver time text then
    .ok (last, rules, text)
  else
    match h : readGroup time last rules text with
    | .error stop => .error stop
    | .ok (rule, rest) =>
        have := readGroup_shorter h
        readGroups time rule.unit (rules.insert rule) rest
termination_by text.length

/-- Reads what follows the date units. -/
def readTimes (last : TimeUnit) (rules : RuleSet) : List Char → Except Stop RuleSet
  | ['T'] => .error ⟨.missingTime, []⟩
  | 'T' :: rest => (fun read => read.2.1) <$> readGroups true last rules rest
  | _ => .ok rules

/-- Reads a whole notation. -/
def readChars : List Char → Except Stop RuleSet
  | 'F' :: rest =>
      match readGroups false .epoch .empty rest with
      | .error stop => .error stop
      | .ok (last, rules, rest) => readTimes last rules rest
  | text => .error ⟨.missingStart, text⟩

/-- The number of bytes before the rest of a text, unless nothing is left. -/
def offset? (text rest : List Char) : Option Nat :=
  if rest = [] then none else some (Text.Utf8.byteLength text - Text.Utf8.byteLength rest)

/-- The rules that a notation denotes. -/
def parse (text : String) : Except Error RuleSet :=
  match readChars text.toList with
  | .ok rules => .ok rules
  | .error stop => .error (.malformed text stop.fault (offset? text.toList stop.rest))

end Cadence.Notation

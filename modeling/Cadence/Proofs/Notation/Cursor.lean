import Cadence.Logged
import Cadence.Proofs.Notation.Reading

/-!
# Reading notation at byte positions

Notation can also be read by a cursor that stands at a byte position of the text and moves by single
bytes, by the length of a character or by the length of characters that were scanned.  It looks at
the text by cutting it at its position, which is only possible between two characters
(`cut?_eq_some_iff`).

The cursor is compared with the reader of characters: it should stand before what is left of the text
(`StandsBefore`), and land there with the same value or fault (`Agrees`).  Here this is shown of the
moves that it is made of.
-/

namespace Cadence.Notation

open Text.Utf8

/-- Why a cursor stops. -/
inductive Halt
  /-- The text was cut within a character or behind its end. -/
  | miscut
  /-- More groups were read than allowed. -/
  | exhausted
  /-- The notation is refused at a byte position. -/
  | refused (fault : Fault) (pos : Nat)

/-- A reader that stands at a byte position.  It tells every position that it moves to. -/
abbrev Cursor (α : Type) := StateT Nat (Logged Nat Halt) α

/-- The characters before and after a byte position, if no character lies across it. -/
def cut? : List Char → Nat → Option (List Char × List Char)
  | text, 0 => some ([], text)
  | [], _ + 1 => none
  | c :: rest, pos + 1 =>
      if c.utf8Size ≤ pos + 1 then
        (cut? rest (pos + 1 - c.utf8Size)).map fun parts => (c :: parts.1, parts.2)
      else none

/-- The number of bytes before the first character that a condition refuses. -/
def scanned (p : Char → Bool) : List Char → Nat
  | [] => 0
  | c :: rest => if p c then c.utf8Size + scanned p rest else 0

namespace Cursor

variable {α : Type}

/-- Stops where the cursor stands. -/
def refuse (fault : Fault) : Cursor α := fun pos => Logged.fail (.refused fault pos)

/-- Moves on by a number of bytes. -/
def advance (bytes : Nat) : Cursor Unit := fun pos => ⟨[pos + bytes], .ok ((), pos + bytes)⟩

/-- Cuts a text at a byte position. -/
def cut (text : List Char) (pos : Nat) : Cursor (List Char × List Char) :=
  match cut? text pos with
  | some parts => pure parts
  | none => fun _ => Logged.fail .miscut

variable (text : List Char)

/-- What is left of the text. -/
def rest : Cursor (List Char) := do
  let parts ← cut text (← get)
  pure parts.2

/-- The next character. -/
def peek : Cursor (Option Char) := do
  let rest ← rest text
  pure rest.head?

/-- Whether the cursor stands at the end of the text. -/
def isDone : Cursor Bool := do
  let pos ← get
  pure (byteLength text ≤ pos)

/-- Moves behind a character if it is the next one, and says whether it was. -/
def eat (c : Char) : Cursor Bool := do
  if (← peek text) = some c then
    advance c.utf8Size
    pure true
  else
    pure false

/-- Moves behind all characters that a condition accepts. -/
def takeWhile (p : Char → Bool) : Cursor (List Char) := do
  let rest ← rest text
  advance (scanned p rest)
  let parts ← cut rest (scanned p rest)
  pure parts.1

/-- Reads the value of a group. -/
def value : Cursor Requirement := do
  if ← eat text '(' then
    let name ← takeWhile text isNameChar
    if name = [] then
      refuse .missingName
    else if ← eat text ')' then
      pure (.predicate (String.ofList name))
    else
      refuse .unclosedName
  else
    let digits ← takeWhile text Text.isDigit
    if digits = [] then
      refuse .missingValue
    else if Text.value digits < valueLimit then
      pure (.fixed (Int64.ofNat (Text.value digits)))
    else
      refuse (.tooBig (String.ofList digits))

/-- Reads the letter of a unit. -/
def unit (time : Bool) : Cursor TimeUnit := do
  match ← peek text with
  | none => refuse .missingUnit
  | some c =>
      match if time then timeUnit c else dateUnit c with
      | .ok unit => do
          advance 1
          pure unit
      | .error fault => refuse fault

/-- Reads the code of a scope. -/
def scope : Cursor TimeUnit := do
  match ← peek text with
  | none => refuse .missingScope
  | some c =>
      match scopeOf? c with
      | some scope => do
          advance 1
          pure scope
      | none => refuse (.unknownScope c)

/-- Reads the scope of a unit, the default one when no slash follows. -/
def scopeWithin (unit : TimeUnit) : Cursor TimeUnit := do
  if ← eat text '/' then
    let scope ← scope text
    if unit.isLegalScope scope then pure scope else refuse (.illegalScope unit scope)
  else
    pure unit.defaultScope

/-- Reads one group. -/
def group (time : Bool) (last : TimeUnit) (rules : RuleSet) : Cursor Rule := do
  let requirement ← value text
  let unit ← unit text time
  if unit < last then
    refuse (.outOfOrder unit last)
  else
    let scope ← scopeWithin text unit
    if (rules.get? unit scope).isSome then
      refuse (.repeated unit scope)
    else
      match Rule.make unit (some scope) requirement with
      | .ok rule => pure rule
      | .error _ => refuse .fixedYear

/-- Whether a part of the notation is over. -/
def isOver (time : Bool) : Cursor Bool := do
  if ← isDone text then
    pure true
  else if time then
    pure false
  else
    pure ((← peek text) = some 'T')

/-- Reads the groups of one part, at most a number of them. -/
def groups (time : Bool) : Nat → TimeUnit → RuleSet → Cursor (TimeUnit × RuleSet)
  | most, last, rules => do
      if ← isOver text time then
        pure (last, rules)
      else
        match most with
        | 0 => fun _ => Logged.fail .exhausted
        | most + 1 => do
            let rule ← group text time last rules
            groups time most rule.unit (rules.insert rule)

/-- Reads what follows the date units. -/
def times (last : TimeUnit) (rules : RuleSet) : Cursor RuleSet := do
  if ← eat text 'T' then
    if ← isDone text then
      refuse .missingTime
    else
      let read ← groups text true text.length last rules
      pure read.2
  else
    pure rules

/-- Reads a whole notation. -/
def all : Cursor RuleSet := do
  if ← eat text 'F' then
    let read ← groups text false text.length .epoch .empty
    times text read.1 read.2
  else
    refuse .missingStart

end Cursor

/-- Reads a notation from its first byte on, and tells all positions. -/
def readAtPositions (text : String) : Logged Nat Halt RuleSet := do
  Logged.tell 0
  let (rules, _) ← (Cursor.all text.toList).run 0
  pure rules

/-! ## Between characters -/

/-- A byte position stands before what is left of a text. -/
def StandsBefore (text rest : List Char) (pos : Nat) : Prop :=
  ∃ front, text = front ++ rest ∧ pos = byteLength front

variable {text rest passed : List Char} {pos : Nat}

theorem cut?_append (front rest : List Char) :
    cut? (front ++ rest) (byteLength front) = some (front, rest) := by
  induction front with
  | nil => cases rest <;> rfl
  | cons c front ih =>
      have hpos := c.utf8Size_pos
      obtain ⟨n, hn⟩ : ∃ n, byteLength (c :: front) = n + 1 :=
        ⟨c.utf8Size - 1 + byteLength front, by rw [byteLength]; omega⟩
      have hrest : n + 1 - c.utf8Size = byteLength front := by
        rw [← hn, byteLength]
        omega
      have hle : c.utf8Size ≤ n + 1 := by
        rw [← hn, byteLength]
        omega
      rw [hn, List.cons_append, cut?, if_pos hle, hrest, ih]
      rfl

/-- A text can be cut at a byte position if and only if that lies between two characters. -/
theorem cut?_eq_some_iff {front : List Char} :
    cut? text pos = some (front, rest) ↔ text = front ++ rest ∧ pos = byteLength front := by
  constructor
  · intro h
    fun_induction cut? text pos generalizing front with
    | case1 text =>
        cases h
        exact ⟨rfl, rfl⟩
    | case2 => cases h
    | case3 c more n hle ih =>
        obtain ⟨⟨front', rest'⟩, hparts, heq⟩ := Option.map_eq_some_iff.mp h
        obtain ⟨rfl, rfl⟩ := Prod.mk.inj heq
        obtain ⟨rfl, hpos⟩ := ih hparts
        refine ⟨rfl, ?_⟩
        show n + 1 = c.utf8Size + byteLength front'
        omega
    | case4 => cases h
  · rintro ⟨rfl, rfl⟩
    exact cut?_append front rest

theorem scanned_eq (p : Char → Bool) (text : List Char) :
    scanned p text = byteLength (text.takeWhile p) := by
  induction text with
  | nil => rfl
  | cons c text ih =>
      rw [scanned, List.takeWhile_cons]
      split
      · rw [ih, byteLength]
      · rfl

theorem StandsBefore.zero (text : List Char) : StandsBefore text text 0 := ⟨[], rfl, rfl⟩

theorem StandsBefore.length_le (h : StandsBefore text rest pos) : rest.length ≤ text.length := by
  obtain ⟨front, rfl, rfl⟩ := h
  rw [List.length_append]
  exact Nat.le_add_left _ _

theorem StandsBefore.advance (h : StandsBefore text (passed ++ rest) pos) :
    StandsBefore text rest (pos + byteLength passed) := by
  obtain ⟨front, rfl, rfl⟩ := h
  exact ⟨front ++ passed, by rw [List.append_assoc], by rw [byteLength_append]⟩

/-- The end of the text is behind all characters. -/
theorem StandsBefore.le_iff (h : StandsBefore text rest pos) :
    byteLength text ≤ pos ↔ rest = [] := by
  obtain ⟨front, rfl, rfl⟩ := h
  rw [byteLength_append]
  cases rest with
  | nil => simp [byteLength]
  | cons c rest =>
      have hpos := c.utf8Size_pos
      simp only [byteLength, reduceCtorEq, iff_false]
      omega

/-! ## Agreement -/

variable {α β : Type}

/-- A cursor lands where a reader of characters does, with the same value or fault. -/
inductive Lands (text : List Char) : Except Stop (α × List Char) → Except Halt (α × Nat) → Prop
  | read {a : α} {rest : List Char} {pos : Nat} (h : StandsBefore text rest pos) :
      Lands text (.ok (a, rest)) (.ok (a, pos))
  | refused {fault : Fault} {rest : List Char} {pos : Nat} (h : StandsBefore text rest pos) :
      Lands text (.error ⟨fault, rest⟩) (.error (.refused fault pos))

/-- A cursor lands where a reader of characters does and has stood between characters only. -/
structure Agrees (text : List Char) (result : Except Stop (α × List Char))
    (run : Logged Nat Halt (α × Nat)) : Prop where
  told : ∀ pos ∈ run.entries, ∃ rest, StandsBefore text rest pos
  lands : Lands text result run.result

namespace Agrees

variable {result : Except Stop (α × List Char)}

theorem pure (h : StandsBefore text rest pos) (a : α) :
    Agrees text (.ok (a, rest)) ((Pure.pure a : Cursor α) pos) :=
  ⟨fun _ hpos => absurd hpos List.not_mem_nil, .read h⟩

theorem refuse (h : StandsBefore text rest pos) (fault : Fault) :
    Agrees text (.error ⟨fault, rest⟩ : Except Stop (α × List Char)) (Cursor.refuse fault pos) :=
  ⟨fun _ hpos => absurd hpos List.not_mem_nil, .refused h⟩

theorem bind {m : Cursor α} {k : α → Cursor β} {more : α × List Char → Except Stop (β × List Char)}
    (h : Agrees text result (m pos))
    (hk : ∀ a rest pos', result = .ok (a, rest) → StandsBefore text rest pos' →
      Agrees text (more (a, rest)) (k a pos')) :
    Agrees text (result.bind more) ((m >>= k) pos) := by
  obtain ⟨told, lands⟩ := h
  -- What the second cursor tells comes behind what the first one told.
  have hrun : (m >>= k) pos = (m pos).andThen fun read => k read.1 read.2 := rfl
  rw [hrun]
  generalize m pos = run at told lands
  obtain ⟨entries, outcome⟩ := run
  cases lands with
  | @read a rest pos' hstands =>
      obtain ⟨told', lands'⟩ := hk a rest pos' rfl hstands
      refine ⟨fun p hp => ?_, lands'⟩
      rcases List.mem_append.mp hp with hp | hp
      · exact told p hp
      · exact told' p hp
  | refused hstands => exact ⟨told, .refused hstands⟩

/-! ### Single moves -/

variable {k : Unit → Cursor β} {outcome : Except Stop (β × List Char)}

theorem advance_bind {bytes : Nat} (h : StandsBefore text (passed ++ rest) pos)
    (hbytes : bytes = byteLength passed)
    (hk : ∀ pos', StandsBefore text rest pos' → Agrees text outcome (k () pos')) :
    Agrees text outcome ((Cursor.advance bytes >>= k) pos) := by
  subst hbytes
  have hthere := h.advance
  obtain ⟨told, lands⟩ := hk _ hthere
  refine ⟨fun p hp => ?_, lands⟩
  rcases List.mem_cons.mp hp with rfl | hp
  · exact ⟨rest, hthere⟩
  · exact told p hp

theorem advance_char_bind {c : Char} {bytes : Nat} (h : StandsBefore text (c :: rest) pos)
    (hbytes : bytes = c.utf8Size)
    (hk : ∀ pos', StandsBefore text rest pos' → Agrees text outcome (k () pos')) :
    Agrees text outcome ((Cursor.advance bytes >>= k) pos) := by
  have hpassed : StandsBefore text ([c] ++ rest) pos := h
  exact advance_bind hpassed (by simpa [byteLength] using hbytes) hk

end Agrees

/-! ### Looking at the text -/

theorem cut_append (front rest : List Char) :
    Cursor.cut (front ++ rest) (byteLength front) = Pure.pure (front, rest) := by
  rw [Cursor.cut, cut?_eq_some_iff.mpr ⟨rfl, rfl⟩]

namespace StandsBefore

variable (h : StandsBefore text rest pos)

include h

theorem rest_bind (k : List Char → Cursor β) :
    (Cursor.rest text >>= k) pos = k rest pos := by
  obtain ⟨front, rfl, rfl⟩ := h
  rw [Cursor.rest, bind_assoc]
  show ((Cursor.cut (front ++ rest) (byteLength front) >>= fun parts => Pure.pure parts.2) >>= k)
    (byteLength front) = _
  rw [cut_append, pure_bind, pure_bind]

theorem peek_bind (k : Option Char → Cursor β) :
    (Cursor.peek text >>= k) pos = k rest.head? pos := by
  rw [Cursor.peek, bind_assoc, h.rest_bind, pure_bind]

theorem isDone_bind (k : Bool → Cursor β) :
    (Cursor.isDone text >>= k) pos = k (decide (rest = [])) pos := by
  have hdone : Cursor.isDone text pos = Pure.pure (decide (rest = []), pos) := by
    simp only [← h.le_iff]
    rfl
  show (Cursor.isDone text pos >>= fun read => k read.1 read.2) = _
  rw [hdone, pure_bind]

theorem eat_bind_of_ne {c : Char} (hne : rest.head? ≠ some c) (k : Bool → Cursor β) :
    (Cursor.eat text c >>= k) pos = k false pos := by
  rw [Cursor.eat, bind_assoc, h.peek_bind, if_neg hne, pure_bind]

end StandsBefore

namespace Agrees

variable {outcome : Except Stop (β × List Char)}

theorem eat_bind {c : Char} (h : StandsBefore text (c :: rest) pos) {k : Bool → Cursor β}
    (hk : ∀ pos', StandsBefore text rest pos' → Agrees text outcome (k true pos')) :
    Agrees text outcome ((Cursor.eat text c >>= k) pos) := by
  rw [Cursor.eat, bind_assoc, h.peek_bind, List.head?_cons, if_pos rfl, bind_assoc]
  refine advance_char_bind h rfl fun pos' h' => ?_
  rw [pure_bind]
  exact hk pos' h'

theorem takeWhile_bind (h : StandsBefore text rest pos) (p : Char → Bool)
    {k : List Char → Cursor β}
    (hk : ∀ pos', StandsBefore text (rest.dropWhile p) pos' →
      Agrees text outcome (k (rest.takeWhile p) pos')) :
    Agrees text outcome ((Cursor.takeWhile text p >>= k) pos) := by
  have hsplit : rest.takeWhile p ++ rest.dropWhile p = rest := List.takeWhile_append_dropWhile
  rw [Cursor.takeWhile, bind_assoc, h.rest_bind, bind_assoc, scanned_eq]
  refine advance_bind (hsplit.symm ▸ h) rfl fun pos' h' => ?_
  -- The second cut is behind the characters that were scanned, not at the position.
  have hcut := cut_append (rest.takeWhile p) (rest.dropWhile p)
  rw [hsplit] at hcut
  rw [hcut, pure_bind, pure_bind]
  exact hk pos' h'

end Agrees

end Cadence.Notation

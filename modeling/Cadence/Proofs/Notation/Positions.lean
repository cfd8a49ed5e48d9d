import Cadence.Proofs.Notation.Cursor

/-!
# The positions of a cursor

The cursor reads every part of a notation as the reader of characters does, one lemma a part.  So no
cut goes wrong, all positions are those between two characters, and the position of a fault is the
length of the characters before it (`readAtPositions_betweenCharacters`).
-/

namespace Cadence.Notation

open Text.Utf8

variable {text rest : List Char} {pos : Nat} {α β : Type}

/-! ## Groups -/

theorem head?_ne_some {c : Char} (h : ∀ after, rest = c :: after → False) : rest.head? ≠ some c := by
  intro hhead
  obtain ⟨after, rfl⟩ := List.head?_eq_some_iff.mp hhead
  exact h after rfl

theorem agrees_value (h : StandsBefore text rest pos) :
    Agrees text (readValue rest) (Cursor.value text pos) := by
  unfold readValue Cursor.value
  split
  · rename_i rest
    refine Agrees.eat_bind h fun _ h => Agrees.takeWhile_bind h isNameChar fun _ h => ?_
    simp only [readName]
    by_cases hname : rest.takeWhile isNameChar = []
    · simp only [hname, if_true]
      exact .refuse h _
    · simp only [hname, if_false]
      split
      · rename_i after hafter
        rw [hafter] at h
        exact Agrees.eat_bind h fun _ h => .pure h _
      · rename_i hclose
        rw [h.eat_bind_of_ne (head?_ne_some hclose)]
        exact .refuse h _
  · rename_i hopen
    rw [h.eat_bind_of_ne (head?_ne_some hopen)]
    refine Agrees.takeWhile_bind h Text.isDigit fun _ h => ?_
    simp only [readNumber]
    by_cases hdigits : rest.takeWhile Text.isDigit = []
    · simp only [hdigits, if_true]
      exact .refuse h _
    · simp only [hdigits, if_false]
      split
      · exact .pure h _
      · exact .refuse h _

/-- The letters of units and scopes take up one byte. -/
theorem utf8Size_unit {time : Bool} {c : Char} {unit : TimeUnit}
    (h : (if time then timeUnit c else dateUnit c) = .ok unit) : c.utf8Size = 1 := by
  have hall : ∀ entry ∈ unitLetters time, entry.1.utf8Size = 1 := by
    cases time <;> decide
  refine hall (c, unit) ?_
  cases time with
  | false => exact dateUnit_eq_ok_iff.mp h
  | true => exact timeUnit_eq_ok_iff.mp h

theorem utf8Size_scope {c : Char} {scope : TimeUnit} (h : scopeOf? c = some scope) :
    c.utf8Size = 1 := by
  have hall : ∀ entry ∈ scopeLetters, entry.1.utf8Size = 1 := by decide
  exact hall (c, scope) (scopeOf?_eq_some_iff.mp h)

theorem agrees_unit (h : StandsBefore text rest pos) (time : Bool) :
    Agrees text (readUnit time rest) (Cursor.unit text time pos) := by
  unfold Cursor.unit
  rw [h.peek_bind]
  cases rest with
  | nil => exact .refuse h _
  | cons c rest =>
      simp only [readUnit, List.head?_cons]
      cases hunit : if time then timeUnit c else dateUnit c with
      | error fault => exact .refuse h _
      | ok unit =>
          exact Agrees.advance_char_bind h (utf8Size_unit hunit).symm fun _ h => .pure h _

theorem refuse_bind (fault : Fault) (k : α → Cursor β) :
    (Cursor.refuse fault >>= k) = Cursor.refuse fault := rfl

theorem agrees_scopeWithin (h : StandsBefore text rest pos) (unit : TimeUnit) :
    Agrees text (readScope unit rest) (Cursor.scopeWithin text unit pos) := by
  unfold readScope Cursor.scopeWithin
  split
  · refine Agrees.eat_bind h fun pos' h => ?_
    rw [if_pos rfl, Cursor.scope, bind_assoc, h.peek_bind, List.head?_nil, refuse_bind]
    exact .refuse h _
  · rename_i c rest
    refine Agrees.eat_bind h fun pos' h => ?_
    rw [if_pos rfl, Cursor.scope, bind_assoc, h.peek_bind, List.head?_cons]
    cases hscope : scopeOf? c with
    | none =>
        simp only [hscope, refuse_bind]
        exact .refuse h _
    | some scope =>
        simp only [hscope, bind_assoc, pure_bind]
        refine Agrees.advance_char_bind h (utf8Size_scope hscope).symm fun _ h => ?_
        split
        · exact .pure h _
        · exact .refuse h _
  · rename_i hend hslash
    have hne : rest.head? ≠ some '/' := by
      refine head?_ne_some fun after hafter => ?_
      cases after with
      | nil => exact hend hafter
      | cons c more => exact hslash c more hafter
    rw [h.eat_bind_of_ne hne]
    exact .pure h _

/-- The parts of a group, one after the other. -/
theorem readGroup_eq_bind (time : Bool) (last : TimeUnit) (rules : RuleSet) (rest : List Char) :
    readGroup time last rules rest = (readValue rest).bind fun value =>
      (readUnit time value.2).bind fun unit =>
        if unit.1 < last then
          .error ⟨.outOfOrder unit.1 last, unit.2⟩
        else
          (readScope unit.1 unit.2).bind fun scope =>
            if (rules.get? unit.1 scope.1).isSome then
              .error ⟨.repeated unit.1 scope.1, scope.2⟩
            else
              match Rule.make unit.1 (some scope.1) value.1 with
              | .ok rule => .ok (rule, scope.2)
              | .error _ => .error ⟨.fixedYear, scope.2⟩ := by
  unfold readGroup
  cases readValue rest with
  | error stop => rfl
  | ok value =>
      simp only [Except.bind]
      cases readUnit time value.2 with
      | error stop => rfl
      | ok unit =>
          simp only
          cases readScope unit.1 unit.2 <;> rfl

theorem agrees_group (h : StandsBefore text rest pos) (time : Bool) (last : TimeUnit)
    (rules : RuleSet) :
    Agrees text (readGroup time last rules rest) (Cursor.group text time last rules pos) := by
  rw [readGroup_eq_bind]
  refine (agrees_value h).bind fun requirement rest pos _ h => ?_
  refine (agrees_unit h time).bind fun unit rest pos _ h => ?_
  by_cases horder : unit < last
  · simp only [horder, if_true]
    exact .refuse h _
  simp only [horder, if_false]
  refine (agrees_scopeWithin h unit).bind fun scope rest pos _ h => ?_
  by_cases hrepeated : (rules.get? unit scope).isSome = true
  · simp only [hrepeated, if_true]
    exact .refuse h _
  simp only [hrepeated, Bool.false_eq_true, if_false]
  cases Rule.make unit (some scope) requirement with
  | ok rule => exact .pure h _
  | error e => exact .refuse h _

/-! ## Whole notations -/

theorem isOver_bind (h : StandsBefore text rest pos) (time : Bool) (k : Bool → Cursor β) :
    (Cursor.isOver text time >>= k) pos = k (isOver time rest) pos := by
  rw [Cursor.isOver, bind_assoc, h.isDone_bind]
  cases rest with
  | nil => rfl
  | cons c rest =>
      cases time with
      | true => rfl
      | false =>
          have hover : decide ((c :: rest).head? = some 'T') = isOver false (c :: rest) := by
            by_cases hc : c = 'T' <;> simp [isOver, hc]
          simp only [reduceCtorEq, decide_false, Bool.false_eq_true, if_false, bind_assoc]
          rw [h.peek_bind, pure_bind, hover]

theorem readGroups_eq_bind (time : Bool) (last : TimeUnit) (rules : RuleSet) (rest : List Char) :
    readGroups time last rules rest =
      if isOver time rest then
        .ok (last, rules, rest)
      else
        (readGroup time last rules rest).bind fun group =>
          readGroups time group.1.unit (rules.insert group.1) group.2 := by
  by_cases hover : isOver time rest = true
  · rw [readGroups, if_pos hover, if_pos hover]
  · rw [if_neg hover]
    cases hgroup : readGroup time last rules rest with
    | ok group => exact readGroups_cons (Bool.eq_false_iff.mpr hover) hgroup
    | error stop =>
        rw [readGroups, if_neg hover]
        split
        · rename_i hstop
          rw [hgroup] at hstop
          cases hstop
          rfl
        · rename_i hread
          rw [hgroup] at hread
          cases hread

/-- A group takes up characters, so as many groups as characters are enough. -/
theorem agrees_groups_bind (h : StandsBefore text rest pos) (time : Bool) (last : TimeUnit)
    (rules : RuleSet) {most : Nat} (hmost : rest.length ≤ most) {k : TimeUnit × RuleSet → Cursor β}
    {more : TimeUnit × RuleSet × List Char → Except Stop (β × List Char)}
    (hk : ∀ last rules rest pos', StandsBefore text rest pos' →
      Agrees text (more (last, rules, rest)) (k (last, rules) pos')) :
    Agrees text ((readGroups time last rules rest).bind more)
      ((Cursor.groups text time most last rules >>= k) pos) := by
  -- Each group leaves fewer characters, so the number that is allowed stays as large as theirs.
  induction most generalizing rest pos last rules with
  | zero =>
      obtain rfl := List.length_eq_zero_iff.mp (Nat.le_zero.mp hmost)
      rw [readGroups_eq_bind, Cursor.groups, bind_assoc, isOver_bind h]
      exact hk _ _ _ _ h
  | succ most ih =>
      rw [readGroups_eq_bind, Cursor.groups, bind_assoc, isOver_bind h]
      by_cases hover : isOver time rest = true
      · simp only [hover, if_true, pure_bind]
        exact hk _ _ _ _ h
      · have hassoc {x : Except Stop (Rule × List Char)}
            {f : Rule × List Char → Except Stop (TimeUnit × RuleSet × List Char)} :
            (x.bind f).bind more = x.bind fun group => (f group).bind more := by
          cases x <;> rfl
        simp only [hover, Bool.false_eq_true, if_false, hassoc, bind_assoc]
        refine (agrees_group h time last rules).bind fun rule rest' pos' hread h' => ?_
        have hshorter := readGroup_shorter hread
        exact ih h' _ _ (by omega)

/-- Reads what follows the date units, and says what is left. -/
def timesAndRest (last : TimeUnit) (rules : RuleSet) :
    List Char → Except Stop (RuleSet × List Char)
  | ['T'] => .error ⟨.missingTime, []⟩
  | 'T' :: rest => (readGroups true last rules rest).bind fun read => .ok (read.2.1, read.2.2)
  | rest => .ok (rules, rest)

/-- Reads a whole notation, and says what is left. -/
def charsAndRest : List Char → Except Stop (RuleSet × List Char)
  | 'F' :: rest =>
      (readGroups false .epoch .empty rest).bind fun read => timesAndRest read.1 read.2.1 read.2.2
  | text => .error ⟨.missingStart, text⟩

theorem map_timesAndRest (last : TimeUnit) (rules : RuleSet) (rest : List Char) :
    (timesAndRest last rules rest).map Prod.fst = readTimes last rules rest := by
  fun_cases timesAndRest last rules rest with
  | case1 => rfl
  | case2 rest hne =>
      rw [readTimes]
      · cases readGroups true last rules rest <;> rfl
      · exact hne
  | case3 rest hend htimes =>
      rw [readTimes]
      · rfl
      · exact hend
      · exact htimes

theorem map_charsAndRest (text : List Char) : (charsAndRest text).map Prod.fst = readChars text := by
  fun_cases charsAndRest text with
  | case1 rest =>
      rw [readChars]
      cases readGroups false .epoch .empty rest with
      | error stop => rfl
      | ok read => exact map_timesAndRest read.1 read.2.1 read.2.2
  | case2 text hstart =>
      rw [readChars]
      · rfl
      · exact hstart

theorem agrees_times (h : StandsBefore text rest pos) (last : TimeUnit) (rules : RuleSet) :
    Agrees text (timesAndRest last rules rest) (Cursor.times text last rules pos) := by
  unfold Cursor.times
  fun_cases timesAndRest last rules rest with
  | case1 =>
      refine Agrees.eat_bind h fun pos h => ?_
      rw [if_pos rfl, h.isDone_bind]
      exact .refuse h _
  | case2 rest hne =>
      have hmore : rest ≠ [] := hne
      refine Agrees.eat_bind h fun pos h => ?_
      rw [if_pos rfl, h.isDone_bind]
      simp only [hmore, decide_false, Bool.false_eq_true, if_false]
      exact agrees_groups_bind h true last rules h.length_le fun _ rules _ _ h => .pure h rules
  | case3 rest _ htimes =>
      rw [h.eat_bind_of_ne (head?_ne_some htimes)]
      exact .pure h rules

theorem agrees_all (text : List Char) : Agrees text (charsAndRest text) (Cursor.all text 0) := by
  have h := StandsBefore.zero text
  unfold Cursor.all
  fun_cases charsAndRest text with
  | case1 rest =>
      refine Agrees.eat_bind h fun pos h => ?_
      rw [if_pos rfl]
      exact agrees_groups_bind h false _ _ h.length_le fun last rules _ _ h =>
        agrees_times h last rules
  | case2 text hstart =>
      rw [h.eat_bind_of_ne (head?_ne_some hstart)]
      exact .refuse h _

/-! ## Positions -/

theorem byteLength_toList (text : String) : byteLength text.toList = text.utf8ByteSize := by
  have hofList (chars : List Char) : byteLength chars = (String.ofList chars).utf8ByteSize := by
    induction chars with
    | nil => rfl
    | cons c chars ih =>
        have hcons : String.ofList (c :: chars) = String.singleton c ++ String.ofList chars := by
          rw [String.singleton_eq_ofList, ← String.ofList_append]
          rfl
        rw [hcons, String.utf8ByteSize_append, String.utf8ByteSize_singleton, byteLength, ih]
  rw [hofList, String.ofList_toList]

/-- A position before what is left of a text is the length of a part in front. -/
theorem StandsBefore.exists_append {text : String} (h : StandsBefore text.toList rest pos) :
    ∃ front : String, text = front ++ String.ofList rest ∧ pos = front.utf8ByteSize := by
  obtain ⟨front, htext, rfl⟩ := h
  refine ⟨String.ofList front, ?_, ?_⟩
  · rw [← String.ofList_append, ← htext, String.ofList_toList]
  · rw [← byteLength_toList, String.toList_ofList]

theorem offset?_eq (h : StandsBefore text rest pos) :
    offset? text rest = if rest = [] then none else some pos := by
  obtain ⟨front, rfl, rfl⟩ := h
  rw [offset?, byteLength_append, Nat.add_sub_cancel]

theorem entries_readAtPositions (text : String) :
    (readAtPositions text).entries = 0 :: (Cursor.all text.toList 0).entries := by
  unfold readAtPositions StateT.run
  generalize Cursor.all text.toList 0 = run
  obtain ⟨entries, outcome⟩ := run
  cases outcome <;>
    simp [bind, pure, Logged.andThen, Logged.tell, Logged.ofValue]

theorem result_readAtPositions (text : String) :
    (readAtPositions text).result = (Cursor.all text.toList 0).result.map Prod.fst := by
  unfold readAtPositions StateT.run
  rw [Logged.result_tell_bind, Logged.result_bind]
  cases (Cursor.all text.toList 0).result <;> rfl

/-- A cursor reads what a notation denotes.  It stands between two characters at all times, so that
it can cut the text there, and does not run out of groups.  A notation is refused behind some whole
characters, and their length is told unless nothing is left. -/
theorem readAtPositions_betweenCharacters (text : String) :
    (∀ pos ∈ (readAtPositions text).entries,
      pos ≤ text.utf8ByteSize ∧ (String.Pos.Raw.mk pos).IsValid text) ∧
    (readAtPositions text).result ≠ .error .miscut ∧
    (readAtPositions text).result ≠ .error .exhausted ∧
    (∀ rules, parse text = .ok rules ↔ (readAtPositions text).result = .ok rules) ∧
    ∀ e, parse text = .error e → ∃ front rest fault, text = front ++ rest ∧
      (readAtPositions text).result = .error (.refused fault front.utf8ByteSize) ∧
      e = .malformed text fault (if rest = "" then none else some front.utf8ByteSize) := by
  obtain ⟨told, lands⟩ := agrees_all text.toList
  refine ⟨fun pos hpos => ?_, ?_⟩
  · rw [entries_readAtPositions] at hpos
    have hstands : ∃ rest, StandsBefore text.toList rest pos := by
      rcases List.mem_cons.mp hpos with rfl | hpos
      · exact ⟨_, .zero _⟩
      · exact told pos hpos
    obtain ⟨rest, hstands⟩ := hstands
    obtain ⟨front, htext, rfl⟩ := hstands.exists_append
    refine ⟨?_, String.Pos.Raw.isValid_iff_exists_append.mpr ⟨front, _, htext, rfl⟩⟩
    rw [htext, String.utf8ByteSize_append]
    exact Nat.le_add_right _ _
  · rw [result_readAtPositions]
    unfold parse
    rw [← map_charsAndRest]
    generalize charsAndRest text.toList = result at lands ⊢
    generalize (Cursor.all text.toList 0).result = outcome at lands ⊢
    cases lands with
    | read h => simp [Except.map]
    | @refused fault rest pos h =>
        obtain ⟨front, htext, rfl⟩ := h.exists_append
        refine ⟨by simp [Except.map], by simp [Except.map], fun rules => by simp [Except.map], ?_⟩
        rintro _ ⟨⟩
        refine ⟨front, String.ofList rest, fault, htext, rfl, ?_⟩
        simp [offset?_eq h]

/-- The letter in parentheses takes up two bytes. -/
example : readAtPositions "F(é)1W" =
    ⟨[0, 1, 2, 4, 5], .error (.refused (.unknownUnit '1') 5)⟩ := by
  rfl

end Cadence.Notation

import Mathlib.Data.List.Basic
import Cadence.Proofs.Text.Lines

/-!
# What is cut off lines

The contents of the lines of bytes, each followed by what was cut off it, are the bytes.  What is
cut off is a line feed or a carriage return and a line feed, but a last line without a line feed
loses a carriage return at its end as well: lines lose nothing but what ends them if and only if
bytes do not end with a carriage return.  Visits are shown the lines up to the first one that asks
to stop or fails (`Text.lines_cut`).
-/

namespace Cadence.Text

/-- A content and what was cut off it. -/
structure Part where
  content : Bytes
  cut : Bytes

def Part.bytes (part : Part) : Bytes := part.content ++ part.cut

/-- Lines with the given contents, numbered from one. -/
def numbered (contents : List Bytes) : List Line :=
  contents.mapIdx fun i content => ⟨i + 1, content⟩

/-- Bytes are made of parts that have the contents of their lines.  Every line loses what ends it,
and a last line without a line feed loses one of the given rests. -/
structure IsCut (rests : List Bytes) (bytes : Bytes) (row : List Part) : Prop where
  lines : lines bytes = numbered (row.map Part.content)
  made : bytes = row.flatMap Part.bytes
  content : ∀ part ∈ row, 10 ∉ part.content
  ended : ∀ part ∈ row.dropLast, ∃ ending : Ending, part.cut = ending.bytes
  last : ∀ part ∈ row.getLast?,
    (∃ ending : Ending, part.cut = ending.bytes) ∨ bytes.getLast? ≠ some 10 ∧ part.cut ∈ rests

/-- Lines lose nothing but what ends them. -/
def IsLossless (bytes : Bytes) : Prop := ∃ row, IsCut [[]] bytes row

theorem map_content_numbered (contents : List Bytes) :
    (numbered contents).map Line.content = contents := by
  refine List.ext_getElem (by simp [numbered]) fun i _ _ => ?_
  simp [numbered]

theorem lines_eq_numbered (bytes : Bytes) :
    lines bytes = numbered ((splitLines bytes).map lineContent) := by
  refine List.ext_getElem (by simp [lines, numbered]) fun i _ _ => ?_
  simp [lines, numbered]

/-! ## Bytes between line feeds -/

/-- Bytes are bodies, each followed by a line feed, and an end without one. -/
theorem exists_bodies (bytes : Bytes) :
    ∃ (bodies : List Bytes) (rest : Bytes), (∀ body ∈ bodies, 10 ∉ body) ∧ 10 ∉ rest ∧
      bytes = bodies.flatMap (· ++ [10]) ++ rest := by
  induction bytes with
  | nil => exact ⟨[], [], by simp⟩
  | cons b bytes ih =>
      obtain ⟨bodies, rest, hbodies, hrest, rfl⟩ := ih
      by_cases hb : b = 10
      · subst hb
        exact ⟨[] :: bodies, rest, by simpa using hbodies, hrest, rfl⟩
      · have hkept : ∀ body : Bytes, 10 ∉ body → 10 ∉ b :: body := fun body hbody =>
          List.not_mem_cons_of_ne_of_not_mem (Ne.symm hb) hbody
        cases bodies with
        | nil => exact ⟨[], b :: rest, by simp, hkept rest hrest, rfl⟩
        | cons body bodies =>
            obtain ⟨hbody, hbodies⟩ := List.forall_mem_cons.mp hbodies
            refine ⟨(b :: body) :: bodies, rest, ?_, hrest, rfl⟩
            exact List.forall_mem_cons.mpr ⟨hkept body hbody, hbodies⟩

theorem splitLines_of_not_mem {rest : Bytes} (hrest : 10 ∉ rest) :
    splitLines rest = if rest = [] then [] else [rest] := by
  induction rest with
  | nil => rfl
  | cons b rest ih =>
      rw [List.mem_cons, not_or] at hrest
      rw [splitLines, if_neg (Ne.symm hrest.1), ih hrest.2, if_neg (List.cons_ne_nil b rest)]
      cases rest with
      | nil => rfl
      | cons c rest => rfl

/-- Parts that end like lines are what bytes are split into, and so is what follows them. -/
theorem splitLines_parts {row : List Part} {rest : Bytes}
    (hcontent : ∀ part ∈ row, 10 ∉ part.content)
    (hended : ∀ part ∈ row, ∃ ending : Ending, part.cut = ending.bytes) (hrest : 10 ∉ rest) :
    splitLines (row.flatMap Part.bytes ++ rest) =
      row.map Part.bytes ++ if rest = [] then [] else [rest] := by
  induction row with
  | nil => exact splitLines_of_not_mem hrest
  | cons part row ih =>
      obtain ⟨hpart, hcontent⟩ := List.forall_mem_cons.mp hcontent
      obtain ⟨⟨ending, hending⟩, hended⟩ := List.forall_mem_cons.mp hended
      have hsplit := splitLines_ended hpart ending (row.flatMap Part.bytes ++ rest)
      rw [← hending, ih hcontent hended] at hsplit
      rw [List.flatMap_cons, List.append_assoc, Part.bytes, hsplit]
      rfl

/-! ## Carriage returns -/

/-- The carriage return at the end of bytes. -/
def returned (bytes : Bytes) : Bytes := if bytes.getLast? = some 13 then [13] else []

theorem stripLast_append_returned (bytes : Bytes) :
    stripLast 13 bytes ++ returned bytes = bytes := by
  rw [stripLast, returned]
  split
  · next h => exact List.dropLast_append_getLast? 13 h
  · exact List.append_nil bytes

theorem not_mem_stripLast {b : UInt8} {bytes : Bytes} (hb : 10 ∉ bytes) :
    10 ∉ stripLast b bytes := by
  rw [stripLast]
  split
  · exact fun h => hb (List.dropLast_subset _ h)
  · exact hb

theorem lineContent_of_not_mem {rest : Bytes} (hrest : 10 ∉ rest) :
    lineContent rest = stripLast 13 rest := by
  have hkept : stripLast 10 rest = rest := if_neg fun h => hrest (List.mem_of_getLast? h)
  rw [lineContent, hkept]

/-- A carriage return that is left at the end of a content was followed by another one. -/
theorem mem_returned {bytes : Bytes} (h : (stripLast 13 bytes).getLast? = some 13) :
    13 ∈ returned bytes := by
  by_cases hreturned : bytes.getLast? = some 13
  · simp [returned, hreturned]
  · rw [stripLast, if_neg hreturned] at h
    exact absurd h hreturned

/-! ## Lines and what was cut off them -/

/-- A body that was followed by the given end. -/
def partOf (finish body : Bytes) : Part := ⟨stripLast 13 body, returned body ++ finish⟩

theorem bytes_partOf (finish body : Bytes) : (partOf finish body).bytes = body ++ finish := by
  rw [Part.bytes, partOf, ← List.append_assoc, stripLast_append_returned]

theorem exists_ending (body : Bytes) :
    ∃ ending : Ending, (partOf [10] body).cut = ending.bytes := by
  by_cases hreturned : body.getLast? = some 13
  · exact ⟨.returnAndFeed, by simp [partOf, returned, hreturned, Ending.bytes]⟩
  · exact ⟨.lineFeed, by simp [partOf, returned, hreturned, Ending.bytes]⟩

/-- The parts of bytes between line feeds. -/
def partsOf (bodies : List Bytes) (rest : Bytes) : List Part :=
  bodies.map (partOf [10]) ++ if rest = [] then [] else [partOf [] rest]

section parts

variable {bodies : List Bytes} {rest : Bytes}

theorem mem_partsOf {part : Part} (hpart : part ∈ partsOf bodies rest) :
    (∃ body ∈ bodies, partOf [10] body = part) ∨ part = partOf [] rest := by
  rw [partsOf, List.mem_append, List.mem_map] at hpart
  refine hpart.imp_right fun h => ?_
  split at h
  · exact absurd h List.not_mem_nil
  · exact List.mem_singleton.mp h

theorem flatMap_partOf : (bodies.map (partOf [10])).flatMap Part.bytes =
    bodies.flatMap (· ++ [10]) := by
  rw [List.flatMap_map]
  exact congrArg (List.flatMap · bodies) (funext fun body => bytes_partOf [10] body)

theorem flatMap_partsOf :
    (partsOf bodies rest).flatMap Part.bytes = bodies.flatMap (· ++ [10]) ++ rest := by
  rw [partsOf, List.flatMap_append, flatMap_partOf]
  refine congrArg _ ?_
  split
  · next hnil => exact hnil.symm
  · simp [bytes_partOf]

theorem lines_partsOf (hbodies : ∀ body ∈ bodies, 10 ∉ body) (hrest : 10 ∉ rest) :
    lines (bodies.flatMap (· ++ [10]) ++ rest) =
      numbered ((partsOf bodies rest).map Part.content) := by
  have hsplit : splitLines (bodies.flatMap (· ++ [10]) ++ rest) =
      (bodies.map (partOf [10])).map Part.bytes ++ if rest = [] then [] else [rest] := by
    rw [← flatMap_partOf]
    refine splitLines_parts ?_ ?_ hrest
    · exact List.forall_mem_map.mpr fun body hbody => not_mem_stripLast (hbodies body hbody)
    · exact List.forall_mem_map.mpr fun body _ => exists_ending body
  have hcontents : (bodies.map (partOf [10])).map (lineContent ∘ Part.bytes) =
      (bodies.map (partOf [10])).map Part.content := by
    refine List.map_congr_left (List.forall_mem_map.mpr fun body _ => ?_)
    rw [Function.comp_apply, bytes_partOf, lineContent, stripLast_concat, partOf]
  have hends : (if rest = [] then [] else [rest]).map lineContent =
      (if rest = [] then [] else [partOf [] rest]).map Part.content := by
    split
    · rfl
    · exact congrArg (fun content => [content]) (lineContent_of_not_mem hrest)
  rw [lines_eq_numbered, hsplit, partsOf, List.map_append, List.map_append, List.map_map,
    hcontents, hends]

/-- What a last line without a line feed loses is the carriage return at its end. -/
theorem isCut_partsOf (hbodies : ∀ body ∈ bodies, 10 ∉ body) (hrest : 10 ∉ rest) :
    IsCut [returned rest] (bodies.flatMap (· ++ [10]) ++ rest) (partsOf bodies rest) where
  lines := lines_partsOf hbodies hrest
  made := flatMap_partsOf.symm
  content := by
    intro part hpart
    obtain ⟨body, hbody, rfl⟩ | rfl := mem_partsOf hpart
    · exact not_mem_stripLast (hbodies body hbody)
    · exact not_mem_stripLast hrest
  ended := by
    intro part hpart
    have hended : part ∈ bodies.map (partOf [10]) := by
      rw [partsOf] at hpart
      split at hpart
      · rw [List.append_nil] at hpart
        exact List.dropLast_subset _ hpart
      · rwa [List.dropLast_concat] at hpart
    obtain ⟨body, -, rfl⟩ := List.mem_map.mp hended
    exact exists_ending body
  last := by
    intro part hpart
    by_cases hnil : rest = []
    · rw [partsOf, if_pos hnil, List.append_nil] at hpart
      obtain ⟨body, -, rfl⟩ := List.mem_map.mp (List.mem_of_getLast? hpart)
      exact .inl (exists_ending body)
    · rw [partsOf, if_neg hnil, List.getLast?_concat, Option.mem_some_iff] at hpart
      subst hpart
      refine .inr ⟨fun hfeed => ?_, by simp [partOf]⟩
      rw [List.getLast?_append_of_ne_nil _ hnil] at hfeed
      exact hrest (List.mem_of_getLast? hfeed)

end parts

/-- Other rests may be lost. -/
theorem IsCut.mono {rests rests' : List Bytes} {bytes : Bytes} {row : List Part}
    (hrow : IsCut rests bytes row) (h : ∀ rest ∈ rests, rest ∈ rests') : IsCut rests' bytes row :=
  { hrow with last := fun part hpart => (hrow.last part hpart).imp_right (.imp_right (h _)) }

theorem IsCut.map_lineContent {rests : List Bytes} {bytes : Bytes} {row : List Part}
    (hrow : IsCut rests bytes row) :
    (splitLines bytes).map lineContent = row.map Part.content := by
  have hlines := congrArg (List.map Line.content) hrow.lines
  rwa [lines_eq_numbered, map_content_numbered, map_content_numbered] at hlines

/-- Lines lose nothing but what ends them if and only if bytes do not end with a carriage
return. -/
theorem isLossless_iff (bytes : Bytes) : IsLossless bytes ↔ bytes.getLast? ≠ some 13 := by
  constructor
  · rintro ⟨row, hrow⟩ hreturn
    obtain rfl | ⟨earlier, part, rfl⟩ := List.eq_nil_or_concat' row
    · rw [hrow.made] at hreturn
      cases hreturn
    have hearlier : ∀ part ∈ earlier, ∃ ending : Ending, part.cut = ending.bytes := by
      have hended := hrow.ended
      rwa [List.dropLast_concat] at hended
    obtain ⟨hfree, hpart⟩ := List.forall_mem_append.mp hrow.content
    replace hpart : 10 ∉ part.content := hpart part (List.mem_singleton_self part)
    have hmade : bytes = earlier.flatMap Part.bytes ++ (part.content ++ part.cut) := by
      simpa [Part.bytes] using hrow.made
    obtain ⟨ending, hending⟩ | ⟨-, hcut⟩ := hrow.last part (by simp)
    · -- An ended line ends with a line feed.
      rw [hmade, hending] at hreturn
      cases ending <;> simp [Ending.bytes] at hreturn
    · rw [List.mem_singleton.mp hcut, List.append_nil] at hmade
      have hcontents := hrow.map_lineContent
      rw [hmade, splitLines_parts hfree hearlier hpart] at hcontents
      by_cases hnil : part.content = []
      · simpa [hnil] using congrArg List.length hcontents
      · -- The content of the last line would have to end with the carriage return it loses.
        rw [hmade, List.getLast?_append_of_ne_nil _ hnil] at hreturn
        have hlast : lineContent part.content = part.content := by
          simpa [hnil] using congrArg List.getLast? hcontents
        rw [lineContent_of_not_mem hpart, stripLast, if_pos hreturn] at hlast
        have hlength := congrArg List.length hlast
        rw [List.length_dropLast] at hlength
        have hpositive := List.length_pos_iff.mpr hnil
        omega
  · intro hreturn
    obtain ⟨bodies, rest, hbodies, hrest, rfl⟩ := exists_bodies bytes
    have hnone : returned rest = [] := by
      refine if_neg fun hended => hreturn ?_
      rwa [List.getLast?_append_of_ne_nil _ (by rintro rfl; cases hended)]
    exact ⟨partsOf bodies rest, hnone ▸ isCut_partsOf hbodies hrest⟩

/-! ## Visits -/

section visits

variable {ε : Type}

/-- A visitor that keeps the lines it is shown and answers by all of them. -/
def recording (answer : List Line → Line → Except ε Bool) (line : Line) :
    ExceptT ε (StateM (List Line)) Bool := do
  let before ← get
  set (before ++ [line])
  match answer before line with
  | .ok goOn => pure goOn
  | .error e => throw e

/-- How visits end, and which lines were shown in them and before. -/
def shown (answer : List Line → Line → Except ε Bool) (lines before : List Line) :
    Except ε Unit × List Line :=
  (visitLines (recording answer) lines).run.run before

/-- All of the given lines are answered by going on. -/
def GoesOn (answer : List Line → Line → Except ε Bool) (before lines : List Line) : Prop :=
  ∀ earlier line, earlier ++ [line] <+: lines → answer (before ++ earlier) line = .ok true

variable (answer : List Line → Line → Except ε Bool)

theorem run_recording (line : Line) (before : List Line) :
    (recording answer line).run.run before = (answer before line, before ++ [line]) := by
  change ((match answer before line with
    | .ok goOn => pure goOn
    | .error e => throw e : ExceptT ε (StateM (List Line)) Bool).run.run (before ++ [line])) = _
  cases answer before line <;> rfl

/-- A line is shown, and its answer decides what happens next. -/
theorem shown_cons (line : Line) (lines before : List Line) :
    shown answer (line :: lines) before =
      match answer before line with
      | .ok true => shown answer lines (before ++ [line])
      | .ok false => (.ok (), before ++ [line])
      | .error e => (.error e, before ++ [line]) := by
  have hshown : shown answer (line :: lines) before =
      match (recording answer line).run.run before with
      | (.ok goOn, now) =>
          (if goOn then visitLines (recording answer) lines else pure ()).run.run now
      | (.error e, now) => (.error e, now) := by
    change (StateT.run (ExceptT.run (recording answer line) >>= ExceptT.bindCont _) before) = _
    rw [StateT.run_bind]
    cases (recording answer line).run.run before with
    | mk result now => cases result <;> rfl
  rw [hshown, run_recording]
  cases answer before line with
  | error e => rfl
  | ok goOn => cases goOn <;> rfl

variable {answer}

/-- Lines that are answered by going on are shown. -/
theorem shown_append {earlier before : List Line} (h : GoesOn answer before earlier)
    (lines : List Line) :
    shown answer (earlier ++ lines) before = shown answer lines (before ++ earlier) := by
  induction earlier generalizing before with
  | nil => rw [List.nil_append, List.append_nil]
  | cons line earlier ih =>
      have hline : answer before line = .ok true := by
        simpa using h [] line (by simp)
      have hearlier : GoesOn answer (before ++ [line]) earlier := by
        intro first next hfirst
        have hnext := h (line :: first) next (List.cons_prefix_cons.mpr ⟨rfl, hfirst⟩)
        rwa [List.append_cons] at hnext
      rw [List.cons_append, shown_cons, hline]
      exact (ih hearlier).trans (by rw [List.append_cons before line earlier])

/-- If all lines are answered by going on then all of them are shown. -/
theorem shown_of_goesOn {lines before : List Line} (h : GoesOn answer before lines) :
    shown answer lines before = (.ok (), before ++ lines) := by
  have happend := shown_append h []
  rwa [List.append_nil] at happend

/-- A line that is answered by stopping is the last one that is shown. -/
theorem shown_of_stop {earlier later before : List Line} {line : Line}
    (h : GoesOn answer before earlier) (hline : answer (before ++ earlier) line = .ok false) :
    shown answer (earlier ++ line :: later) before = (.ok (), before ++ earlier ++ [line]) := by
  rw [shown_append h, shown_cons, hline]

/-- A line that is answered by failing is the last one that is shown. -/
theorem shown_of_error {earlier later before : List Line} {line : Line} {e : ε}
    (h : GoesOn answer before earlier) (hline : answer (before ++ earlier) line = .error e) :
    shown answer (earlier ++ line :: later) before = (.error e, before ++ earlier ++ [line]) := by
  rw [shown_append h, shown_cons, hline]

end visits

/-- Bytes are the contents of their lines, each followed by what was cut off it: a line feed or a
carriage return and a line feed, except that a last line without a line feed loses a carriage
return at its end and nothing else.  So nothing but what ends lines is lost if and only if bytes do
not end with a carriage return.  Visits show all lines, or the lines up to the first one that asks
to stop or fails, whose error is how they end. -/
theorem lines_cut (bytes : Bytes) :
    (∃ row, IsCut [[], [13]] bytes row ∧
      ∀ part ∈ row, part.content.getLast? = some 13 → 13 ∈ part.cut) ∧
    (IsLossless bytes ↔ bytes.getLast? ≠ some 13) ∧
    ∀ (ε : Type) (answer : List Line → Line → Except ε Bool),
      (GoesOn answer [] (lines bytes) → shown answer (lines bytes) [] = (.ok (), lines bytes)) ∧
      ∀ earlier line later, lines bytes = earlier ++ line :: later → GoesOn answer [] earlier →
        line.number = earlier.length + 1 ∧
        (answer earlier line = .ok false →
          shown answer (lines bytes) [] = (.ok (), earlier ++ [line])) ∧
        ∀ e, answer earlier line = .error e →
          shown answer (lines bytes) [] = (.error e, earlier ++ [line]) := by
  refine ⟨?_, isLossless_iff bytes, fun ε answer => ⟨shown_of_goesOn, ?_⟩⟩
  · obtain ⟨bodies, rest, hbodies, hrest, rfl⟩ := exists_bodies bytes
    have hcut : ∀ part ∈ partsOf bodies rest,
        part.content.getLast? = some 13 → 13 ∈ part.cut := by
      intro part hpart hreturn
      obtain ⟨body, -, rfl⟩ | rfl := mem_partsOf hpart
      · exact List.mem_append_left _ (mem_returned hreturn)
      · exact List.mem_append_left _ (mem_returned hreturn)
    have hrests : ∀ lost ∈ [returned rest], lost ∈ [[], [13]] := by
      intro lost hlost
      rw [List.mem_singleton.mp hlost, returned]
      split <;> simp
    exact ⟨partsOf bodies rest, (isCut_partsOf hbodies hrest).mono hrests, hcut⟩
  · intro earlier line later hlines hearlier
    refine ⟨number_of_lines hlines, fun hstop => ?_, fun e hfail => ?_⟩
    · rw [hlines]
      exact shown_of_stop hearlier hstop
    · rw [hlines]
      exact shown_of_error hearlier hfail

/-- A carriage return at the end is lost, though no line feed follows it. -/
theorem not_isLossless_returned : lines [97, 13] = [⟨1, [97]⟩] ∧ ¬ IsLossless [97, 13] :=
  ⟨by decide, (isLossless_iff [97, 13]).not.mpr (by decide)⟩

end Cadence.Text

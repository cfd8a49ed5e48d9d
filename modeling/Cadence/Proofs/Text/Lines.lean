import Cadence.Text.Lines

/-!
# Lines that are written and read

Contents that are written one after the other, each followed by a line feed or by a carriage return
and a line feed, are the contents of the lines that are read (`Text.lines_endedBytes`).  A content may be anything
without a line feed that does not end with a carriage return.
-/

namespace Cadence.Text

/-- What a line ends with. -/
inductive Ending
  | lineFeed
  | returnAndFeed
deriving DecidableEq

/-- The bytes of an ending. -/
def Ending.bytes : Ending → Bytes
  | lineFeed => [10]
  | returnAndFeed => [13, 10]

/-- Cannot be mistaken for what ends a line. -/
def IsContent (bytes : Bytes) : Prop := 10 ∉ bytes ∧ bytes.getLast? ≠ some 13

instance (bytes : Bytes) : Decidable (IsContent bytes) := inferInstanceAs (Decidable (_ ∧ _))

/-- Contents, each with its ending. -/
def endedBytes (contents : List (Bytes × Ending)) : Bytes :=
  contents.flatMap fun line => line.1 ++ line.2.bytes

/-- A line feed, and nothing before it, ends a line. -/
theorem splitLines_append_cons {line : Bytes} (hline : 10 ∉ line) (rest : Bytes) :
    splitLines (line ++ 10 :: rest) = (line ++ [10]) :: splitLines rest := by
  induction line with
  | nil => rfl
  | cons b line ih =>
      rw [List.mem_cons, not_or] at hline
      rw [List.cons_append, splitLines, if_neg (Ne.symm hline.1), ih hline.2]
      rfl

theorem splitLines_ended {content : Bytes} (hcontent : 10 ∉ content) (ending : Ending)
    (rest : Bytes) :
    splitLines (content ++ ending.bytes ++ rest) =
      (content ++ ending.bytes) :: splitLines rest := by
  cases ending with
  | lineFeed =>
      rw [List.append_assoc]
      exact splitLines_append_cons hcontent rest
  | returnAndFeed =>
      have hreturned : 10 ∉ content ++ [13] := by simp [hcontent]
      have hsplit := splitLines_append_cons hreturned rest
      simpa [Ending.bytes] using hsplit

theorem stripLast_concat (b : UInt8) (bytes : Bytes) : stripLast b (bytes ++ [b]) = bytes := by
  simp [stripLast]

theorem lineContent_ended {content : Bytes} (hcontent : IsContent content) (ending : Ending) :
    lineContent (content ++ ending.bytes) = content := by
  have hkept : stripLast 13 content = content := if_neg hcontent.2
  cases ending with
  | lineFeed => rw [lineContent, Ending.bytes, stripLast_concat, hkept]
  | returnAndFeed =>
      have hassoc : content ++ Ending.returnAndFeed.bytes = (content ++ [13]) ++ [10] := by
        simp [Ending.bytes]
      rw [lineContent, hassoc, stripLast_concat, stripLast_concat]

theorem splitLines_endedBytes {contents : List (Bytes × Ending)}
    (hcontents : ∀ line ∈ contents, IsContent line.1) :
    splitLines (endedBytes contents) = contents.map fun line => line.1 ++ line.2.bytes := by
  induction contents with
  | nil => rfl
  | cons line contents ih =>
      obtain ⟨hline, hrest⟩ := List.forall_mem_cons.mp hcontents
      rw [endedBytes, List.flatMap_cons, splitLines_ended hline.1, List.map_cons]
      exact congrArg _ (ih hrest)

/-- The lines that are read are those that were written, numbered from one. -/
theorem lines_endedBytes {contents : List (Bytes × Ending)}
    (hcontents : ∀ line ∈ contents, IsContent line.1) :
    lines (endedBytes contents) = contents.mapIdx fun i line => ⟨i + 1, line.1⟩ := by
  rw [lines, splitLines_endedBytes hcontents]
  refine List.ext_getElem (by simp) fun i h _ => ?_
  have hi : i < contents.length := by simpa using h
  have hcontent : lineContent (contents[i].1 ++ contents[i].2.bytes) = contents[i].1 :=
    lineContent_ended (hcontents _ (List.getElem_mem hi)) _
  simp [hcontent]

theorem map_content_lines {contents : List (Bytes × Ending)}
    (hcontents : ∀ line ∈ contents, IsContent line.1) :
    (lines (endedBytes contents)).map Line.content = contents.map Prod.fst := by
  rw [lines_endedBytes hcontents]
  refine List.ext_getElem (by simp) fun i _ _ => ?_
  simp

/-- Lines are numbered from one. -/
theorem number_of_lines {bytes : Bytes} {before after : List Line} {line : Line}
    (h : lines bytes = before ++ line :: after) : line.number = before.length + 1 := by
  have hline : (lines bytes)[before.length]? = some line := by simp [h]
  simp only [lines, List.getElem?_mapIdx, Option.map_eq_some_iff] at hline
  obtain ⟨split, -, rfl⟩ := hline
  rfl

/-- Where no visit asks to stop, all lines are visited. -/
theorem visitLines_eq_forM {m : Type → Type} [Monad m] [LawfulMonad m] (visit : Line → m Unit)
    (lines : List Line) :
    (visitLines (fun line => do visit line; pure true) lines) = lines.forM visit := by
  induction lines with
  | nil => rfl
  | cons line lines ih =>
      have hcons : (line :: lines).forM visit = visit line >>= fun _ => lines.forM visit := rfl
      rw [hcons, visitLines, bind_assoc]
      simp only [pure_bind, if_true, ih]

end Cadence.Text

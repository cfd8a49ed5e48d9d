import Cadence.Text.Alphanumeric
import Cadence.Text.Blank

/-!
# Filling lines

A paragraph is broken into lines that fit a width as far as possible.  Lines are broken after
spaces, and after hyphens between letters or numerals; a word that fits no line is broken anywhere.
Every line takes as many words as fit.
-/

namespace Cadence.Text

/-- The columns that a character takes. -/
def charWidth (c : Char) : Nat := if c.toNat < 0x1100 then 1 else 2

/-- The number of characters of a control sequence that remain after `ESC [`. -/
def controlLength : List Char → Nat
  | [] => 0
  | c :: rest => if 0x40 ≤ c.toNat ∧ c.toNat ≤ 0x7E then 1 else controlLength rest + 1

/-- The number of characters of a command string that remain after `ESC ]`.  It ends with a bell
or with `ESC \`. -/
def commandLength : Char → List Char → Nat
  | _, [] => 0
  | last, c :: rest =>
      if c = '\x07' ∨ (c = '\\' ∧ last = '\x1b') then 1 else commandLength c rest + 1

/-- The number of characters that belong to an escape sequence after its first. -/
def escapeLength : List Char → Nat
  | '[' :: rest => controlLength rest + 1
  | ']' :: rest => commandLength ']' rest + 1
  | _ :: _ => 1
  | [] => 0

/-- Characters that stay together on a line, and the columns they take. -/
structure Cell where
  chars : List Char
  width : Nat

/-- Splits a text into single characters and escape sequences, which take no columns. -/
def cells : List Char → List Cell
  | [] => []
  | c :: rest =>
      if c = '\x1b' then
        let n := escapeLength rest
        ⟨c :: rest.take n, 0⟩ :: cells (rest.drop n)
      else
        ⟨[c], charWidth c⟩ :: cells rest
termination_by text => text.length
decreasing_by all_goals simp only [List.length_drop, List.length_cons]; omega

/-- The columns that a text takes. -/
def displayWidth (text : List Char) : Nat :=
  (cells text).foldr (fun cell total => cell.width + total) 0

/-- A part of a paragraph that stays on one line, and the number of spaces after it. -/
structure Word where
  chars : List Char
  spaces : Nat

namespace Word

/-- The columns that a word takes without the spaces after it. -/
def width (word : Word) : Nat := displayWidth word.chars

/-- A word with the spaces after it. -/
def spaced (word : Word) : List Char := word.chars ++ List.replicate word.spaces ' '

end Word

/-- A paragraph that is not empty begins with a word or with spaces. -/
theorem word_and_spaces_pos {text : List Char} (h : text ≠ []) :
    0 < (text.takeWhile (· ≠ ' ')).length +
      ((text.dropWhile (· ≠ ' ')).takeWhile (· = ' ')).length := by
  cases text with
  | nil => exact absurd rfl h
  | cons c tail =>
      by_cases hc : c = ' '
      · have hpos : 0 < (((c :: tail).dropWhile (· ≠ ' ')).takeWhile (· = ' ')).length := by
          simp [List.dropWhile, hc]
        omega
      · have hpos : 0 < ((c :: tail).takeWhile (· ≠ ' ')).length := by simp [List.takeWhile, hc]
        omega

/-- Splits a paragraph after its spaces. -/
def words (text : List Char) : List Word :=
  if _h : text = [] then []
  else
    let word := text.takeWhile (· ≠ ' ')
    let rest := text.dropWhile (· ≠ ' ')
    let spaces := rest.takeWhile (· = ' ')
    ⟨word, spaces.length⟩ :: words (text.drop (word.length + spaces.length))
termination_by text.length
decreasing_by
  have hpos : 0 < text.length := List.length_pos_iff.mpr _h
  have hword := word_and_spaces_pos _h
  rw [List.length_drop]
  omega

/-- Splits a row of characters after every hyphen between two alphanumeric characters.  The first
argument is the character before the row. -/
def hyphenParts : Option Char → List Char → List (List Char)
  | _, [] => [[]]
  | before, c :: rest =>
      let parts := hyphenParts (some c) rest
      if c = '-' ∧ before.any isAlphanumeric ∧ rest.head?.any isAlphanumeric then
        [c] :: parts
      else
        match parts with
        | [] => [[c]]
        | part :: others => (c :: part) :: others

/-- Words out of the parts of a word.  The spaces stay with the last part. -/
def wordsOfParts (spaces : Nat) : List (List Char) → List Word
  | [] => []
  | [part] => [⟨part, spaces⟩]
  | part :: others => ⟨part, 0⟩ :: wordsOfParts spaces others

/-- Splits a word after its hyphens. -/
def Word.hyphenated (word : Word) : List Word :=
  wordsOfParts word.spaces (hyphenParts none word.chars)

/-- Fills rows of a width with cells.  The first two arguments are the row that is being filled and
its width. -/
def fillCells (limit : Nat) : List Char → Nat → List Cell → List (List Char)
  | row, _, [] => [row]
  | row, width, cell :: rest =>
      if 0 < width ∧ limit < width + cell.width then
        row :: fillCells limit cell.chars cell.width rest
      else
        fillCells limit (row ++ cell.chars) (width + cell.width) rest

/-- Breaks a word that is wider than a limit. -/
def Word.broken (limit : Nat) (word : Word) : List Word :=
  if limit < word.width then wordsOfParts word.spaces (fillCells limit [] 0 (cells word.chars))
  else [word]

/-- Fills lines of a width with words.  The first two arguments are the line that is being filled
and its width with all spaces. -/
def fillWords (limit : Nat) : List Word → Nat → List Word → List (List Word)
  | line, _, [] => [line]
  | line, width, word :: rest =>
      if limit < width + word.width ∧ line ≠ [] then
        line :: fillWords limit [word] (word.width + word.spaces) rest
      else
        fillWords limit (line ++ [word]) (width + word.width + word.spaces) rest

/-- The text of a line, without the spaces after its last word. -/
def lineText : List Word → List Char
  | [] => []
  | [word] => word.chars
  | word :: rest => word.spaced ++ lineText rest

/-- Breaks a paragraph into lines of at most a number of columns.  The first word may stand on the
second line, after an empty one, when it fills a line completely. -/
def wrap (limit : Nat) (paragraph : List Char) : List (List Char) :=
  let parts := (words paragraph).flatMap fun word => word.hyphenated.flatMap (Word.broken limit)
  (fillWords limit [] 0 (⟨[], 0⟩ :: parts)).map lineText

end Cadence.Text

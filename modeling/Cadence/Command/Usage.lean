import Cadence.Text.Wrap

/-!
# Documentation of arguments

How the arguments and options of a command are listed: in short as a table with one line each, at
length with a wrapped description below each.
-/

namespace Cadence.Command

/-- A text of several lines. -/
def linesText (lines : List String) : String := String.intercalate "\n" lines

/-- The documentation of an argument or option. -/
structure Usage where
  /-- How it is written. -/
  format : String
  /-- One line. -/
  short : String
  /-- Paragraphs with blank lines between them. -/
  long : String

namespace Usage

/-- A row of spaces. -/
def spaces (count : Nat) : String := String.ofList (List.replicate count ' ')

/-- One line of the table, with the second column at a place. -/
def row (column : Nat) (usage : Usage) : String :=
  "    " ++ usage.format ++ spaces (column - usage.format.utf8ByteSize) ++ usage.short ++ "\n"

/-- The table of some arguments or options.  The second column begins two spaces after the longest
entry of the first. -/
def shortText (usages : List Usage) : String :=
  let widest := (usages.map (·.format.utf8ByteSize)).foldl max 0
  String.join (usages.map (row (widest + 2)))

/-- The width of the text in a wrapped paragraph. -/
def paragraphWidth : Nat := 71

/-- A wrapped paragraph.  Its own line breaks count as spaces. -/
def paragraphText (paragraph : String) : String :=
  let flat := paragraph.toList.map fun c => if c = '\n' then ' ' else c
  String.join ((Text.wrap paragraphWidth flat).map fun line =>
    "        " ++ String.ofList line ++ "\n")

/-- Splits a text at blank lines. -/
def paragraphs : List Char → List (List Char)
  | [] => [[]]
  | '\n' :: '\n' :: rest => [] :: paragraphs rest
  | c :: rest =>
      match paragraphs rest with
      | [] => [[c]]
      | paragraph :: others => (c :: paragraph) :: others

/-- An argument or option with its description below. -/
def longEntry (usage : Usage) : String :=
  let texts := (paragraphs (Text.trimmed usage.long).toList).map String.ofList
  "    " ++ usage.format ++ "\n" ++ String.intercalate "\n" (texts.map paragraphText)

/-- The long form of some arguments or options. -/
def longText (usages : List Usage) : String := String.intercalate "\n" (usages.map longEntry)

end Usage

end Cadence.Command

import Cadence.Command.Usage

/-!
# Help pages

A help page tells what a command is for, how to write it, and some examples, and lists its
arguments and options.  The short form leaves out some examples and lists everything in one line
each.
-/

namespace Cadence.Command

/-- A command line and what it prints, under a line that says what it does. -/
structure Example where
  title : String
  lines : List String

/-- A help page. -/
structure Page where
  /-- What the command is for. -/
  about : List String
  /-- How the command is written. -/
  synopsis : List String
  examples : List Example
  /-- Examples for the long form only. -/
  moreExamples : List Example
  arguments : List Usage
  /-- The options, in alphabetical order of their long forms. -/
  options : List Usage

/-- Lines with some text in front of each. -/
def indented (margin : String) (lines : List String) : String :=
  String.join (lines.map fun line => margin ++ line ++ "\n")

/-- Writes an example. -/
def Example.text (e : Example) : String :=
  "    " ++ e.title ++ "\n\n" ++ indented "        " e.lines ++ "\n"

namespace Page

/-- Writes everything before the lists of arguments and options. -/
def opening (page : Page) (examples : List Example) : String :=
  indented "" page.about ++ "\nUSAGE:\n" ++ indented "    " page.synopsis ++
    "\nTIP:\n    use -h for short docs and --help for long docs\n\nEXAMPLES:\n" ++
    String.join (examples.map Example.text)

/-- Writes a page with lists in some form. -/
def textWith (page : Page) (examples : List Example) (list : List Usage → String) : String :=
  Text.trimmed (page.opening examples ++ "REQUIRED ARGUMENTS:\n" ++ list page.arguments ++
    "\nOPTIONS:\n" ++ list page.options)

/-- The short form of a page. -/
def shortText (page : Page) : String := page.textWith page.examples Usage.shortText

/-- The long form of a page. -/
def longText (page : Page) : String :=
  page.textWith (page.examples ++ page.moreExamples) Usage.longText

end Page

end Cadence.Command

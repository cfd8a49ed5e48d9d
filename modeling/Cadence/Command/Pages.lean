import Cadence.Command.Page

/-!
# The help pages of all commands

The texts of the help pages.  They are part of what the program prints.
-/

namespace Cadence.Command

/-- The option that asks for help. -/
def helpUsage : Usage where
  format := "-h/--help"
  short := "Print help output."
  long := linesText
    [ "Print help output.",
      "",
      "The short flag, -h, prints condensed help output with one line per flag. The long flag,",
      "--help, prints complete documentation, including examples." ]

/-- The option that asks for the version. -/
def versionUsage : Usage where
  format := "--version"
  short := "Print the version of freq."
  long := "Print the version of freq."

/-- A frequency. -/
def frequencyUsage : Usage where
  format := "<frequency>"
  short := "A frequency, e.g., `F1D/WT15H0M0S` for Mondays at 15:00."
  long := linesText
    [ "A frequency.",
      "",
      "A frequency is a set of rules, each requiring a unit of the calendar to have a certain",
      "value within a containing scope. A datetime matches a frequency when it satisfies every",
      "rule. Units that have no rule can take any value.",
      "",
      "In frequency notation, a frequency starts with `F`. Then come the rules for years (`Y`),",
      "months (`M`), weeks (`W`) and days (`D`), followed by `T` and the rules for hours (`H`),",
      "minutes (`M`) and seconds (`S`). Units must be given from coarsest to finest. Each rule",
      "is a value, the unit letter and optionally `/` and a scope: `E` (epoch), `Y`, `M`, `W`,",
      "`D`, `h` (hour) or `m` (minute). When no scope is given, each unit is measured within",
      "the next coarser unit, except for weeks and days, which are measured within the year and",
      "the month.",
      "",
      "For example, `F1D/WT15H0M0S` is Mondays at 15:00:00, `F10D` is the tenth day of every",
      "month and `F100D/Y` is the hundredth day of every year.",
      "",
      "A value can also be a predicate in parentheses, like `F(odd)W1D/W`, which matches",
      "Mondays of odd weeks. The predicates `odd`, `even`, `leap` (for leap years) and",
      "`weekend` (for day of week values) are available.",
      "",
      "A frequency may also be given as a JSON object keyed by unit name, like `\x7b\"day\":",
      "\x7b\"week\": 1\x7d, \"hour\": 15\x7d`. A value is a number, a predicate name, or an",
      "object keyed by scope name." ]

/-- Frequencies, from arguments or standard input. -/
def frequenciesUsage : Usage where
  format := "<frequency>"
  short := "One or more frequencies, e.g., `F1D/WT15H0M0S`."
  long := linesText
    [ "One or more frequencies.",
      "",
      "Frequencies can either be passed as positional arguments or as line delimited data on",
      "stdin, but not both. That is, frequencies are only read from stdin when none are given",
      "as positional arguments.",
      "",
      "See `freq next --help` for the accepted formats." ]

/-- Datetimes, from arguments or standard input. -/
def datetimesUsage : Usage where
  format := "<datetime>"
  short := "A datetime, e.g., `now`, `2025-03-15` or `2025-03-15T00:00Z`."
  long := linesText
    [ "Zero or more datetimes to search from.",
      "",
      "Datetimes are either passed as positional arguments or as line delimited data on stdin,",
      "but not both. When there are no datetimes given as positional arguments and stdin is a",
      "terminal, the current time is used.",
      "",
      "The following formats are accepted:",
      "",
      "An RFC 9557 timestamp, e.g., `2025-03-15T10:23:00-04:00[America/New_York]`. The time",
      "zone annotation is kept, which matters for frequencies that cross a daylight saving time",
      "transition.",
      "",
      "An RFC 3339 timestamp, e.g., `2025-03-15T10:23:00-04:00`, or an RFC 2822 timestamp,",
      "e.g., `Sat, 15 Mar 2025 10:23:00 -0400`.",
      "",
      "An ISO 8601 date or datetime without an offset, e.g., `2025-03-15` or",
      "`2025-03-15T10:23`. It is interpreted as a local time in your system's time zone, which",
      "may be overridden with the `TZ` environment variable. A missing time means the first",
      "instant of the day.",
      "",
      "A clock time, e.g., `08:30` or `17:45:10`, on the current date.",
      "",
      "`now` is the current time. It is computed once when freq starts, or taken from the",
      "`FREQ_NOW` environment variable when set. `today`, `yesterday` and `tomorrow` are the",
      "first instants of those days." ]

/-- The beginning of a range. -/
def startUsage : Usage where
  format := "<start>"
  short := "The datetime to start searching from, e.g., `today`."
  long := linesText
    [ "The first datetime considered. The accepted formats are the same as for any other",
      "datetime, see `freq next --help`." ]

/-- The end of a range. -/
def endUsage : Usage where
  format := "<end>"
  short := "The exclusive upper bound of the search, e.g., `2025-04-01`."
  long := linesText
    [ "No datetime at or after this one is printed. The accepted formats are the same as for",
      "any other datetime, see `freq next --help`." ]

/-- How many matches are printed of a range. -/
def matchCountUsage : Usage where
  format := "-c, --count <number>"
  short := "Print at most this many matches."
  long := linesText
    [ "Print at most this many matches.",
      "",
      "The search stops as soon as this many matches have been printed, even when <end> is far",
      "in the future." ]

/-- How many matches are printed for a datetime. -/
def nextCountUsage : Usage where
  format := "-c, --count <number>"
  short := "Print this many successive matches for each datetime."
  long := linesText
    [ "Print this many successive matches for each datetime.",
      "",
      "Each match after the first is the next match at least one second after the previous one.",
      "When this is `0`, nothing is printed. The default is `1`." ]

/-- The first of two frequencies. -/
def firstUsage : Usage where
  format := "<frequency>"
  short := "The first frequency, e.g., `F1D/WT15H`."
  long := "The first frequency. See `freq next --help` for the format."

/-- The second of two frequencies. -/
def secondUsage : Usage where
  format := "<frequency>"
  short := "The second frequency, e.g., `FT10H`."
  long := "The second frequency. See `freq next --help` for the format."

/-- The option that asks for JSON. -/
def jsonUsage : Usage where
  format := "--json"
  short := "Print each frequency's rules as a line of JSON."
  long := linesText
    [ "Print each frequency's rules as a line of JSON.",
      "",
      "Each line is an object with the canonical notation in `frequency` and a list of `rules`.",
      "Every rule has a `unit`, the `scope` it's measured within, and a `value` that is either",
      "a number or the name of a predicate." ]

/-- The option that asks for the opposite order. -/
def reverseUsage : Usage where
  format := "-r, --reverse"
  short := "Sort from most to least constrained."
  long := linesText
    [ "Sort from most to least constrained.",
      "",
      "Frequencies that compare equal still keep the order they were given in." ]

/-- The page of the command that lists the matches of a range. -/
def betweenPage : Page where
  about :=
    [ "Print every datetime matching a frequency within a range.",
      "",
      "Matches are printed in chronological order, starting with the first match at or",
      "after <start> and ending with the last match before <end>. When <end> is at or",
      "before <start>, nothing is printed." ]
  synopsis :=
    [ "freq between <frequency> <start> <end>" ]
  examples :=
    [ ⟨"Print every Monday at 09:00 in July 2024:",
        [ "$ freq between F1D/WT9H0M0S 2024-07-01 2024-08-01",
          "2024-07-01T09:00:00-04:00[America/New_York]",
          "2024-07-08T09:00:00-04:00[America/New_York]",
          "2024-07-15T09:00:00-04:00[America/New_York]",
          "2024-07-22T09:00:00-04:00[America/New_York]",
          "2024-07-29T09:00:00-04:00[America/New_York]" ]⟩ ]
  moreExamples :=
    [ ⟨"Print noon on the even days of the month for the next week:",
        [ "$ freq between 'F(even)DT12H0M0S' 2024-07-28 2024-08-03",
          "2024-07-28T12:00:00-04:00[America/New_York]",
          "2024-07-30T12:00:00-04:00[America/New_York]",
          "2024-08-02T12:00:00-04:00[America/New_York]" ]⟩ ]
  arguments := [frequencyUsage, startUsage, endUsage]
  options := [matchCountUsage, versionUsage, helpUsage]

/-- The page of the command that compares frequencies. -/
def cmpPage : Page where
  about :=
    [ "Compare two frequencies by how constrained they are.",
      "",
      "This prints `less`, `equal` or `greater`. Units are compared from coarsest to",
      "finest. A frequency without a rule on a unit is less than one with a rule on",
      "it. When both have a fixed value for the same unit and scope, the smaller value",
      "is less. Predicates only count for being present." ]
  synopsis :=
    [ "freq cmp <frequency> <frequency>" ]
  examples :=
    [ ⟨"Daily at 10am is less constrained than on the 1st of each month:",
        [ "$ freq cmp FT10H F1D",
          "less" ]⟩ ]
  moreExamples :=
    [ ⟨"Predicates never decide an ordering:",
        [ "$ freq cmp 'F(odd)D' 'F(even)D'",
          "equal" ]⟩ ]
  arguments := [firstUsage, secondUsage]
  options := [versionUsage, helpUsage]

/-- The page of the command that prints frequencies in canonical notation. -/
def fmtPage : Page where
  about :=
    [ "Print frequencies in their canonical notation.",
      "",
      "Each frequency may be given in notation or as a JSON rule map. The canonical",
      "notation lists rules from coarsest to finest unit and omits scopes that are a",
      "unit's default. Two frequencies with the same rules always have the same",
      "canonical notation." ]
  synopsis :=
    [ "freq fmt <frequency>...",
      "freq fmt < line delimited <frequency>" ]
  examples :=
    [ ⟨"Canonicalize a couple of frequencies:",
        [ "$ freq fmt F3M/Y FT10S/H F1D/W15D",
          "F3M",
          "FT10S/h",
          "F15D1D/W" ]⟩ ]
  moreExamples :=
    [ ⟨"Convert a JSON rule map to notation:",
        [ "$ freq fmt '\x7b\"day\": \x7b\"week\": 3\x7d, \"hour\": 10, \"minute\": 0\x7d'",
          "F3D/WT10H0M" ]⟩,
      ⟨"Print the rules of a frequency as JSON:",
        [ "$ freq fmt --json F1D/WT15H",
          "\x7b\"frequency\":\"F1D/WT15H\",\"rules\":[" ++
            "\x7b\"scope\":\"week\",\"unit\":\"day\",\"value\":1\x7d," ++
            "\x7b\"scope\":\"day\",\"unit\":\"hour\",\"value\":15\x7d]\x7d" ]⟩ ]
  arguments := [frequenciesUsage]
  options := [jsonUsage, versionUsage, helpUsage]

/-- The page of the command that finds the next match. -/
def nextPage : Page where
  about :=
    [ "Print the next datetime matching a frequency.",
      "",
      "For each datetime given, this prints the earliest datetime at or after it that",
      "satisfies every rule of the frequency. A datetime that already matches is",
      "printed as is, minus any fractional seconds. When no datetime is given, the",
      "current time is used." ]
  synopsis :=
    [ "freq next <frequency> [<datetime>...]",
      "freq next <frequency> < line delimited <datetime>" ]
  examples :=
    [ ⟨"Print the next Monday at 15:00:",
        [ "$ freq next F1D/WT15H0M0S",
          "2024-07-22T15:00:00-04:00[America/New_York]" ]⟩ ]
  moreExamples :=
    [ ⟨"Print the next three times it's 10am, starting today:",
        [ "$ freq next -c3 FT10H0M0S today",
          "2024-07-20T10:00:00-04:00[America/New_York]",
          "2024-07-21T10:00:00-04:00[America/New_York]",
          "2024-07-22T10:00:00-04:00[America/New_York]" ]⟩,
      ⟨"Print the first weekend day on or after each of a list of dates:",
        [ "$ printf '2024-07-22\\n2024-07-27T09:15\\n' | freq next 'F(weekend)D/W'",
          "2024-07-27T00:00:00-04:00[America/New_York]",
          "2024-07-27T09:15:00-04:00[America/New_York]" ]⟩ ]
  arguments := [frequencyUsage, datetimesUsage]
  options := [nextCountUsage, versionUsage, helpUsage]

/-- The page of the command that sorts frequencies. -/
def sortPage : Page where
  about :=
    [ "Sort frequencies from least to most constrained.",
      "",
      "Frequencies are ordered the same way as `freq cmp` orders them. The sort is",
      "stable, so frequencies that compare equal keep the order they were given in.",
      "Each frequency is printed in its canonical notation." ]
  synopsis :=
    [ "freq sort <frequency>...",
      "freq sort < line delimited <frequency>" ]
  examples :=
    [ ⟨"Sort a few frequencies:",
        [ "$ freq sort F2D FT10H F1D F1M",
          "FT10H",
          "F1D",
          "F2D",
          "F1M" ]⟩ ]
  moreExamples :=
    []
  arguments := [frequenciesUsage]
  options := [reverseUsage, versionUsage, helpUsage]

/-- The page about the program as a whole. -/
def overview : String :=
  linesText
    [ "A utility for finding datetimes that match a recurring frequency.",
      "",
      "USAGE:",
      "    freq <command> ...",
      "",
      "COMMANDS:",
      "    between  Print every match of a frequency in a range",
      "    cmp      Compare two frequencies",
      "    fmt      Print frequencies in canonical notation",
      "    next     Print the next match of a frequency",
      "    sort     Sort frequencies from least to most constrained" ]

end Cadence.Command

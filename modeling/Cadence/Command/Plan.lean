import Cadence.Command.Task

/-!
# Understanding command lines

Reads the items of a command line from left to right and makes a task of them.  Frequencies and
datetimes that are needed once are read as soon as they are met, so the first fault of any kind is
the one that is reported.
-/

namespace Cadence.Command

open Cadence.Text (Bytes)

/-- Reads the items of a command line one after the other, handing values and the command's own
options to `accept`. -/
def readItems {σ : Type} (page : Page) (accept : σ → Item → Run σ) : σ → List Item → Run σ
  | state, [] => pure state
  | state, item :: rest =>
      match item with
      | .flag .help long =>
          Run.fail ⟨[], .help (if long then page.longText else page.shortText)⟩
      | .flag .version _ => Run.fail ⟨[], .version⟩
      | .fault fault => Run.fail (.ofOption fault)
      | _ => do
          let next ← accept state item
          readItems page accept next rest

/-- There is a value too many. -/
def refuse {α : Type} (bytes : Bytes) : Run α := Run.fail (.ofOption (.unexpectedArgument bytes))

/-- The option for how many matches to print. -/
def countOption : OptionForm := ⟨.count, some 'c', "count", true⟩

/-- The option for printing JSON. -/
def jsonOption : OptionForm := ⟨.json, none, "json", false⟩

/-- The option for sorting the other way round. -/
def reverseOption : OptionForm := ⟨.reverse, some 'r', "reverse", false⟩

/-- The greatest number of matches that may be asked for. -/
def maxCount : Nat := 18446744073709551615

/-- Reads the digits of a number on top of those already read. -/
def readCountDigits : Nat → List Char → Except String Nat
  | n, [] => .ok n
  | n, c :: rest =>
      if Text.isDigit c then
        let grown := n * 10 + Text.digitValue c
        if grown ≤ maxCount then readCountDigits grown rest
        else .error "number too large to fit in target type"
      else
        .error "invalid digit found in string"

/-- Reads a number of matches. -/
def readCount : List Char → Except String Nat
  | [] => .error "cannot parse integer from empty string"
  | ['+'] => .error "invalid digit found in string"
  | '+' :: digits => readCountDigits 0 digits
  | digits => readCountDigits 0 digits

/-- The value of the option for how many matches to print. -/
def countValue (bytes : Bytes) : Run Nat :=
  match Text.Utf8.decode? bytes with
  | none => Run.fail (.ofOption (.notUtf8 bytes))
  | some text => Logged.ofExcept ((readCount text.toList).mapError .ofMessage)

/-- Reads an item that concerns the option for how many matches to print.  There is none if the
item concerns something else. -/
def countOf? : Item → Option (Run Nat)
  | .valued .count bytes => some ((countValue bytes).within "-c/--count")
  | .missing .count option =>
      some ((Run.fail (.ofOption (.missingValue option))).within "-c/--count")
  | _ => none

/-- What a command line for the matches of a range has given so far. -/
structure BetweenItems where
  frequency? : Option Frequency
  start? : Option Zoned
  stop? : Option Zoned
  count? : Option Nat

namespace BetweenItems

/-- Reads a value. -/
def acceptValue (now : Zoned) (s : BetweenItems) (bytes : Bytes) : Run BetweenItems :=
  match s.frequency?, s.start?, s.stop? with
  | none, _, _ => do
      let f ← inputFrequency bytes
      pure { s with frequency? := some f }
  | some _, none, _ => do
      let start ← (readDatetime now bytes).within "invalid start datetime"
      pure { s with start? := some start }
  | some _, some _, none => do
      let stop ← (readDatetime now bytes).within "invalid end datetime"
      pure { s with stop? := some stop }
  | some _, some _, some _ => refuse bytes

/-- Reads an item. -/
def accept (now : Zoned) (s : BetweenItems) (item : Item) : Run BetweenItems :=
  match item with
  | .value bytes => s.acceptValue now bytes
  | _ =>
      match countOf? item with
      | some count => do
          let n ← count
          pure { s with count? := some n }
      | none => pure s

/-- The task that the command line asks for. -/
def task (s : BetweenItems) : Run Task := do
  let f ← Run.require "missing frequency" s.frequency?
  let start ← Run.require "missing start datetime" s.start?
  let stop ← Run.require "missing end datetime" s.stop?
  pure (.between f start stop s.count?)

end BetweenItems

/-- What a command line for the next matches has given so far. -/
structure NextItems where
  frequency? : Option Frequency
  count? : Option Nat
  datetimes : List Bytes

namespace NextItems

/-- Reads an item.  The first value is a frequency and all others are datetimes. -/
def accept (s : NextItems) (item : Item) : Run NextItems :=
  match item with
  | .value bytes =>
      match s.frequency? with
      | none => do
          let f ← inputFrequency bytes
          pure { s with frequency? := some f }
      | some _ => pure { s with datetimes := s.datetimes ++ [bytes] }
  | _ =>
      match countOf? item with
      | some count => do
          let n ← count
          pure { s with count? := some n }
      | none => pure s

/-- The task that the command line asks for.  One match is printed unless another number is
given. -/
def task (s : NextItems) : Run Task := do
  let f ← Run.require "missing frequency" s.frequency?
  pure (.next f (s.count?.getD 1) s.datetimes)

end NextItems

/-- Reads an item of a comparison, which is one of two frequencies. -/
def acceptCompared (frequencies : List Frequency) (item : Item) : Run (List Frequency) :=
  match item with
  | .value bytes =>
      if frequencies.length < 2 then do
        let f ← inputFrequency bytes
        pure (frequencies ++ [f])
      else
        refuse bytes
  | _ => pure frequencies

/-- The comparison that two frequencies ask for. -/
def compareTask : List Frequency → Run Task
  | [a, b] => pure (.compare a b)
  | _ => Run.fail (.ofMessage "two frequencies are required for comparison")

/-- Reads an item of a command with one option and any number of inputs. -/
def acceptInput (s : Bool × List Bytes) (item : Item) : Run (Bool × List Bytes) :=
  match item with
  | .value bytes => pure (s.1, s.2 ++ [bytes])
  | _ => pure (true, s.2)

/-- The commands. -/
inductive Name
  | between
  | cmp
  | fmt
  | next
  | sort
deriving DecidableEq

/-- The command with a name. -/
def Name.ofText? : String → Option Name
  | "between" => some between
  | "cmp" => some cmp
  | "fmt" => some fmt
  | "next" => some next
  | "sort" => some sort
  | _ => none

/-- The options of a command besides the common ones. -/
def Name.options : Name → List OptionForm
  | between | next => [countOption]
  | cmp => []
  | fmt => [jsonOption]
  | sort => [reverseOption]

/-- Makes a task of the items of a command. -/
def Name.task (now : Zoned) (items : List Item) : Name → Run Task
  | between => do
      let s ← readItems betweenPage (BetweenItems.accept now) ⟨none, none, none, none⟩ items
      s.task
  | cmp => do
      let frequencies ← readItems cmpPage acceptCompared [] items
      compareTask frequencies
  | fmt => do
      let (json, arguments) ← readItems fmtPage acceptInput (false, []) items
      pure (.format json arguments)
  | next => do
      let s ← readItems nextPage NextItems.accept ⟨none, none, []⟩ items
      s.task
  | sort => do
      let (reverse, arguments) ← readItems sortPage acceptInput (false, []) items
      pure (.sort reverse arguments)

/-- The command with a name that is given as an argument. -/
def commandNamed (bytes : Bytes) : Run Name :=
  match Text.Utf8.decode? bytes with
  | none => Run.fail (.ofOption (.notUtf8 bytes))
  | some text =>
      match Name.ofText? text with
      | some name => pure name
      | none => Run.fail (.ofMessage ("unrecognized command '" ++ text ++ "'"))

/-- Makes a task of the arguments of the program. -/
def plan (now : Zoned) (arguments : List Bytes) : Run Task :=
  match start arguments with
  | .nothing => Run.fail (.ofMessage overview)
  | .option .version => Run.fail ⟨[], .version⟩
  | .option _ => Run.fail ⟨[], .help overview⟩
  | .fault fault => Run.fail (.ofOption fault)
  | .command bytes rest onlyValues => do
      let name ← commandNamed bytes
      let items := if onlyValues then rest.map Item.value else items name.options rest
      name.task now items

/-- Does what the arguments of the program ask for.  What is to be sorted is sorted by insertion,
unless another stable sort is given. -/
def run (setting : Setting) (arguments : List Bytes)
    (sort : StableSort Frequency := StableSort.insertion) : Run Unit := do
  let task ← plan setting.now arguments
  task.run setting sort

end Cadence.Command

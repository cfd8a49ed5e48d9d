import Cadence.Command.Run
import Cadence.Command.Sort
import Cadence.Frequency.Description
import Cadence.Text.Lines

/-!
# Tasks

What a command line asks for, once its options are understood.  Inputs are either given as arguments
or stand on the lines of standard input, and a failure on a line is reported with its number.
-/

namespace Cadence.Command

open Cadence.Text (Bytes)

/-- Something to do. -/
inductive Task
  /-- Print the matches of a frequency in a range, at most a number of them. -/
  | between (frequency : Frequency) (start stop : Zoned) (count : Option Nat)
  /-- Compare two frequencies. -/
  | compare (a b : Frequency)
  /-- Print frequencies, as JSON or in notation. -/
  | format (json : Bool) (arguments : List Bytes)
  /-- Print a number of matches from each of some datetimes. -/
  | next (frequency : Frequency) (count : Nat) (arguments : List Bytes)
  /-- Sort frequencies, or sort them the other way round. -/
  | sort (reverse : Bool) (arguments : List Bytes)

/-- Whether a task reads standard input, which it does when nothing is given as arguments. -/
def Task.readsInput : Task → Bool
  | between _ _ _ _ | compare _ _ => false
  | format _ arguments | next _ _ arguments | sort _ arguments => arguments.isEmpty

/-- What tasks depend on besides their inputs. -/
structure Setting where
  /-- The current time, in the zone of the user. -/
  now : Zoned
  /-- What stands on standard input. -/
  input : Bytes
  /-- Whether standard input is a terminal. -/
  terminal : Bool

/-- The context of a line of standard input. -/
def lineContext (line : Text.Line) : String :=
  "line " ++ Text.natText line.number ++ " of <stdin>"

/-- Visits every input: the given arguments, or the lines of standard input if there are none. -/
def forInputs (visit : Bytes → Run Unit) (input : Bytes) (arguments : List Bytes) : Run Unit :=
  if arguments.isEmpty then
    Text.visitLines
      (fun line => do
        (visit line.content).within (lineContext line)
        pure true)
      (Text.lines input)
  else
    arguments.forM visit

/-- Collects what every input is read as. -/
def collectInputs {α : Type} (read : Bytes → Run α) (input : Bytes) (arguments : List Bytes) :
    Run (List α) :=
  if arguments.isEmpty then
    (Text.lines input).mapM fun line => (read line.content).within (lineContext line)
  else
    arguments.mapM read

/-- Reads a frequency that is given as an input. -/
def inputFrequency (bytes : Bytes) : Run Frequency :=
  (readFrequency bytes).within "invalid frequency"

/-- Reads a datetime that is given as an input. -/
def inputDatetime (now : Zoned) (bytes : Bytes) : Run Zoned :=
  (readDatetime now bytes).within "invalid datetime"

/-- Prints a frequency. -/
def printFrequency (json : Bool) (f : Frequency) : Run Unit :=
  Run.print (if json then f.description.text else f.text)

/-- Prints a number of matches, of which each is at least one second after the one before. -/
def printNext (f : Frequency) : Nat → Zoned → Run Unit
  | 0, _ => pure ()
  | count + 1, reference => do
      let context := "failed to find `" ++ f.text ++ "` from " ++ reference.text
      let found ← (Run.search (f.nextLogged reference)).within context
      Run.print found.text
      let later ← Run.calculate (found.shift .second 1)
      printNext f count later

/-- Prints matches from each of the given datetimes, or from the current time if there are none. -/
def runNext (setting : Setting) (f : Frequency) (count : Nat) (arguments : List Bytes) :
    Run Unit :=
  let fromNow (reason : String) : Run Unit := do
    Run.debug reason
    Logged.tell .clock
    printNext f count setting.now
  if arguments.isEmpty && setting.terminal then
    fromNow "no datetimes given, using the current time"
  else if arguments.isEmpty && setting.input.isEmpty then
    fromNow "no datetimes on stdin, using the current time"
  else
    forInputs
      (fun bytes => do
        let reference ← inputDatetime setting.now bytes
        printNext f count reference)
      setting.input arguments

/-- Prints the matches of a listing, at most as many as there are pulls and at most a given number.
The listing is asked for one match more than are printed. -/
def printBetween (context : String) : Nat → Option Nat → Between Zoned → Run Unit
  | 0, _, _ => pure ()
  | pulls + 1, count, b => do
      let pulled := b.pull
      Logged.tellAll (pulled.events.map fun event => Effect.note event.line)
      match pulled.item with
      | none => pure ()
      | some (.error e) => Run.fail ((Failure.ofError e).within context)
      | some (.ok date) =>
          if count = some 0 then pure ()
          else do
            Run.print date.text
            printBetween context pulls (count.map (· - 1)) pulled.rest

/-- A number of pulls that exhausts a range: matches are at least a second apart. -/
def pullsWithin (start stop : Zoned) : Nat := (stop.instant.second - start.instant.second).toNat + 2

/-- Prints the matches in a range, at most a given number. -/
def runBetween (f : Frequency) (start stop : Zoned) (count : Option Nat) : Run Unit :=
  let context := "failed to find `" ++ f.text ++ "` between " ++ start.text ++ " and " ++ stop.text
  printBetween context (pullsWithin start stop) count (f.between start stop)

/-- Whether a frequency is sorted before another. -/
def comesBefore (reverse : Bool) (a b : Frequency) : Bool :=
  a.compare b == if reverse then .gt else .lt

/-- Sorts frequencies.  That can fail, as their comparison need not be an order on them. -/
def sortFrequencies (sort : StableSort Frequency) (reverse : Bool) (frequencies : List Frequency) :
    Run (List Frequency) :=
  match sort.sorted? (comesBefore reverse) frequencies with
  | some sorted => pure sorted
  | none => Run.fail ⟨[], .noOrder⟩

/-- Prints sorted frequencies. -/
def runSort (sort : StableSort Frequency) (reverse : Bool) (input : Bytes)
    (arguments : List Bytes) : Run Unit := do
  let frequencies ← collectInputs inputFrequency input arguments
  let sorted ← sortFrequencies sort reverse frequencies
  sorted.forM (printFrequency false)

/-- The word for the outcome of a comparison. -/
def orderingText : Ordering → String
  | .lt => "less"
  | .eq => "equal"
  | .gt => "greater"

/-- Does a task.  What is to be sorted is sorted by insertion, unless another stable sort is
given. -/
def Task.run (setting : Setting) (task : Task)
    (sort : StableSort Frequency := StableSort.insertion) : Run Unit :=
  match task with
  | .between f start stop count => runBetween f start stop count
  | .compare a b => Run.print (orderingText (a.compare b))
  | .format json arguments =>
      forInputs
        (fun bytes => do
          let f ← inputFrequency bytes
          printFrequency json f)
        setting.input arguments
  | .next f count arguments => runNext setting f count arguments
  | .sort reverse arguments => runSort sort reverse setting.input arguments

end Cadence.Command

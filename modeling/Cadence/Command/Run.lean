import Cadence.Command.Failure
import Cadence.Log

/-!
# Running commands

What a command does besides ending: it prints lines, says what it does, and asks for the current
time.
-/

namespace Cadence.Command

/-- Something that a command does. -/
inductive Effect
  /-- Prints a line. -/
  | print (line : String)
  /-- Says what it does. -/
  | note (line : LogLine)
  /-- Asks for the current time. -/
  | clock
deriving DecidableEq

/-- A part of a command. -/
abbrev Run (α : Type) := Logged Effect Failure α

namespace Run

/-- Prints a line. -/
def print (line : String) : Run Unit := Logged.tell (.print line)

/-- Says something of minor importance. -/
def debug (message : String) : Run Unit := Logged.tell (.note ⟨.debug, message⟩)

/-- Fails. -/
def fail {α : Type} (f : Failure) : Run α := Logged.fail f

/-- Runs a part of a command in a context. -/
def within {α : Type} (context : String) (x : Run α) : Run α := x.mapError (Failure.within context)

/-- A value that may be missing. -/
def require {α : Type} (missing : String) : Option α → Run α
  | some a => pure a
  | none => fail (.ofMessage missing)

/-- Runs a search and says its steps. -/
def search {α : Type} (x : Search.Steps Zoned α) : Run α :=
  (x.mapEntries fun event => Effect.note event.line).mapError Failure.ofError

/-- Runs a calculation with frequencies or dates. -/
def calculate {α : Type} (x : Except Error α) : Run α := Logged.ofExcept (x.mapError .ofError)

end Run

/-- The lines that are printed by some effects. -/
def printed (effects : List Effect) : List String :=
  effects.filterMap fun
    | .print line => some line
    | _ => none

/-- Says that a name is no scope's. -/
def unknownScope (name : String) : Effect :=
  .note ⟨.debug, "unrecognized scope `" ++ name ++ "`, using the default scope instead"⟩

/-- Reads a frequency.  It may name any predicate that comes with the library. -/
def readFrequency (bytes : Text.Bytes) : Run Frequency :=
  ((Frequency.read .builtin bytes).mapEntries unknownScope).mapError .ofFrequency

/-- Reads a datetime, relative to the current time. -/
def readDatetime (now : Zoned) (bytes : Text.Bytes) : Run Zoned := do
  Logged.tell .clock
  Logged.ofExcept ((Moment.read now bytes).mapError .ofDatetime)

end Cadence.Command

import Cadence.Command.Plan
import Cadence.Zone.Database

/-!
# The program

What the program writes and how it ends, given its arguments, the environment and standard input.
-/

namespace Cadence

/-- What the program finds around it. -/
structure Environment where
  /-- Which lines of the log are written. -/
  log : String
  /-- The current time, if it is set. -/
  now? : Option String
  /-- The zone of the user, if it is set. -/
  zone? : Option String
  /-- The time on the clock. -/
  clock : Instant
  /-- Whether standard input is a terminal. -/
  terminal : Bool

/-- What the program writes, and the code that it ends with. -/
structure Outcome where
  code : Nat
  output : String
  errors : String
deriving DecidableEq

/-- The rank of the least important level that is logged.  At rank zero there is no log. -/
def loggedRank? (setting : String) : Option Nat :=
  match setting with
  | "" | "off" => some 0
  | "error" => some Level.error.rank
  | "warn" => some Level.warn.rank
  | "info" => some Level.info.rank
  | "debug" => some Level.debug.rank
  | "trace" => some Level.trace.rank
  | _ => none

namespace Environment

/-- The instant that counts as the current time, and what is said about where it comes from. -/
def currentTime (env : Environment) : Instant × LogLine :=
  match env.now? with
  | none =>
      (env.clock,
        ⟨.trace, "`FREQ_NOW` environment variable not set, using current time `" ++
          env.clock.text ++ "`"⟩)
  | some setting =>
      match (Timestamp.read? setting.toList).bind Timestamp.instant? with
      | some instant =>
          (instant,
            ⟨.trace, "setting current time to `" ++ instant.text ++
              "` from `FREQ_NOW` environment variable"⟩)
      | none =>
          (env.clock,
            ⟨.warn, "reading `FREQ_NOW` failed, using current time `" ++ env.clock.text ++
              "`: `FREQ_NOW` environment variable is not a valid RFC 3339 timestamp: " ++
              Command.datetimeMessage⟩)

/-- The zone of the user. -/
def zone (env : Environment) : Zone :=
  match env.zone? with
  | some setting => Zone.ofSetting setting
  | none => Zone.unknown

/-- The current time in the zone of the user. -/
def now (env : Environment) : Zoned := .atInstant env.zone env.currentTime.1

/-- The lines of the log that belong to some effects.  Where the current time comes from is said
when it is asked for first. -/
def logLines (env : Environment) : Bool → List Command.Effect → List LogLine
  | _, [] => []
  | asked, .print _ :: rest => env.logLines asked rest
  | asked, .note line :: rest => line :: env.logLines asked rest
  | true, .clock :: rest => env.logLines true rest
  | false, .clock :: rest => env.currentTime.2 :: env.logLines true rest

/-- The log of some effects, as far as it is written. -/
def logText (env : Environment) (rank : Nat) (effects : List Command.Effect) : String :=
  let written := (env.logLines false effects).filter fun line => line.level.rank ≤ rank
  String.join (written.map fun line => line.text ++ "\n")

end Environment

namespace Program

/-- Whether standard input is read. -/
def needsInput (env : Environment) (arguments : List Text.Bytes) : Bool :=
  match (Command.plan env.now arguments).result with
  | .ok (.next f count given) => (Command.Task.next f count given).readsInput && !env.terminal
  | .ok task => task.readsInput
  | .error _ => false

/-- How the program ends when a command has ended in some way. -/
def outcomeOf (printed log : String) : Except Command.Failure Unit → Outcome
  | .ok () => ⟨0, printed, log⟩
  | .error failure =>
      let message := String.intercalate ": " failure.texts ++ "\n"
      match failure.cause with
      | .help _ | .version => ⟨0, printed ++ message, log⟩
      | .noOrder => ⟨101, printed, log ++ message⟩
      | _ => ⟨1, printed, log ++ message⟩

/-- What the program does. -/
def run (env : Environment) (arguments : List Text.Bytes) (input : Text.Bytes)
    (sort : Command.StableSort Frequency := Command.StableSort.insertion) : Outcome :=
  match loggedRank? env.log with
  | none => ⟨1, "", "unrecognized log level '" ++ env.log ++ "'\n"⟩
  | some rank =>
      let ran := Command.run ⟨env.now, input, env.terminal⟩ arguments sort
      let lines := (Command.printed ran.entries).map (· ++ "\n")
      outcomeOf (String.join lines) (env.logText rank ran.entries) ran.result

end Program

end Cadence

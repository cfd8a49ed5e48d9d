import Std.Time.DateTime.Timestamp
import Cadence.Program

/-!
# The command line

Gathers what the program depends on, and writes what it answers.
-/

namespace Cadence.Main

/-- The number of seconds from 0000-01-01T00:00:00 to 1970-01-01T00:00:00 of Universal Time. -/
def unixEpoch : Int := 62167219200

theorem unixEpoch_inRange : firstInstant ≤ unixEpoch ∧ unixEpoch ≤ lastInstant := by
  decide

/-- The first instant of 1970 in Universal Time. -/
def unixEpochInstant : Instant := ⟨unixEpoch, 0, unixEpoch_inRange, Nat.zero_lt_succ _⟩

/-- The instant at a number of nanoseconds since the first instant of 1970. -/
def instantOfUnix (nanoseconds : Int) : Instant :=
  let perSecond : Int := Civil.nanosPerSecond
  (Instant.of? (unixEpoch + nanoseconds / perSecond) (nanoseconds % perSecond).toNat).getD
    unixEpochInstant

/-- Reads a stream to its end. -/
partial def readToEnd (stream : IO.FS.Stream) (read : ByteArray) : IO ByteArray := do
  let chunk ← stream.read 65536
  if chunk.isEmpty then pure read else readToEnd stream (read ++ chunk)

/-- Gathers the environment. -/
def environment : IO Environment := do
  let log ← IO.getEnv "FREQ_LOG"
  let now? ← IO.getEnv "FREQ_NOW"
  let zone? ← IO.getEnv "TZ"
  let time ← Std.Time.Timestamp.now
  let terminal ← (← IO.getStdin).isTty
  pure ⟨log.getD "", now?, zone?, instantOfUnix time.toNanosecondsSinceUnixEpoch.val, terminal⟩

/-- Runs the program with some arguments, and returns the code that it ends with. -/
def runWith (arguments : List Text.Bytes) : IO UInt32 := do
  let env ← environment
  let input ←
    if Program.needsInput env arguments then readToEnd (← IO.getStdin) ByteArray.empty
    else pure ByteArray.empty
  let outcome := Program.run env arguments input.data.toList
  (← IO.getStdout).putStr outcome.output
  (← IO.getStderr).putStr outcome.errors
  pure outcome.code.toUInt32

end Cadence.Main

/-- Runs the program. -/
def main (arguments : List String) : IO UInt32 :=
  Cadence.Main.runWith (arguments.map Cadence.Text.Utf8.encode)

import Cadence.Text.Utf8

/-!
# Lines

Bytes split into numbered lines.  A line ends with a line feed, and the last one may go without.
The content of a line leaves out its line feed and then one carriage return.
-/

namespace Cadence.Text

/-- A line and its number, counted from one. -/
structure Line where
  number : Nat
  content : Bytes
deriving DecidableEq

/-- Splits bytes after every line feed. -/
def splitLines : Bytes → List Bytes
  | [] => []
  | b :: rest =>
      if b = 10 then [b] :: splitLines rest
      else
        match splitLines rest with
        | [] => [[b]]
        | line :: lines => (b :: line) :: lines

/-- Drops the last byte if it is the given one. -/
def stripLast (b : UInt8) (bytes : Bytes) : Bytes :=
  if bytes.getLast? = some b then bytes.dropLast else bytes

/-- A line without what ends it. -/
def lineContent (line : Bytes) : Bytes := stripLast 13 (stripLast 10 line)

/-- The lines of bytes. -/
def lines (bytes : Bytes) : List Line :=
  (splitLines bytes).mapIdx fun i line => ⟨i + 1, lineContent line⟩

/-- Visits lines until there are no more, a visit asks to stop by returning false, or one
fails. -/
def visitLines {m : Type → Type} [Monad m] (visit : Line → m Bool) : List Line → m Unit
  | [] => pure ()
  | line :: rest => do
      let goOn ← visit line
      if goOn then visitLines visit rest else pure ()

end Cadence.Text

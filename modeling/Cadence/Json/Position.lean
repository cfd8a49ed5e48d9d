import Cadence.Json.Token

/-!
# Positions in JSON texts

Where in a text a token ends, as a line and a column.  Columns count bytes.
-/

namespace Cadence.Json

/-- A place between two characters of a text: the number of the line, counted from one, and the
number of bytes of the line before the place. -/
structure Position where
  line : Nat
  column : Nat
deriving DecidableEq

/-- The place after some characters. -/
def Position.after (chars : List Char) : Position :=
  let lastLine := (chars.reverse.takeWhile (· ≠ '\n')).reverse
  ⟨chars.count '\n' + 1, Text.Utf8.byteLength lastLine⟩

namespace Token

/-- What follows a number of tokens of a text. -/
def drop : Nat → List Char → List Char
  | 0, text => text
  | count + 1, text =>
      match readToken (text.dropWhile isSpace) with
      | some (_, rest) => drop count rest
      | none => text.dropWhile isSpace

/-- What is passed over of a text inside a bracket or brace that is given up.  White space is, and
then the bracket or brace that closes it, or a comma in a bracket. -/
def dropClosing (opened : Token) (text : List Char) : List Char :=
  match opened with
  | openBrace =>
      let rest := text.dropWhile isSpace
      (Text.skipIf '\x7d' rest).2
  | openBracket =>
      let rest := text.dropWhile isSpace
      match rest with
      | ',' :: rest => rest.dropWhile isSpace
      | _ => (Text.skipIf ']' rest).2
  | _ => text

/-- The place at which reading stops after the first tokens of a text, when a token is given up. -/
def position (text : List Char) (count : Nat) (givenUp : Token) : Position :=
  let rest := dropClosing givenUp (drop count text)
  Position.after (text.take (text.length - rest.length))

end Token

end Cadence.Json

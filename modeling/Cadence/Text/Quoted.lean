import Cadence.Text.Shown
import Cadence.Text.Utf8

/-!
# Quoted text

Texts in double quotes with everything visible: characters without an appearance are written by
their code points, and bytes that encode no character in hexadecimal.
-/

namespace Cadence.Text

/-- A digit of a hexadecimal number. -/
def hexDigit (n : Nat) : Char := if n < 10 then Char.ofNat (48 + n) else Char.ofNat (87 + n)

/-- A hexadecimal number in small letters. -/
def hexadecimal (n : Nat) : List Char :=
  if n < 16 then [hexDigit n] else hexadecimal (n / 16) ++ [hexDigit (n % 16)]
termination_by n

/-- A character as it is written inside of double quotes. -/
def escapedChar (c : Char) : List Char :=
  if c = '\t' then ['\\', 't']
  else if c = '\n' then ['\\', 'n']
  else if c = '\r' then ['\\', 'r']
  else if c = '\x00' then ['\\', '0']
  else if c = '"' then ['\\', '"']
  else if c = '\\' then ['\\', '\\']
  else if isShown c then [c]
  else ['\\', 'u', '\x7b'] ++ hexadecimal c.toNat ++ ['\x7d']

/-- A text in double quotes. -/
def quoted (text : String) : String :=
  "\"" ++ String.ofList (text.toList.flatMap escapedChar) ++ "\""

/-- A byte that encodes no character, in two large hexadecimal digits. -/
def escapedByte (b : UInt8) : List Char :=
  ['\\', 'x', (hexDigit (b.toNat / 16)).toUpper, (hexDigit (b.toNat % 16)).toUpper]

/-- A piece of an argument as it is written inside of double quotes.  Here single quotes are
escaped as well. -/
def escapedPiece : Utf8.Piece → List Char
  | .char c _ => if c = '\'' then ['\\', '\''] else escapedChar c
  | .broken bytes => bytes.flatMap escapedByte

/-- An argument in double quotes. -/
def quotedBytes (bytes : Bytes) : String :=
  "\"" ++ String.ofList ((Utf8.pieces bytes).flatMap escapedPiece) ++ "\""

end Cadence.Text

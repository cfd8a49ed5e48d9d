import Cadence.Text.Quoted

/-!
# Writing JSON

Strings and objects as JSON texts without any white space.
-/

namespace Cadence.Json

/-- A character as it is written inside of a string. -/
def stringChar (c : Char) : List Char :=
  if c = '"' then ['\\', '"']
  else if c = '\\' then ['\\', '\\']
  else if c = '\x08' then ['\\', 'b']
  else if c = '\x0c' then ['\\', 'f']
  else if c = '\n' then ['\\', 'n']
  else if c = '\r' then ['\\', 'r']
  else if c = '\t' then ['\\', 't']
  else if c.toNat < 0x20 then
    ['\\', 'u', '0', '0', Text.hexDigit (c.toNat / 16), Text.hexDigit (c.toNat % 16)]
  else [c]

/-- Writes a string. -/
def stringText (s : String) : String :=
  "\"" ++ String.ofList (s.toList.flatMap stringChar) ++ "\""

/-- Writes an array of elements that are written already. -/
def arrayText (elements : List String) : String := "[" ++ String.intercalate "," elements ++ "]"

/-- Writes an object of members whose values are written already. -/
def objectText (members : List (String × String)) : String :=
  "\x7b" ++ String.intercalate "," (members.map fun m => stringText m.1 ++ ":" ++ m.2) ++ "\x7d"

end Cadence.Json

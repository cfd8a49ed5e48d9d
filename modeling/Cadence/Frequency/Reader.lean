import Cadence.Frequency
import Cadence.Json.Position
import Cadence.Json.RuleMap
import Cadence.Text.Blank

/-!
# Reading frequencies

A frequency is written in notation or, in braces, as a rule map in JSON.  Blanks around it do not
matter.
-/

namespace Cadence.Frequency

/-- Why bytes are no frequency. -/
inductive ReadError
  /-- The bytes are in braces, but no rule map. -/
  | noRuleMap (text : String) (fault : Json.MapFault) (position : Json.Position)
  /-- The bytes do not encode a text.  `offset` counts the bytes before the first broken one. -/
  | notUtf8 (text : String) (offset : Nat)
  /-- The rules are refused. -/
  | refused (error : Error)

/-- The token that begins what is given up for a fault: a value of the wrong kind, or the object
with a key that is no unit's. -/
def givenUp : Json.MapFault → Json.Token
  | .unexpected found _ => found
  | .unknownUnit _ => .openBrace
  | .tooBig n => .number (.integer n)
  | .malformed => .broken

/-- The rule map that bytes are. -/
def readRuleMap (bytes : Text.Bytes) : Logged String ReadError RuleMap :=
  let text := Json.Token.charsOf bytes
  let tokens := Json.Token.ofText text
  (Json.ruleMapOf tokens).mapError fun misread =>
    let count := tokens.length - misread.rest.length
    .noRuleMap (Text.Utf8.decodeLossy bytes) misread.fault
      (Json.Token.position text count (givenUp misread.fault))

/-- Reads a frequency in notation. -/
def readNotation (predicates : Registry) (bytes : Text.Bytes) : Except ReadError Frequency :=
  match Text.Utf8.decode bytes with
  | .ok text => (parse text predicates).mapError .refused
  | .error offset => .error (.notUtf8 (Text.Utf8.decodeLossy bytes) offset)

/-- The frequency that bytes stand for.  The names that are no scope's are told. -/
def read (predicates : Registry) (bytes : Text.Bytes) : Logged String ReadError Frequency :=
  let trimmed := Text.trimWhere Text.isBlankByte bytes
  if trimmed.head? = some 0x7B then do
    let map ← readRuleMap trimmed
    Logged.ofExcept ((ofMap map predicates).mapError ReadError.refused)
  else
    Logged.ofExcept (readNotation predicates trimmed)

end Cadence.Frequency

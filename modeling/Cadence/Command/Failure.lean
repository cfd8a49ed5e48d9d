import Cadence.Command.Options
import Cadence.Command.Pages
import Cadence.Frequency.Reader
import Cadence.Moment.Reader

/-!
# Why a command ends early

A failure has a cause and the contexts in which it came up, the outermost first.  Help pages and the
version also end a command early, but with success.
-/

namespace Cadence.Command

/-- What ended a command. -/
inductive Cause
  /-- Something that is said in words. -/
  | message (text : String)
  /-- A frequency cannot be built or evaluated. -/
  | frequency (error : Error)
  /-- A datetime cannot be resolved. -/
  | datetime
  /-- A text is not JSON. -/
  | noJson
  /-- A JSON text is no rule map. -/
  | noRuleMap (fault : Json.MapFault) (position : Json.Position)
  /-- What is to be sorted has no order. -/
  | noOrder
  /-- Help was asked for. -/
  | help (page : String)
  /-- The version was asked for. -/
  | version

/-- A cause and the contexts in which it came up. -/
structure Failure where
  contexts : List String
  cause : Cause

/-- The name and version of the program. -/
def versionText : String := "freq 0.1.0"

/-- The words for a datetime that cannot be resolved. -/
def datetimeMessage : String := "datetime does not exist or is out of range"

namespace Failure

/-- A failure with a cause that is said in words. -/
def ofMessage (text : String) : Failure := ⟨[], .message text⟩

/-- A fault of a command line. -/
def ofOption (fault : OptionFault) : Failure := ofMessage fault.message

/-- A frequency that cannot be built or evaluated. -/
def ofError (error : Error) : Failure := ⟨[], .frequency error⟩

/-- A text that is no frequency. -/
def ofFrequency : Frequency.ReadError → Failure
  | .noRuleMap text fault position =>
      let cause :=
        match fault with
        | .malformed => Cause.noJson
        | _ => Cause.noRuleMap fault position
      ⟨["invalid JSON rule map `" ++ text ++ "`"], cause⟩
  | .notUtf8 text offset =>
      ⟨["frequency `" ++ text ++ "` is not valid UTF-8"],
        .message ("invalid UTF-8 found at byte offset " ++ Text.natText offset)⟩
  | .refused error => ofError error

/-- A text that is no datetime. -/
def ofDatetime : Moment.ReadError → Failure
  | .unresolved => ⟨[], .datetime⟩
  | .unusable clock relative => ⟨["failed to use " ++ clock ++ " on " ++ relative], .datetime⟩
  | .unrecognized text => ofMessage ("unrecognized datetime `" ++ text ++ "`")

/-- Puts a failure into a context. -/
def within (context : String) (f : Failure) : Failure :=
  { f with contexts := context :: f.contexts }

end Failure

/-- The words for a cause, outermost first. -/
def Cause.texts : Cause → List String
  | message text => [text]
  | frequency error =>
      match error with
      | .outOfRange => [error.message, datetimeMessage]
      | _ => [error.message]
  | datetime => [datetimeMessage]
  | noJson => [Json.MapFault.malformed.message]
  | noRuleMap fault position =>
      [fault.message ++ " at line " ++ Text.natText position.line ++ " column " ++
        Text.natText position.column]
  | noOrder => ["user-provided comparison function does not correctly implement a total order"]
  | help page => [page]
  | version => [versionText]

/-- The words for a failure, outermost first. -/
def Failure.texts (f : Failure) : List String := f.contexts ++ f.cause.texts

end Cadence.Command

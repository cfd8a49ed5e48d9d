import Cadence.Json.Token
import Cadence.Logged
import Cadence.RuleMap
import Cadence.Text.Quoted
import Cadence.TimeUnit.Name

/-!
# Rule maps in JSON

A rule map is written as an object: its keys are names of units, and its values are numbers, names
of predicates, or objects from names of scopes to either.  Tokens are read from left to right, and
the first fault decides.  A scope without a known name counts as missing, and is told.
-/

namespace Cadence.Json

/-- What may be written at some place of a rule map. -/
inductive Wanted
  | ruleMap
  | requirementOrScopes
  | requirement
deriving DecidableEq

/-- The words for what may be written at a place. -/
def Wanted.words : Wanted → String
  | ruleMap => "a map from unit names to rule values"
  | requirementOrScopes =>
      "an integer, a predicate name or a map from scope to either of those"
  | requirement => "an integer or a predicate name"

/-- Why a text is no rule map. -/
inductive MapFault
  /-- The text is not JSON. -/
  | malformed
  /-- A value is of the wrong kind.  The token is the one that it begins with. -/
  | unexpected (found : Token) (wanted : Wanted)
  /-- An integer is too great for a requirement. -/
  | tooBig (n : Int)
  /-- A key is no unit's name. -/
  | unknownUnit (name : String)
deriving DecidableEq

/-- The words for a value that begins with a token. -/
def Token.words : Token → String
  | null => "null"
  | boolean value => "boolean `" ++ (if value then "true" else "false") ++ "`"
  | number (.integer n) => "integer `" ++ Text.intText n ++ "`"
  | number (.float negative magnitude) =>
      "floating point `" ++ Number.floatText negative magnitude ++ "`"
  | string value => "string " ++ Text.quoted value
  | openBracket => "sequence"
  | _ => "map"

/-- The wording of a fault in a text that is JSON. -/
def MapFault.message : MapFault → String
  | malformed => "malformed JSON"
  | unexpected found wanted => "invalid type: " ++ found.words ++ ", expected " ++ wanted.words
  | tooBig n => "rule value `" ++ Text.intText n ++ "` is too big"
  | unknownUnit name => (Error.invalidUnit name).message

/-- The fault of a value of the wrong kind, or of a token that begins no value. -/
def faultAt (found : Token) (wanted : Wanted) : MapFault :=
  match found with
  | .null | .boolean _ | .number _ | .string _ | .openBracket | .openBrace =>
      .unexpected found wanted
  | .closeBrace | .closeBracket | .colon | .comma | .broken => .malformed

/-- The requirement that a token stands for. -/
def requirementOf (wanted : Wanted) : Token → Except MapFault Requirement
  | .number (.integer n) =>
      if n ≤ 9223372036854775807 then .ok (.fixed (Int64.ofInt n)) else .error (.tooBig n)
  | .string name => .ok (.predicate name)
  | found => .error (faultAt found wanted)

/-- The unit with a name. -/
def unitOf (name : String) : Except MapFault TimeUnit :=
  match TimeUnit.ofName? name with
  | some unit => .ok unit
  | none => .error (.unknownUnit name)

/-- A fault and the tokens that follow it. -/
structure Misread where
  fault : MapFault
  rest : List Token
deriving DecidableEq

/-- Reading part of a rule map.  It tells the names that are no scope's. -/
abbrev Reading (α : Type) := Logged String Misread α

/-- A fault in front of some tokens. -/
def before {α : Type} (rest : List Token) (read : Except MapFault α) : Except Misread α :=
  read.mapError fun fault => ⟨fault, rest⟩

/-- The text is not JSON. -/
def malformed {α : Type} : Reading α := Logged.fail ⟨.malformed, []⟩

/-- The scope with a name.  A name that is no scope's is told. -/
def scopeOf (name : String) : Reading (Option TimeUnit) :=
  match TimeUnit.ofName? name with
  | some scope => pure (some scope)
  | none => do
      Logged.tell name
      pure none

/-- What a scope requires of a unit. -/
abbrev ScopeEntry := Option TimeUnit × Requirement

/-- Reads the members of an object from scopes to requirements, after its opening brace and up to
its closing one. -/
def readScopes : List Token → Reading (List ScopeEntry × List Token)
  | .string name :: .colon :: value :: rest => do
      let requirement ← before rest (requirementOf .requirement value)
      let scope ← scopeOf name
      match rest with
      | .comma :: rest => do
          let (more, rest) ← readScopes rest
          pure ((scope, requirement) :: more, rest)
      | .closeBrace :: rest => pure ([(scope, requirement)], rest)
      | _ => malformed
  | _ => malformed

/-- Reads what is required of a unit. -/
def readRequirements : List Token → Reading (List ScopeEntry × List Token)
  | .openBrace :: .closeBrace :: rest => pure ([], rest)
  | .openBrace :: rest => readScopes rest
  | value :: rest => do
      let requirement ← before rest (requirementOf .requirementOrScopes value)
      pure ([(none, requirement)], rest)
  | [] => malformed

/-- Reads at most a number of members of an object from units, after its opening brace and up to
its closing one.  A key is looked at after its value. -/
def readUnits : Nat → List Token → Reading (RuleMap × List Token)
  | fuel + 1, .string name :: .colon :: rest => do
      let (scopes, rest) ← readRequirements rest
      let unit ← before rest (unitOf name)
      let entries := scopes.map fun entry => ⟨unit, entry.1, entry.2⟩
      match rest with
      | .comma :: rest => do
          let (more, rest) ← readUnits fuel rest
          pure (entries ++ more, rest)
      | .closeBrace :: rest => pure (entries, rest)
      | _ => malformed
  | _, _ => malformed

/-- Reads a rule map and what follows it. -/
def readMap : List Token → Reading (RuleMap × List Token)
  | .openBrace :: .closeBrace :: rest => pure ([], rest)
  | .openBrace :: rest => readUnits rest.length rest
  | found :: rest => Logged.fail ⟨faultAt found .ruleMap, rest⟩
  | [] => malformed

/-- The rule map that tokens are. -/
def ruleMapOf (tokens : List Token) : Reading RuleMap := do
  let (entries, rest) ← readMap tokens
  match rest with
  | [] => pure entries
  | _ => malformed

end Cadence.Json

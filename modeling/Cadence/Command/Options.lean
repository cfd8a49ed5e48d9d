import Cadence.Text.Quoted

/-!
# Splitting command lines

Arguments are options or values.  Short options may be clustered after one hyphen, and what follows
a short option that takes a value, in the same argument, is that value.  A long option takes its
value after an equals sign or from the next argument.  After a double hyphen there are only values.
Splitting goes from left to right; where it meets a fault, a last item says so, and readers of
items meet it only after everything before it.
-/

namespace Cadence.Command

open Cadence.Text (Bytes)

/-- The options that commands know. -/
inductive OptionName
  | help
  | version
  | count
  | json
  | reverse
deriving DecidableEq

/-- How an option is written, and whether it takes a value. -/
structure OptionForm where
  name : OptionName
  short? : Option Char
  long : String
  takesValue : Bool

/-- Asks for help.  The short form asks for less of it. -/
def OptionForm.help : OptionForm := ⟨.help, some 'h', "help", false⟩

/-- Asks for the version. -/
def OptionForm.version : OptionForm := ⟨.version, none, "version", false⟩

/-- The options that every command knows. -/
def commonOptions : List OptionForm := [.help, .version]

/-- What is wrong with a command line. -/
inductive OptionFault
  /-- The option is not known. -/
  | unknown (option : String)
  /-- The option takes no value. -/
  | unexpectedValue (option : String) (value : Bytes)
  /-- There is a value too many. -/
  | unexpectedArgument (value : Bytes)
  /-- The option's value is missing. -/
  | missingValue (option : String)
  /-- The value has to be a text. -/
  | notUtf8 (value : Bytes)
deriving DecidableEq

/-- The wording of a fault. -/
def OptionFault.message : OptionFault → String
  | unknown option => "invalid option '" ++ option ++ "'"
  | unexpectedValue option value =>
      "unexpected argument for option '" ++ option ++ "': " ++ Text.quotedBytes value
  | unexpectedArgument value => "unexpected argument " ++ Text.quotedBytes value
  | missingValue option => "missing argument for option '" ++ option ++ "'"
  | notUtf8 value => "argument is invalid unicode: " ++ Text.quotedBytes value

/-- A part of a command line. -/
inductive Item
  /-- A value that belongs to no option. -/
  | value (bytes : Bytes)
  /-- An option without a value.  The flag says whether it was written in its long form. -/
  | flag (name : OptionName) (long : Bool)
  /-- An option with its value. -/
  | valued (name : OptionName) (value : Bytes)
  /-- An option whose value is missing. -/
  | missing (name : OptionName) (option : String)
  /-- Here the command line stops making sense. -/
  | fault (fault : OptionFault)

/-- The number of the byte for a hyphen. -/
def hyphen : UInt8 := 45

/-- The number of the byte for an equals sign. -/
def equalsSign : UInt8 := 61

/-- A long option and its value, if one follows an equals sign. -/
def splitLong (bytes : Bytes) : String × Option Bytes :=
  let name := bytes.takeWhile (· ≠ equalsSign)
  let value := bytes.drop name.length
  (Text.Utf8.decodeLossy name, if value = [] then none else some (value.drop 1))

/-- What the arguments after some items are to be read as. -/
inductive Remaining
  /-- Splitting goes on with the next argument. -/
  | next
  /-- The next argument is the value of an option, which is written in some way. -/
  | value (name : OptionName) (option : String)
  /-- Nothing more is read. -/
  | nothing

/-- The items of a long option, and how to go on.  The bytes are those after the two hyphens. -/
def longItems (forms : List OptionForm) (bytes : Bytes) : List Item × Remaining :=
  let (name, value?) := splitLong bytes
  let option := "--" ++ name
  match forms.find? fun form => form.long = name with
  | none => ([.fault (.unknown option)], .nothing)
  | some form =>
      match form.takesValue, value? with
      | true, some value => ([.valued form.name value], .next)
      | true, none => ([], .value form.name option)
      | false, some value =>
          ([.flag form.name true, .fault (.unexpectedValue option value)], .nothing)
      | false, none => ([.flag form.name true], .next)

/-- A value without the equals sign that may separate it from its option. -/
def withoutEquals : Bytes → Bytes
  | [] => []
  | b :: rest => if b = equalsSign then rest else b :: rest

/-- How a short option is written. -/
def shortOption (c : Char) : String := String.ofList ['-', c]

/-- The items of a cluster of short options, and how to go on.  The first argument is the option
before the rest of the cluster. -/
def shortItems (forms : List OptionForm) :
    Option Char → List Text.Utf8.Piece → List Item × Remaining
  | _, [] => ([], .next)
  | _, .broken _ :: _ => ([.fault (.unknown (shortOption '\uFFFD'))], .nothing)
  | before, .char c _ :: rest =>
      let following := rest.flatMap Text.Utf8.Piece.bytes
      match before, decide (c = '=') with
      | some b, true => ([.fault (.unexpectedValue (shortOption b) following)], .nothing)
      | _, _ =>
          match forms.find? fun form => form.short? = some c with
          | none => ([.fault (.unknown (shortOption c))], .nothing)
          | some form =>
              if form.takesValue then
                if following = [] then ([], .value form.name (shortOption c))
                else ([.valued form.name (withoutEquals following)], .next)
              else
                let (items, remaining) := shortItems forms (some c) rest
                (.flag form.name false :: items, remaining)

/-- Splits the arguments of a command.  A state other than `next` says that the first of them is the
value of an option, or that nothing is to be read. -/
def itemsAfter (forms : List OptionForm) : Remaining → List Bytes → List Item
  | .nothing, _ => []
  | .next, [] => []
  | .value name option, [] => [.missing name option]
  | .value name _, value :: rest => .valued name value :: itemsAfter forms .next rest
  | .next, argument :: rest =>
      match argument with
      | [] => .value [] :: itemsAfter forms .next rest
      | first :: more =>
          if first ≠ hyphen ∨ more = [] then .value argument :: itemsAfter forms .next rest
          else if argument = [hyphen, hyphen] then rest.map .value
          else
            let (items, remaining) :=
              if more.head? = some hyphen then longItems forms (more.drop 1)
              else shortItems forms none (Text.Utf8.pieces more)
            items ++ itemsAfter forms remaining rest

/-- Splits the arguments of a command that knows some options besides the common ones. -/
def items (forms : List OptionForm) (arguments : List Bytes) : List Item :=
  itemsAfter (forms ++ commonOptions) .next arguments

/-- What a command line begins with. -/
inductive Start
  /-- A command, the arguments after it, and whether these are all values. -/
  | command (name : Bytes) (arguments : List Bytes) (onlyValues : Bool)
  /-- A common option. -/
  | option (name : OptionName)
  /-- An option that no command line begins with. -/
  | fault (fault : OptionFault)
  /-- Nothing at all. -/
  | nothing

/-- Takes the command off a command line. -/
def start : List Bytes → Start
  | [] => .nothing
  | argument :: rest =>
      if argument = [hyphen, hyphen] then
        match rest with
        | [] => .nothing
        | name :: rest => .command name rest true
      else
        match itemsAfter commonOptions .next [argument] with
        | .flag name _ :: _ => .option name
        | .fault fault :: _ => .fault fault
        | _ => .command argument rest false

end Cadence.Command

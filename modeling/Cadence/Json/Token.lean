import Cadence.Json.Number
import Cadence.Text.Utf8

/-!
# Tokens of JSON

A text is split into tokens from left to right.  Where the text stops being JSON, a last token says
so; readers of tokens meet it only after everything before it.
-/

namespace Cadence.Json

/-- A token. -/
inductive Token
  | openBrace
  | closeBrace
  | openBracket
  | closeBracket
  | colon
  | comma
  | null
  | boolean (value : Bool)
  | number (value : Number)
  | string (value : String)
  /-- Here the text stops being JSON. -/
  | broken
deriving DecidableEq

namespace Token

/-- The number that four hexadecimal digits denote. -/
def readHex4 (text : List Char) : Option (Nat × List Char) :=
  match text with
  | a :: b :: c :: d :: rest => do
      let a ← hexValue? a
      let b ← hexValue? b
      let c ← hexValue? c
      let d ← hexValue? d
      pure (((a * 16 + b) * 16 + c) * 16 + d, rest)
  | _ => none
where
  /-- The value of a hexadecimal digit. -/
  hexValue? (c : Char) : Option Nat :=
    if Text.isDigit c then some (Text.digitValue c)
    else if 'a' ≤ c ∧ c ≤ 'f' then some (c.toNat - 87)
    else if 'A' ≤ c ∧ c ≤ 'F' then some (c.toNat - 55)
    else none

/-- Reads a character that is written by its number after a backslash and a `u`.  Characters
beyond 16 bits are written as two surrogates. -/
def readCodePoint (text : List Char) : Option (Char × List Char) := do
  let (n, rest) ← readHex4 text
  if 0xDC00 ≤ n ∧ n ≤ 0xDFFF then none
  else if 0xD800 ≤ n ∧ n ≤ 0xDBFF then
    match rest with
    | '\\' :: 'u' :: low => do
        let (m, rest) ← readHex4 low
        if 0xDC00 ≤ m ∧ m ≤ 0xDFFF then
          pure (Char.ofNat (0x10000 + (n - 0xD800) * 0x400 + (m - 0xDC00)), rest)
        else
          none
    | _ => none
  else
    pure (Char.ofNat n, rest)

/-- The character that a letter after a backslash stands for. -/
def escaped? : Char → Option Char
  | '"' => some '"'
  | '\\' => some '\\'
  | '/' => some '/'
  | 'b' => some '\x08'
  | 'f' => some '\x0c'
  | 'n' => some '\n'
  | 'r' => some '\r'
  | 't' => some '\t'
  | _ => none

/-- Reads one character inside of a string. -/
def readChar : List Char → Option (Char × List Char)
  | '\\' :: 'u' :: text => readCodePoint text
  | '\\' :: c :: rest => (escaped? c).map fun e => (e, rest)
  | c :: rest => if c.toNat < 0x20 ∨ c = '\\' then none else some (c, rest)
  | [] => none

theorem readHex4_length {text rest : List Char} {n : Nat} (h : readHex4 text = some (n, rest)) :
    rest.length < text.length := by
  unfold readHex4 at h
  split at h
  · simp only [Option.bind_eq_bind, Option.bind_eq_some_iff, Option.pure_def, Option.some.injEq,
      Prod.mk.injEq] at h
    obtain ⟨_, _, _, _, _, _, _, _, _, rfl⟩ := h
    simp only [List.length_cons]
    omega
  · simp at h

theorem readCodePoint_length {text rest : List Char} {c : Char}
    (h : readCodePoint text = some (c, rest)) : rest.length < text.length := by
  unfold readCodePoint at h
  simp only [Option.bind_eq_bind, Option.bind_eq_some_iff, Prod.exists] at h
  obtain ⟨n, after, hfirst, h⟩ := h
  have hlen := readHex4_length hfirst
  split at h
  · simp at h
  · split at h
    · split at h
      · simp only [Option.bind_eq_some_iff, Prod.exists] at h
        obtain ⟨m, last, hsecond, h⟩ := h
        have hlow := readHex4_length hsecond
        split at h
        · simp only [Option.pure_def, Option.some.injEq, Prod.mk.injEq] at h
          obtain ⟨_, rfl⟩ := h
          simp only [List.length_cons] at hlen
          omega
        · simp at h
      · simp at h
    · simp only [Option.pure_def, Option.some.injEq, Prod.mk.injEq] at h
      obtain ⟨_, rfl⟩ := h
      exact hlen

theorem readChar_length {text rest : List Char} {c : Char} (h : readChar text = some (c, rest)) :
    rest.length < text.length := by
  unfold readChar at h
  split at h
  · have := readCodePoint_length h
    simp only [List.length_cons]
    omega
  · simp only [Option.map_eq_some_iff, Prod.mk.injEq] at h
    obtain ⟨_, _, _, rfl⟩ := h
    simp only [List.length_cons]
    omega
  · split at h
    · simp at h
    · simp only [Option.some.injEq, Prod.mk.injEq] at h
      obtain ⟨_, rfl⟩ := h
      simp
  · simp at h

/-- Reads the rest of a string after its opening quote. -/
def readString (text : List Char) : Option (List Char × List Char) :=
  match text with
  | '"' :: rest => some ([], rest)
  | text =>
      match h : readChar text with
      | none => none
      | some (c, after) =>
          have := readChar_length h
          (readString after).map fun read => (c :: read.1, read.2)
termination_by text.length

/-- Reads a token from a text that does not begin with white space.  Returns the token with the
rest of the text, or nothing where the text stops being JSON. -/
def readToken : List Char → Option (Token × List Char)
  | '\x7b' :: rest => some (openBrace, rest)
  | '\x7d' :: rest => some (closeBrace, rest)
  | '[' :: rest => some (openBracket, rest)
  | ']' :: rest => some (closeBracket, rest)
  | ':' :: rest => some (colon, rest)
  | ',' :: rest => some (comma, rest)
  | 'n' :: 'u' :: 'l' :: 'l' :: rest => some (null, rest)
  | 't' :: 'r' :: 'u' :: 'e' :: rest => some (boolean true, rest)
  | 'f' :: 'a' :: 'l' :: 's' :: 'e' :: rest => some (boolean false, rest)
  | '"' :: rest => (readString rest).map fun read => (string (String.ofList read.1), read.2)
  | text => (Number.read text).map fun read => (number read.1, read.2)

/-- Whether a character is white space. -/
def isSpace (c : Char) : Bool := c = ' ' || c = '\t' || c = '\n' || c = '\r'

/-- Splits a text into at most a number of tokens. -/
def split : Nat → List Char → List Token
  | 0, _ => []
  | fuel + 1, text =>
      match text.dropWhile isSpace with
      | [] => []
      | c :: rest =>
          match readToken (c :: rest) with
          | none => [broken]
          | some (token, rest) => token :: split fuel rest

/-- The tokens of a text.  A text has no more tokens than characters. -/
def ofText (text : List Char) : List Token := split text.length text

/-- The characters of bytes.  Bytes that encode no character become the character zero, which no
JSON text holds. -/
def charsOf (bytes : Text.Bytes) : List Char :=
  (Text.Utf8.pieces bytes).map fun
    | .char c _ => c
    | .broken _ => '\x00'

end Token

end Cadence.Json

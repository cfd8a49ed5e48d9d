/-!
# UTF-8

Texts as bytes.  Decoding splits any bytes into characters and broken pieces, where a broken piece
is as long as the bytes could still have begun a character, and at least one byte.
-/

namespace Cadence.Text

/-- A text whose bytes may be anything. -/
abbrev Bytes := List UInt8

namespace Utf8

/-- A part of decoded bytes. -/
inductive Piece
  /-- A character, written in well-formed UTF-8. -/
  | char (c : Char) (bytes : Bytes)
  /-- Bytes that begin no character. -/
  | broken (bytes : Bytes)

/-- The bytes of a piece. -/
def Piece.bytes : Piece → Bytes
  | char _ bytes => bytes
  | broken bytes => bytes

/-- What may follow a leading byte: how many bytes, and between which bounds the first lies. -/
structure Tail where
  count : Nat
  low : UInt8
  high : UInt8

/-- What may follow a byte, if it can begin a character. -/
def tail? (b : UInt8) : Option Tail :=
  if b < 0x80 then some ⟨0, 0x80, 0xBF⟩
  else if b < 0xC2 then none
  else if b < 0xE0 then some ⟨1, 0x80, 0xBF⟩
  else if b = 0xE0 then some ⟨2, 0xA0, 0xBF⟩
  else if b = 0xED then some ⟨2, 0x80, 0x9F⟩
  else if b < 0xF0 then some ⟨2, 0x80, 0xBF⟩
  else if b = 0xF0 then some ⟨3, 0x90, 0xBF⟩
  else if b < 0xF4 then some ⟨3, 0x80, 0xBF⟩
  else if b = 0xF4 then some ⟨3, 0x80, 0x8F⟩
  else none

/-- The longest run of bytes that may follow, of at most the expected number. -/
def takeTail : Nat → UInt8 → UInt8 → Bytes → Bytes
  | 0, _, _, _ => []
  | _ + 1, _, _, [] => []
  | count + 1, low, high, b :: rest =>
      if low ≤ b ∧ b ≤ high then b :: takeTail count 0x80 0xBF rest else []

/-- The bits that a leading byte contributes, when a number of bytes follow it. -/
def leadingBits (b : UInt8) : Nat → Nat
  | 0 => b.toNat
  | 1 => b.toNat % 32
  | 2 => b.toNat % 16
  | _ => b.toNat % 8

/-- The character that a leading byte and the bytes after it encode. -/
def charOf (b : UInt8) (following : Bytes) : Char :=
  Char.ofNat (following.foldl (fun n f => n * 64 + f.toNat % 64) (leadingBits b following.length))

/-- The piece that begins with a byte. -/
def pieceAt (b : UInt8) (rest : Bytes) : Piece :=
  match tail? b with
  | none => .broken [b]
  | some t =>
      let following := takeTail t.count t.low t.high rest
      if following.length = t.count then .char (charOf b following) (b :: following)
      else .broken (b :: following)

/-- Splits bytes into pieces. -/
def pieces : Bytes → List Piece
  | [] => []
  | b :: rest =>
      let piece := pieceAt b rest
      piece :: pieces (rest.drop (piece.bytes.length - 1))
termination_by bytes => bytes.length
decreasing_by simp only [List.length_drop, List.length_cons]; omega

/-- The number of bytes that characters take up. -/
def byteLength : List Char → Nat
  | [] => 0
  | c :: rest => c.utf8Size + byteLength rest

theorem byteLength_append (front rest : List Char) :
    byteLength (front ++ rest) = byteLength front + byteLength rest := by
  induction front with
  | nil => simp [byteLength]
  | cons c front ih => simp [byteLength, ih, Nat.add_assoc]

/-- The bytes of a text. -/
def encode (text : String) : Bytes := text.toUTF8.data.toList

/-- A text with each broken piece replaced by one replacement character. -/
def decodeLossy (bytes : Bytes) : String :=
  String.ofList ((pieces bytes).map fun
    | .char c _ => c
    | .broken _ => '\uFFFD')

/-- The characters of pieces, or the number of bytes before the first broken one. -/
def charsOf : Nat → List Piece → Except Nat (List Char)
  | _, [] => .ok []
  | offset, .broken _ :: _ => .error offset
  | offset, .char c bytes :: rest =>
      match charsOf (offset + bytes.length) rest with
      | .ok chars => .ok (c :: chars)
      | .error broken => .error broken

/-- The text that bytes encode, or the number of bytes before the first that do not belong. -/
def decode (bytes : Bytes) : Except Nat String :=
  match charsOf 0 (pieces bytes) with
  | .ok chars => .ok (String.ofList chars)
  | .error offset => .error offset

/-- The text that bytes encode, if they are well-formed. -/
def decode? (bytes : Bytes) : Option String :=
  match decode bytes with
  | .ok text => some text
  | .error _ => none

end Utf8

end Cadence.Text

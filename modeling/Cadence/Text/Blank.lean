import Cadence.Text.Utf8

/-!
# Blank characters

The characters that show as nothing but space (the Unicode property White_Space), and texts without
them at their ends.
-/

namespace Cadence.Text

/-- Whether a character is blank. -/
def isBlank (c : Char) : Bool :=
  let n := c.toNat
  (9 ≤ n && n ≤ 13) || n = 0x20 || n = 0x85 || n = 0xA0 || n = 0x1680 ||
    (0x2000 ≤ n && n ≤ 0x200A) || n = 0x2028 || n = 0x2029 || n = 0x202F || n = 0x205F ||
    n = 0x3000

/-- Whether a byte is a blank of ASCII: a tab, a line feed, a form feed, a carriage return or a
space. -/
def isBlankByte (b : UInt8) : Bool := b = 9 || b = 10 || b = 12 || b = 13 || b = 32

/-- Drops the elements at both ends that satisfy a test. -/
def trimWhere {α : Type} (test : α → Bool) (items : List α) : List α :=
  ((items.dropWhile test).reverse.dropWhile test).reverse

/-- A text without the blanks at its ends. -/
def trimmed (text : String) : String := String.ofList (trimWhere isBlank text.toList)

end Cadence.Text

/-!
# Letters of ASCII

Words of fixed ASCII spelling are recognised without regard to case.  Among all characters only
the ASCII capitals and the Kelvin sign have an ASCII letter as their lower case, so lowering just
these decides every comparison with an ASCII word.
-/

namespace Cadence.Text

/-- Whether a character is a small letter of ASCII. -/
def isSmallLetter (c : Char) : Bool := 'a' ≤ c && c ≤ 'z'

/-- Whether a character is a letter of ASCII. -/
def isLetter (c : Char) : Bool := ('A' ≤ c && c ≤ 'Z') || isSmallLetter c

/-- The lower case of a character as far as it is an ASCII letter; other characters stay. -/
def lowerChar (c : Char) : Char :=
  if 'A' ≤ c ∧ c ≤ 'Z' then Char.ofNat (c.toNat + 32)
  else if c = '\u212A' then 'k'
  else c

/-- Lowers every character of a text. -/
def lower (s : String) : String := s.map lowerChar

end Cadence.Text

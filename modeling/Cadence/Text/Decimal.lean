/-!
# Decimal numerals

Writing and reading whole numbers in base ten.  Reading what was written gives the number back
(`value_decimal`).
-/

namespace Cadence.Text

/-- The character of a digit below ten. -/
def digitChar (d : Nat) : Char := Char.ofNat (48 + d)

/-- The value of a digit character. -/
def digitValue (c : Char) : Nat := c.toNat - 48

/-- Whether a character is one of the ten ASCII digits. -/
def isDigit (c : Char) : Bool := '0' ≤ c && c ≤ '9'

/-- The numeral of a number, without leading zeros. -/
def decimal (n : Nat) : List Char :=
  if n < 10 then [digitChar n] else decimal (n / 10) ++ [digitChar (n % 10)]
termination_by n

/-- The number that a row of digits denotes. -/
def value (digits : List Char) : Nat :=
  digits.foldl (fun n c => n * 10 + digitValue c) 0

/-- The numeral of an integer, with a minus sign when it is negative. -/
def decimalInt (n : Int) : List Char :=
  if n < 0 then '-' :: decimal n.natAbs else decimal n.natAbs

/-- A numeral filled up with zeros on the left to a least width. -/
def padded (width n : Nat) : List Char :=
  List.replicate (width - (decimal n).length) '0' ++ decimal n

/-- A text of a numeral filled up with zeros. -/
def paddedText (width n : Nat) : String := String.ofList (padded width n)

/-- A text of a numeral. -/
def natText (n : Nat) : String := String.ofList (decimal n)

/-- A text of the numeral of an integer. -/
def intText (n : Int) : String := String.ofList (decimalInt n)

theorem digitValue_digitChar {d : Nat} (h : d < 10) : digitValue (digitChar d) = d := by
  have hall : ∀ e ∈ List.range 10, digitValue (digitChar e) = e := by decide
  exact hall d (List.mem_range.mpr h)

theorem isDigit_digitChar {d : Nat} (h : d < 10) : isDigit (digitChar d) = true := by
  have hall : ∀ e ∈ List.range 10, isDigit (digitChar e) = true := by decide
  exact hall d (List.mem_range.mpr h)

theorem value_append_singleton (digits : List Char) (c : Char) :
    value (digits ++ [c]) = value digits * 10 + digitValue c := by
  simp [value]

theorem value_decimal (n : Nat) : value (decimal n) = n := by
  fun_induction decimal n with
  | case1 n h => simp [value, digitValue_digitChar h]
  | case2 n h ih =>
      rw [value_append_singleton, ih, digitValue_digitChar (by omega)]
      omega

theorem isDigit_of_mem_decimal {n : Nat} {c : Char} (h : c ∈ decimal n) : isDigit c = true := by
  fun_induction decimal n with
  | case1 n hn =>
      rw [List.mem_singleton.mp h]
      exact isDigit_digitChar hn
  | case2 n hn ih =>
      rcases List.mem_append.mp h with h | h
      · exact ih h
      · rw [List.mem_singleton.mp h]
        exact isDigit_digitChar (by omega)

theorem decimal_ne_nil (n : Nat) : decimal n ≠ [] := by
  unfold decimal
  split <;> simp

end Cadence.Text

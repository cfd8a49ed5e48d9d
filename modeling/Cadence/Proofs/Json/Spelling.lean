import Cadence.Json.Token
import Cadence.Proofs.Notation.Reading

/-!
# The spelling of JSON

How tokens are written, stated on its own, without the reader of tokens: strings with their escapes
(`Token.StringMeans`), numerals (`Number.Means`), and rows of tokens with white space anywhere
between them (`Token.RowMeans`).  From a text that stands for a row of tokens the reader takes these
tokens (`Token.RowMeans.ofText_eq`).  There is one lemma for each kind of part, which says that the
reader takes the part off the text in front of whatever follows it.
-/

namespace Cadence.Json

/-! ## Numerals -/

namespace Number

/-- One digit or more. -/
structure IsDigits (text : List Char) : Prop where
  ne_nil : text ≠ []
  digits : ∀ c ∈ text, Text.isDigit c = true

/-- A whole number without needless zeros in front. -/
inductive IsWhole : List Char → Prop
  | zero : IsWhole ['0']
  | positive {first : Char} {rest : List Char} (hfirst : first ≠ '0')
      (hdigits : IsDigits (first :: rest)) : IsWhole (first :: rest)

/-- A fraction with its point.  Without one the text is empty. -/
inductive FractionMeans : List Char → Option (List Char) → Prop
  | none : FractionMeans [] none
  | some {digits : List Char} (hdigits : IsDigits digits) :
      FractionMeans ('.' :: digits) (some digits)

/-- The signs of exponents.  The flag says whether the exponent is negative. -/
def exponentSigns : List (List Char × Bool) := [([], false), (['+'], false), (['-'], true)]

/-- An exponent with its mark and sign.  Without one the text is empty. -/
inductive ExponentMeans : List Char → Option (Bool × List Char) → Prop
  | none : ExponentMeans [] none
  | some {mark : Char} {sign digits : List Char} {down : Bool} (hmark : mark = 'e' ∨ mark = 'E')
      (hsign : (sign, down) ∈ exponentSigns) (hdigits : IsDigits digits) :
      ExponentMeans (mark :: (sign ++ digits)) (some (down, digits))

/-- A numeral, and the number that it stands for. -/
inductive Means : List Char → Number → Prop
  | numeral {literal : Literal} {fraction exponent : List Char} {number : Number}
      (hwhole : IsWhole literal.whole) (hfraction : FractionMeans fraction literal.fraction)
      (hexponent : ExponentMeans exponent literal.exponent)
      (hnumber : literal.number = some number) :
      Means ((if literal.negative then ['-'] else []) ++ literal.whole ++ fraction ++ exponent)
        number

/-- The text does not go on with a numeral. -/
def Ends (text : List Char) : Prop :=
  ∀ c ∈ text.head?, Text.isDigit c = false ∧ c ≠ '.' ∧ c ≠ 'e' ∧ c ≠ 'E'

theorem readDigits_append {digits rest : List Char} (hdigits : IsDigits digits)
    (hrest : ∀ c ∈ rest.head?, Text.isDigit c = false) :
    readDigits (digits ++ rest) = some (digits, rest) := by
  unfold readDigits
  rw [Notation.takeWhile_append_stop hdigits.digits hrest,
    Notation.dropWhile_append_stop hdigits.digits hrest]
  exact if_neg hdigits.ne_nil

theorem readWhole_append {whole rest : List Char} (hwhole : IsWhole whole)
    (hrest : ∀ c ∈ rest.head?, Text.isDigit c = false) :
    readWhole (whole ++ rest) = some (whole, rest) := by
  cases hwhole with
  | zero =>
      show (if rest.head?.any Text.isDigit then none else some (['0'], rest)) = _
      have hnone : rest.head?.any Text.isDigit = false := by
        cases rest with
        | nil => rfl
        | cons c rest => exact hrest c rfl
      rw [hnone]
      rfl
  | positive hfirst hdigits =>
      rw [← readDigits_append hdigits hrest]
      unfold readWhole
      split
      · rename_i heq
        exact absurd (List.cons.inj heq).1 hfirst
      · rfl

theorem FractionMeans.head {text : List Char} {fraction : Option (List Char)}
    (h : FractionMeans text fraction) {rest : List Char}
    (hrest : ∀ c ∈ rest.head?, Text.isDigit c = false) :
    ∀ c ∈ (text ++ rest).head?, Text.isDigit c = false := by
  cases h with
  | none => exact hrest
  | some hdigits =>
      rintro _ ⟨⟩
      decide

theorem ExponentMeans.head {text : List Char} {exponent : Option (Bool × List Char)}
    (h : ExponentMeans text exponent) {rest : List Char} (hrest : Ends rest) :
    ∀ c ∈ (text ++ rest).head?, Text.isDigit c = false ∧ c ≠ '.' := by
  cases h with
  | none =>
      intro c hc
      exact ⟨(hrest c hc).1, (hrest c hc).2.1⟩
  | some hmark hsign hdigits =>
      rintro c ⟨⟩
      rcases hmark with rfl | rfl <;> decide

theorem readFraction_append {text rest : List Char} {fraction : Option (List Char)}
    (h : FractionMeans text fraction)
    (hrest : ∀ c ∈ rest.head?, Text.isDigit c = false ∧ c ≠ '.') :
    readFraction (text ++ rest) = some (fraction, rest) := by
  cases h with
  | none =>
      cases rest with
      | nil => rfl
      | cons c rest =>
          unfold readFraction
          split
          · rename_i heq
            exact absurd (List.cons.inj heq).1 (hrest c rfl).2
          · rfl
  | some hdigits =>
      show (readDigits (_ ++ rest) >>= fun read => some (some read.1, read.2)) = _
      rw [readDigits_append hdigits fun c hc => (hrest c hc).1]
      rfl

theorem IsDigits.exists_cons {text : List Char} (h : IsDigits text) :
    ∃ first rest, text = first :: rest ∧ Text.isDigit first = true := by
  obtain ⟨first, rest, rfl⟩ := List.exists_cons_of_ne_nil h.ne_nil
  exact ⟨first, rest, rfl, h.digits first List.mem_cons_self⟩

theorem IsWhole.exists_cons {text : List Char} (h : IsWhole text) :
    ∃ first rest, text = first :: rest ∧ Text.isDigit first = true := by
  cases h with
  | zero => exact ⟨'0', [], rfl, rfl⟩
  | positive hfirst hdigits => exact hdigits.exists_cons

theorem readSign_append {sign digits : List Char} {down : Bool}
    (hsign : (sign, down) ∈ exponentSigns) (hdigits : IsDigits digits) (rest : List Char) :
    readSign (sign ++ digits ++ rest) = (down, digits ++ rest) := by
  obtain ⟨first, tail, rfl, hfirst⟩ := hdigits.exists_cons
  simp only [exponentSigns, List.mem_cons, List.not_mem_nil, or_false, Prod.mk.injEq] at hsign
  rcases hsign with ⟨rfl, rfl⟩ | ⟨rfl, rfl⟩ | ⟨rfl, rfl⟩
  · show readSign (first :: (tail ++ rest)) = _
    unfold readSign
    split
    · rename_i heq
      rw [(List.cons.inj heq).1] at hfirst
      exact absurd hfirst (by decide)
    · rename_i heq
      rw [(List.cons.inj heq).1] at hfirst
      exact absurd hfirst (by decide)
    · rfl
  · rfl
  · rfl

theorem readExponent_append {text rest : List Char} {exponent : Option (Bool × List Char)}
    (h : ExponentMeans text exponent) (hrest : Ends rest) :
    readExponent (text ++ rest) = some (exponent, rest) := by
  cases h with
  | none =>
      cases rest with
      | nil => rfl
      | cons c rest =>
          obtain ⟨-, -, hlower, hupper⟩ := hrest c rfl
          exact if_neg fun hmark => hmark.elim hlower hupper
  | @some mark sign digits down hmark hsign hdigits =>
      rw [List.cons_append, readExponent, if_pos hmark, readSign_append hsign hdigits]
      show (readDigits (digits ++ rest) >>= fun read => some (some (down, read.1), read.2)) = _
      rw [readDigits_append hdigits fun c hc => (hrest c hc).1]
      rfl

/-- The sign of a numeral is told from its first digit. -/
theorem skipIf_append (negative : Bool) {whole : List Char} (hwhole : IsWhole whole)
    (rest : List Char) :
    Text.skipIf '-' ((if negative then ['-'] else []) ++ (whole ++ rest)) =
      (negative, whole ++ rest) := by
  cases negative with
  | true => rfl
  | false =>
      obtain ⟨first, tail, rfl, hfirst⟩ := hwhole.exists_cons
      show (if first = '-' then _ else _) = _
      rw [if_neg]
      · rfl
      · rintro rfl
        exact absurd hfirst (by decide)

theorem Means.exists_cons {text : List Char} {number : Number} (h : Means text number) :
    ∃ first rest, text = first :: rest ∧ (first = '-' ∨ Text.isDigit first = true) := by
  cases h with
  | @numeral literal fraction exponent _ hwhole hfraction hexponent hnumber =>
      obtain ⟨first, rest, hfirst, hdigit⟩ := hwhole.exists_cons
      cases literal.negative with
      | true => exact ⟨'-', _, rfl, .inl rfl⟩
      | false => exact ⟨first, _, by rw [hfirst]; rfl, .inr hdigit⟩

/-- A numeral is taken off a text that does not go on with it. -/
theorem Means.read_append {text rest : List Char} {number : Number} (h : Means text number)
    (hrest : Ends rest) : read (text ++ rest) = some (number, rest) := by
  cases h with
  | @numeral literal fraction exponent _ hwhole hfraction hexponent hnumber =>
      have hafter := hexponent.head hrest
      have hwholeEnd := hfraction.head fun c hc => (hafter c hc).1
      simp only [List.append_assoc]
      unfold read
      rw [skipIf_append literal.negative hwhole]
      simp only [Option.bind_eq_bind, Option.bind_some, readWhole_append hwhole hwholeEnd,
        readFraction_append hfraction hafter, readExponent_append hexponent hrest, hnumber]
      rfl

end Number

/-! ## Strings -/

namespace Token

/-- Four hexadecimal digits, and the number that they denote. -/
inductive HexMeans : List Char → Nat → Prop
  | four {a b c d : Char} {x y z w : Nat} (ha : readHex4.hexValue? a = some x)
      (hb : readHex4.hexValue? b = some y) (hc : readHex4.hexValue? c = some z)
      (hd : readHex4.hexValue? d = some w) :
      HexMeans [a, b, c, d] (((x * 16 + y) * 16 + z) * 16 + w)

/-- The letters after a backslash, and the characters that they stand for. -/
def escapes : List (Char × Char) :=
  [('"', '"'), ('\\', '\\'), ('/', '/'), ('b', '\x08'), ('f', '\x0c'), ('n', '\n'), ('r', '\r'),
    ('t', '\t')]

/-- What follows a backslash: a letter, or the number of a character, which takes two surrogates
beyond 16 bits. -/
inductive EscapeMeans : List Char → Char → Prop
  | letter {letter c : Char} (h : (letter, c) ∈ escapes) : EscapeMeans [letter] c
  | number {digits : List Char} {n : Nat} (hdigits : HexMeans digits n)
      (hn : n < 0xD800 ∨ 0xDFFF < n) : EscapeMeans ('u' :: digits) (Char.ofNat n)
  | surrogates {high low : List Char} {n m : Nat} (hhigh : HexMeans high n)
      (hn : 0xD800 ≤ n ∧ n ≤ 0xDBFF) (hlow : HexMeans low m) (hm : 0xDC00 ≤ m ∧ m ≤ 0xDFFF) :
      EscapeMeans ('u' :: (high ++ '\\' :: 'u' :: low))
        (Char.ofNat (0x10000 + (n - 0xD800) * 0x400 + (m - 0xDC00)))

/-- What stands between the quotes of a string, and the characters that it stands for. -/
inductive StringMeans : List Char → List Char → Prop
  | nil : StringMeans [] []
  | plain {c : Char} {text chars : List Char} (hcontrol : 0x20 ≤ c.toNat) (hquote : c ≠ '"')
      (hbackslash : c ≠ '\\') (h : StringMeans text chars) : StringMeans (c :: text) (c :: chars)
  | escape {after text chars : List Char} {c : Char} (hescape : EscapeMeans after c)
      (h : StringMeans text chars) : StringMeans ('\\' :: (after ++ text)) (c :: chars)

/-- Whether a character may stand in a string without an escape. -/
def isPlain (c : Char) : Bool := decide (0x20 ≤ c.toNat) && c != '"' && c != '\\'

theorem StringMeans.of_plain {chars : List Char} (h : chars.all isPlain) :
    StringMeans chars chars := by
  induction chars with
  | nil => exact .nil
  | cons c chars ih =>
      rw [List.all_cons, Bool.and_eq_true] at h
      obtain ⟨hplain, hrest⟩ := h
      simp only [isPlain, Bool.and_eq_true, decide_eq_true_eq, bne_iff_ne] at hplain
      obtain ⟨⟨hcontrol, hquote⟩, hbackslash⟩ := hplain
      exact .plain hcontrol hquote hbackslash (ih hrest)

theorem HexMeans.readHex4_append {digits : List Char} {n : Nat} (h : HexMeans digits n)
    (rest : List Char) : readHex4 (digits ++ rest) = some (n, rest) := by
  cases h with
  | four ha hb hc hd =>
      simp only [List.cons_append, List.nil_append, readHex4, ha, hb, hc, hd,
        Option.bind_eq_bind, Option.bind_some]
      rfl

/-- The number of a character is read, unless it is a surrogate. -/
theorem readCodePoint_append {digits : List Char} {n : Nat} (hdigits : HexMeans digits n)
    (hn : n < 0xD800 ∨ 0xDFFF < n) (rest : List Char) :
    readCodePoint (digits ++ rest) = some (Char.ofNat n, rest) := by
  unfold readCodePoint
  rw [hdigits.readHex4_append]
  show (if 0xDC00 ≤ n ∧ n ≤ 0xDFFF then none
    else if 0xD800 ≤ n ∧ n ≤ 0xDBFF then _ else some (Char.ofNat n, rest)) = _
  rw [if_neg (by omega), if_neg (by omega)]

theorem readCodePoint_surrogates {high low : List Char} {n m : Nat} (hhigh : HexMeans high n)
    (hn : 0xD800 ≤ n ∧ n ≤ 0xDBFF) (hlow : HexMeans low m) (hm : 0xDC00 ≤ m ∧ m ≤ 0xDFFF)
    (rest : List Char) :
    readCodePoint (high ++ ('\\' :: 'u' :: (low ++ rest))) =
      some (Char.ofNat (0x10000 + (n - 0xD800) * 0x400 + (m - 0xDC00)), rest) := by
  unfold readCodePoint
  rw [hhigh.readHex4_append]
  show (if 0xDC00 ≤ n ∧ n ≤ 0xDFFF then none
    else if 0xD800 ≤ n ∧ n ≤ 0xDBFF then readHex4 (low ++ rest) >>= _ else _) = _
  rw [if_neg (by omega), if_pos hn, hlow.readHex4_append]
  show (if 0xDC00 ≤ m ∧ m ≤ 0xDFFF then some _ else none) = _
  rw [if_pos hm]

theorem EscapeMeans.readChar_append {after : List Char} {c : Char} (h : EscapeMeans after c)
    (rest : List Char) : readChar ('\\' :: (after ++ rest)) = some (c, rest) := by
  cases h with
  | @letter letter _ h =>
      have hall : ∀ entry ∈ escapes, entry.1 ≠ 'u' ∧ escaped? entry.1 = some entry.2 := by decide
      obtain ⟨hne, hescaped⟩ := hall _ h
      rw [List.singleton_append, readChar, hescaped]
      · rfl
      · exact hne
  | number hdigits hn => exact readCodePoint_append hdigits hn rest
  | surrogates hhigh hn hlow hm =>
      rw [List.cons_append, List.append_assoc]
      exact readCodePoint_surrogates hhigh hn hlow hm rest

theorem readChar_plain {c : Char} (hcontrol : 0x20 ≤ c.toNat) (hbackslash : c ≠ '\\')
    (rest : List Char) : readChar (c :: rest) = some (c, rest) := by
  rw [readChar, if_neg]
  · rintro (h | h)
    · omega
    · exact hbackslash h
  · intro _ h
    exact absurd h hbackslash
  · intro _ _ h
    exact absurd h hbackslash

/-- A string goes on with a character unless it ends. -/
theorem readString_of_readChar {text rest : List Char} {c : Char}
    (hquote : ∀ after, text ≠ '"' :: after) (hread : readChar text = some (c, rest)) :
    readString text = (readString rest).map fun read => (c :: read.1, read.2) := by
  rw [readString]
  split
  · rename_i h
    rw [hread] at h
    cases h
  · rename_i h
    rw [hread] at h
    cases h
    rfl
  · exact hquote

theorem StringMeans.readString_append {text chars : List Char} (h : StringMeans text chars)
    (rest : List Char) : readString (text ++ '"' :: rest) = some (chars, rest) := by
  induction h with
  | nil => rw [List.nil_append, readString]
  | plain hcontrol hquote hbackslash _ ih =>
      rw [List.cons_append, readString_of_readChar _ (readChar_plain hcontrol hbackslash _), ih]
      · rfl
      · intro after heq
        exact hquote (List.cons.inj heq).1
  | escape hescape _ ih =>
      rw [List.cons_append, List.append_assoc,
        readString_of_readChar _ (hescape.readChar_append _), ih]
      · rfl
      · intro after heq
        exact absurd (List.cons.inj heq).1 (by decide)

/-! ## Tokens -/

/-- A spelling, and the token that it stands for. -/
inductive Means : List Char → Token → Prop
  | openBrace : Means ['\x7b'] openBrace
  | closeBrace : Means ['\x7d'] closeBrace
  | openBracket : Means ['['] openBracket
  | closeBracket : Means [']'] closeBracket
  | colon : Means [':'] colon
  | comma : Means [','] comma
  | null : Means ['n', 'u', 'l', 'l'] null
  | trueWord : Means ['t', 'r', 'u', 'e'] (boolean true)
  | falseWord : Means ['f', 'a', 'l', 's', 'e'] (boolean false)
  | number {text : List Char} {n : Number} (h : Number.Means text n) : Means text (number n)
  | string {text chars : List Char} (h : StringMeans text chars) :
      Means ('"' :: (text ++ ['"'])) (string (String.ofList chars))

/-- Tokens in a row with white space anywhere between them.  A numeral ends where the text does not
go on with it. -/
inductive RowMeans : List Char → List Token → Prop
  | nil {spaces : List Char} (hspaces : ∀ c ∈ spaces, isSpace c = true) : RowMeans spaces []
  | cons {spaces text rest : List Char} {token : Token} {tokens : List Token}
      (hspaces : ∀ c ∈ spaces, isSpace c = true) (htoken : Means text token)
      (hends : ∀ n, token = number n → Number.Ends rest) (hrest : RowMeans rest tokens) :
      RowMeans (spaces ++ (text ++ rest)) (token :: tokens)

/-- A token that is no number may stand in front of anything. -/
theorem RowMeans.next {text rest : List Char} {token : Token} {tokens : List Token}
    (htoken : Means text token) (hnumber : ∀ n, token ≠ number n) (hrest : RowMeans rest tokens) :
    RowMeans (text ++ rest) (token :: tokens) :=
  .cons (List.forall_mem_nil _) htoken (fun n h => absurd h (hnumber n)) hrest

/-- The characters that tokens other than numerals begin with. -/
def marks : List Char := ['\x7b', '\x7d', '[', ']', ':', ',', 'n', 't', 'f', '"']

theorem notMem_marks {first : Char} (h : first = '-' ∨ Text.isDigit first = true) :
    first ∉ marks := by
  intro hmark
  have hall : marks.all fun c => c != '-' && !Text.isDigit c := by decide
  have hneither := List.all_eq_true.mp hall first hmark
  rw [Bool.and_eq_true, bne_iff_ne, Bool.not_eq_true'] at hneither
  rcases h with h | h
  · exact hneither.1 h
  · rw [hneither.2] at h
    cases h

/-- A token that begins like a numeral is one. -/
theorem readToken_number {first : Char} (h : first = '-' ∨ Text.isDigit first = true)
    (rest : List Char) :
    readToken (first :: rest) =
      (Number.read (first :: rest)).map fun read => (number read.1, read.2) := by
  have hne : ∀ c ∈ marks, first ≠ c := by
    rintro c hc rfl
    exact notMem_marks h hc
  unfold readToken
  split
  case h_11 => rfl
  all_goals
    rename_i heq
    exact absurd (List.cons.inj heq).1 (hne _ (by decide))

theorem Means.exists_cons {text : List Char} {token : Token} (h : Means text token) :
    ∃ first rest, text = first :: rest ∧ isSpace first = false := by
  cases h with
  | number h =>
      obtain ⟨first, rest, rfl, hfirst⟩ := h.exists_cons
      refine ⟨first, rest, rfl, Bool.eq_false_iff.mpr fun hspace => ?_⟩
      simp only [isSpace, Bool.or_eq_true, decide_eq_true_eq, or_assoc] at hspace
      rcases hspace with rfl | rfl | rfl | rfl <;> exact absurd hfirst (by decide)
  | _ => exact ⟨_, _, rfl, by decide⟩

theorem Means.readToken_append {text rest : List Char} {token : Token} (h : Means text token)
    (hends : ∀ n, token = Token.number n → Number.Ends rest) :
    readToken (text ++ rest) = some (token, rest) := by
  cases h with
  | number h =>
      obtain ⟨first, tail, htext, hfirst⟩ := h.exists_cons
      have hread := h.read_append (hends _ rfl)
      rw [htext, List.cons_append] at hread ⊢
      rw [readToken_number hfirst, hread]
      rfl
  | string h =>
      show (readString (_ ++ ['"'] ++ rest)).map _ = _
      rw [List.append_assoc, List.singleton_append, h.readString_append]
      rfl
  | _ => rfl

theorem RowMeans.split_eq {text : List Char} {tokens : List Token} (h : RowMeans text tokens)
    {fuel : Nat} (hfuel : text.length ≤ fuel) : split fuel text = tokens := by
  -- Every token has a character, so the fuel lasts for all tokens.
  induction h generalizing fuel with
  | nil hspaces =>
      cases fuel with
      | zero => rfl
      | succ fuel =>
          rw [split, List.dropWhile_eq_nil_iff.mpr hspaces]
  | @cons spaces text rest token tokens hspaces htoken hends hrest ih =>
      obtain ⟨first, tail, htext, hfirst⟩ := htoken.exists_cons
      have hread := htoken.readToken_append hends
      have hdrop : (spaces ++ (text ++ rest)).dropWhile isSpace = text ++ rest := by
        apply Notation.dropWhile_append_stop hspaces
        rw [htext]
        rintro _ ⟨⟩
        exact hfirst
      have hlength : rest.length + 1 ≤ fuel := by
        rw [htext] at hfuel
        simp only [List.length_append, List.length_cons] at hfuel
        omega
      obtain ⟨fuel, rfl⟩ : ∃ n, fuel = n + 1 := ⟨fuel - 1, by omega⟩
      rw [split, hdrop]
      rw [htext, List.cons_append] at hread ⊢
      simp only [hread]
      rw [ih (Nat.le_of_succ_le_succ hlength)]

/-- From a text that stands for tokens in a row these tokens are read. -/
theorem RowMeans.ofText_eq {text : List Char} {tokens : List Token} (h : RowMeans text tokens) :
    ofText text = tokens :=
  h.split_eq (Nat.le_refl _)

end Token

end Cadence.Json

import Mathlib.Data.List.Forall2
import Mathlib.Tactic.SplitIfs
import Cadence.Json.Writer
import Cadence.Proofs.Json.Members
import Cadence.Proofs.Json.Spelling

/-!
# Written JSON

What is written as JSON stands for the value that is meant.  Texts are put together from parts, and
a part stands for its tokens in front of anything that does not go on with a numeral (`Writes`).
The tokens of a value determine the value (`Value.tokens_injective`), so a text stands for at most
one value (`Token.RowMeans.value_unique`).
-/

namespace Cadence.Json

/-! ## Values in rows of tokens -/

section separated

variable {α : Type} {e : α → List Token}

/-- A comma stands in front of every part but the first one. -/
theorem separated_cons (x : α) (xs : List α) (after : List Token) :
    [Token.comma].intercalate ((x :: xs).map e) ++ after =
      e x ++ (xs.flatMap (fun x => .comma :: e x) ++ after) := by
  induction xs generalizing x with
  | nil => rw [List.map_singleton, List.intercalate_singleton, List.flatMap_nil, List.nil_append]
  | cons y xs ih =>
      have hy := ih y
      rw [List.map_cons] at hy ⊢
      rw [List.map_cons, List.intercalate_cons_cons, List.append_assoc, List.append_assoc, hy]
      simp

/-- Which parts there are is told from each part and the token after the last one. -/
theorem commas_inj {stop : Token} (hstop : stop ≠ .comma) {xs ys : List α} {s t : List Token}
    (hparts : ∀ x ∈ xs, ∀ y s t, e x ++ s = e y ++ t → x = y ∧ s = t)
    (h : xs.flatMap (fun x => .comma :: e x) ++ stop :: s =
      ys.flatMap (fun y => .comma :: e y) ++ stop :: t) :
    xs = ys ∧ s = t := by
  induction xs generalizing ys with
  | nil =>
      cases ys with
      | nil => exact ⟨rfl, (List.cons.inj h).2⟩
      | cons y ys => exact absurd (List.cons.inj h).1 hstop
  | cons x xs ih =>
      cases ys with
      | nil => exact absurd (List.cons.inj h).1.symm hstop
      | cons y ys =>
          obtain ⟨hx, hxs⟩ := List.forall_mem_cons.mp hparts
          simp only [List.flatMap_cons, List.cons_append, List.append_assoc] at h
          obtain ⟨rfl, hrest⟩ := hx y _ _ (List.cons.inj h).2
          obtain ⟨rfl, rfl⟩ := ih hxs hrest
          exact ⟨rfl, rfl⟩

/-- A list is told from its parts with commas between them and a token that begins no part at the
end. -/
theorem separated_inj {stop : Token} (hhead : ∀ x s t, e x ++ s ≠ stop :: t) (hstop : stop ≠ .comma)
    {xs ys : List α} {s t : List Token}
    (hparts : ∀ x ∈ xs, ∀ y s t, e x ++ s = e y ++ t → x = y ∧ s = t)
    (h : [Token.comma].intercalate (xs.map e) ++ stop :: s =
      [Token.comma].intercalate (ys.map e) ++ stop :: t) :
    xs = ys ∧ s = t := by
  cases xs with
  | nil =>
      cases ys with
      | nil => exact ⟨rfl, (List.cons.inj h).2⟩
      | cons y ys =>
          rw [separated_cons] at h
          exact absurd h.symm (hhead y _ _)
  | cons x xs =>
      cases ys with
      | nil =>
          rw [separated_cons] at h
          exact absurd h (hhead x _ _)
      | cons y ys =>
          obtain ⟨hx, hxs⟩ := List.forall_mem_cons.mp hparts
          rw [separated_cons, separated_cons] at h
          obtain ⟨rfl, hrest⟩ := hx y _ _ h
          obtain ⟨rfl, rfl⟩ := commas_inj hstop hxs hrest
          exact ⟨rfl, rfl⟩

end separated

namespace Value

theorem itemsTokens_eq (items : List Value) :
    itemsTokens items = [Token.comma].intercalate (items.map tokens) := by
  induction items with
  | nil => rw [itemsTokens, List.map_nil, List.intercalate_nil]
  | cons item rest ih =>
      cases rest with
      | nil => rw [itemsTokens, List.map_singleton, List.intercalate_singleton]
      | cons next rest =>
          rw [itemsTokens, ih]
          · simp [List.intercalate_cons_cons]
          · exact List.cons_ne_nil next rest

theorem membersTokens_eq (members : List Member) :
    membersTokens members = [Token.comma].intercalate (members.map memberTokens) := by
  induction members with
  | nil => rw [membersTokens, List.map_nil, List.intercalate_nil]
  | cons member rest ih =>
      cases rest with
      | nil => rw [membersTokens, List.map_singleton, List.intercalate_singleton]
      | cons next rest =>
          rw [membersTokens_cons_cons, ih]
          simp [List.intercalate_cons_cons]

theorem tokens_ne_closeBracket (value : Value) (s t : List Token) :
    value.tokens ++ s ≠ .closeBracket :: t := by
  obtain ⟨rest, hvalue⟩ := value.exists_tokens
  rw [hvalue]
  intro h
  cases value <;> cases (List.cons.inj h).1

theorem memberTokens_ne_closeBrace (member : Member) (s t : List Token) :
    memberTokens member ++ s ≠ .closeBrace :: t := by
  rw [memberTokens_eq]
  intro h
  cases (List.cons.inj h).1

theorem sizeOf_value_lt (member : Member) : sizeOf member.2 < sizeOf member := by
  obtain ⟨name, value⟩ := member
  show sizeOf value < sizeOf (name, value)
  rw [Prod.mk.sizeOf_spec]
  omega

/-- A value is told from tokens that begin with its own. -/
theorem tokens_append_inj {a b : Value} {s t : List Token} (h : a.tokens ++ s = b.tokens ++ t) :
    a = b ∧ s = t := by
  have hhead : a.head = b.head := by
    obtain ⟨atail, ha⟩ := a.exists_tokens
    obtain ⟨btail, hb⟩ := b.exists_tokens
    rw [ha, hb] at h
    exact (List.cons.inj h).1
  cases a with
  | array items =>
      cases b with
      | array others =>
          have hitems : ∀ item ∈ items, ∀ (other : Value) s t,
              item.tokens ++ s = other.tokens ++ t → item = other ∧ s = t :=
            fun item hitem other s t h => tokens_append_inj h
          simp only [tokens, itemsTokens_eq, List.cons_append, List.append_assoc,
            List.nil_append] at h
          obtain ⟨rfl, hrest⟩ :=
            separated_inj tokens_ne_closeBracket (by simp) hitems (List.cons.inj h).2
          exact ⟨rfl, hrest⟩
      | _ => cases hhead
  | object members =>
      cases b with
      | object others =>
          have hmembers : ∀ member ∈ members, ∀ (other : Member) s t,
              memberTokens member ++ s = memberTokens other ++ t → member = other ∧ s = t := by
            intro member hmember other s t h
            rw [memberTokens_eq, memberTokens_eq] at h
            obtain ⟨hname, hvalue⟩ := List.cons.inj h
            obtain ⟨hvalue, hrest⟩ := tokens_append_inj (List.cons.inj hvalue).2
            exact ⟨Prod.ext (Token.string.inj hname) hvalue, hrest⟩
          simp only [tokens, membersTokens_eq, List.cons_append, List.append_assoc,
            List.nil_append] at h
          obtain ⟨rfl, hrest⟩ :=
            separated_inj memberTokens_ne_closeBrace (by simp) hmembers (List.cons.inj h).2
          exact ⟨rfl, hrest⟩
      | _ => cases hhead
  | null | boolean value | number value | string value =>
      cases b with
      | null | boolean | number | string =>
          cases hhead
          all_goals exact ⟨rfl, (List.cons.inj h).2⟩
      | _ => cases hhead
termination_by a
decreasing_by
  · have hlt := List.sizeOf_lt_of_mem hitem
    rw [‹a = array items›, array.sizeOf_spec]
    omega
  · have hlt := List.sizeOf_lt_of_mem hmember
    have hvalue := sizeOf_value_lt member
    rw [‹a = object members›, object.sizeOf_spec]
    omega

/-- Tokens are those of at most one value. -/
theorem tokens_injective {a b : Value} (h : a.tokens = b.tokens) : a = b :=
  (tokens_append_inj (congrArg (· ++ []) h)).1

end Value

/-- A text stands for at most one value. -/
theorem Token.RowMeans.value_unique {text : List Char} {a b : Value}
    (ha : Token.RowMeans text a.tokens) (hb : Token.RowMeans text b.tokens) : a = b :=
  Value.tokens_injective (ha.ofText_eq.symm.trans hb.ofText_eq)

/-! ## Texts in rows of tokens -/

/-- A text stands for tokens in front of anything that does not go on with a numeral. -/
def Writes (text : List Char) (tokens : List Token) : Prop :=
  ∀ rest more, Number.Ends rest → Token.RowMeans rest more →
    Token.RowMeans (text ++ rest) (tokens ++ more)

theorem Number.ends_cons {c : Char}
    (h : Text.isDigit c = false ∧ c ≠ '.' ∧ c ≠ 'e' ∧ c ≠ 'E') (rest : List Char) :
    Number.Ends (c :: rest) := by
  rintro _ ⟨⟩
  exact h

namespace Writes

variable {text text' : List Char} {tokens tokens' : List Token}

theorem rowMeans (h : Writes text tokens) : Token.RowMeans text tokens := by
  have hrow := h [] [] nofun (.nil (List.forall_mem_nil _))
  rwa [List.append_nil, List.append_nil] at hrow

/-- A token that is no number stands for itself. -/
theorem token {token : Token} (htoken : Token.Means text token)
    (hnumber : ∀ n, token ≠ .number n) : Writes text [token] :=
  fun _ _ _ hrest => .next htoken hnumber hrest

theorem append (h : Writes text tokens) (h' : Writes text' tokens')
    (hends : ∀ rest, Number.Ends rest → Number.Ends (text' ++ rest)) :
    Writes (text ++ text') (tokens ++ tokens') := by
  intro rest more hrest hmore
  rw [List.append_assoc, List.append_assoc]
  exact h _ _ (hends rest hrest) (h' rest more hrest hmore)

/-- A mark is put in front. -/
theorem mark {c : Char} {token : Token} (htoken : Token.Means [c] token)
    (hnumber : ∀ n, token ≠ .number n) (h : Writes text tokens) :
    Writes (c :: text) (token :: tokens) := by
  intro rest more hends hrest
  show Token.RowMeans ([c] ++ (text ++ rest)) (token :: (tokens ++ more))
  exact .next htoken hnumber (h rest more hends hrest)

/-- A mark is put at the end. -/
theorem concat {c : Char} {token : Token} (htoken : Token.Means [c] token)
    (hnumber : ∀ n, token ≠ .number n)
    (hc : Text.isDigit c = false ∧ c ≠ '.' ∧ c ≠ 'e' ∧ c ≠ 'E') (h : Writes text tokens) :
    Writes (text ++ [c]) (tokens ++ [token]) :=
  h.append (.token htoken hnumber) fun rest _ => Number.ends_cons hc rest

/-- Parts are put together with commas. -/
theorem intercalate {texts : List (List Char)} {parts : List (List Token)}
    (h : List.Forall₂ Writes texts parts) :
    Writes ([','].intercalate texts) ([Token.comma].intercalate parts) := by
  induction h with
  | nil => exact fun _ _ _ hrest => hrest
  | @cons text part texts parts hpart hparts ih =>
      cases hparts with
      | nil => simpa using hpart
      | cons hnext hrest =>
          rw [List.intercalate_cons_cons, List.intercalate_cons_cons, List.append_assoc,
            List.append_assoc]
          exact hpart.append (.mark .comma nofun ih) fun rest _ => Number.ends_cons (by decide) _

end Writes

/-! ## Numerals -/

theorem isWhole_decimal (n : Nat) : Number.IsWhole (Text.decimal n) := by
  have hdigits : ∀ n, Number.IsDigits (Text.decimal n) := fun n =>
    ⟨Text.decimal_ne_nil n, fun _ => Text.isDigit_of_mem_decimal⟩
  have hfirst : ∀ n, 0 < n → (Text.decimal n).head? ≠ some '0' := by
    intro n hn
    fun_induction Text.decimal n with
    | case1 n hsmall =>
        have hall : ∀ d ∈ List.range 10, 0 < d → some (Text.digitChar d) ≠ some '0' := by decide
        exact hall n (List.mem_range.mpr hsmall) hn
    | case2 n hlarge ih =>
        rw [List.head?_append_of_ne_nil _ (Text.decimal_ne_nil _)]
        exact ih (by omega)
  rcases Nat.eq_zero_or_pos n with rfl | hn
  · have hzero : Text.decimal 0 = ['0'] := by
      rw [Text.decimal]
      rfl
    rw [hzero]
    exact .zero
  · have hdigits := hdigits n
    have hfirst := hfirst n hn
    cases hn : Text.decimal n with
    | nil => exact absurd hn (Text.decimal_ne_nil n)
    | cons first rest =>
        rw [hn] at hdigits hfirst
        exact .positive (fun hzero => hfirst (congrArg some hzero)) hdigits

/-- The numeral of a 64-bit integer stands for it. -/
theorem means_decimalInt {n : Int} (hleast : -9223372036854775808 ≤ n)
    (hgreatest : n ≤ 9223372036854775807) :
    Number.Means (Text.decimalInt n) (.integer n) := by
  have hnumber : (⟨decide (n < 0), Text.decimal n.natAbs, none, none⟩ : Number.Literal).number =
      some (.integer n) := by
    unfold Number.Literal.number Number.maxInteger
    simp only [Text.value_decimal, decide_eq_true_eq]
    split_ifs with hneg hpos hbig
    · congr 2
      omega
    · omega
    · congr 2
      omega
    · omega
  have hmeans := Number.Means.numeral (isWhole_decimal n.natAbs) .none .none hnumber
  rw [List.append_nil, List.append_nil] at hmeans
  unfold Text.decimalInt
  split_ifs with hneg
  · simpa [hneg] using hmeans
  · simpa [hneg] using hmeans

/-! ## Strings -/

theorem hexValue_hexDigit {d : Nat} (h : d < 16) :
    Token.readHex4.hexValue? (Text.hexDigit d) = some d := by
  have hall : ∀ e ∈ List.range 16, Token.readHex4.hexValue? (Text.hexDigit e) = some e := by decide
  exact hall d (List.mem_range.mpr h)

/-- What is written for a character stands for it, in front of what stands for others. -/
theorem stringMeans_stringChar (c : Char) {text chars : List Char}
    (h : Token.StringMeans text chars) : Token.StringMeans (stringChar c ++ text) (c :: chars) := by
  unfold stringChar
  split_ifs with hquote hbackslash hback hfeed hline hreturn htab hcontrol
  · subst hquote
    exact .escape (.letter (by decide)) h
  · subst hbackslash
    exact .escape (.letter (by decide)) h
  · subst hback
    exact .escape (.letter (by decide)) h
  · subst hfeed
    exact .escape (.letter (by decide)) h
  · subst hline
    exact .escape (.letter (by decide)) h
  · subst hreturn
    exact .escape (.letter (by decide)) h
  · subst htab
    exact .escape (.letter (by decide)) h
  · have hzero : Token.readHex4.hexValue? '0' = some 0 := by decide
    have hhex := Token.HexMeans.four hzero hzero
      (hexValue_hexDigit (show c.toNat / 16 < 16 by omega))
      (hexValue_hexDigit (show c.toNat % 16 < 16 by omega))
    have hcode : ((0 * 16 + 0) * 16 + c.toNat / 16) * 16 + c.toNat % 16 = c.toNat := by omega
    rw [hcode] at hhex
    have hescape := Token.EscapeMeans.number hhex (.inl (by omega))
    rw [Char.ofNat_toNat] at hescape
    exact .escape hescape h
  · exact .plain (by omega) hquote hbackslash h

theorem stringMeans_flatMap (chars : List Char) :
    Token.StringMeans (chars.flatMap stringChar) chars := by
  induction chars with
  | nil => exact .nil
  | cons c chars ih => exact stringMeans_stringChar c ih

/-! ## Values -/

theorem writes_stringText (s : String) :
    Writes (stringText s).toList (Value.string s).tokens := by
  have hmeans := Token.Means.string (stringMeans_flatMap s.toList)
  rw [String.ofList_toList] at hmeans
  have htext : (stringText s).toList = '"' :: (s.toList.flatMap stringChar ++ ['"']) := by
    simp [stringText]
  rw [htext]
  exact .token hmeans nofun

theorem writes_intText {n : Int} (hleast : -9223372036854775808 ≤ n)
    (hgreatest : n ≤ 9223372036854775807) :
    Writes (Text.intText n).toList (Value.number (.integer n)).tokens := by
  have htext : (Text.intText n).toList = Text.decimalInt n := by simp [Text.intText]
  rw [htext]
  exact fun _ _ hends hrest => .cons (List.forall_mem_nil _)
    (.number (means_decimalInt hleast hgreatest)) (fun _ _ => hends) hrest

/-- An array stands for its items if its elements do. -/
theorem writes_arrayText {elements : List String} {items : List Value}
    (h : List.Forall₂ (fun text item => Writes text.toList item.tokens) elements items) :
    Writes (arrayText elements).toList (Value.array items).tokens := by
  have hparts : List.Forall₂ Writes (elements.map String.toList) (items.map Value.tokens) :=
    List.forall₂_map_left_iff.mpr (List.forall₂_map_right_iff.mpr h)
  have htext : (arrayText elements).toList =
      '[' :: ([','].intercalate (elements.map String.toList) ++ [']']) := by
    simp [arrayText]
  rw [htext, Value.tokens, Value.itemsTokens_eq]
  exact .mark .openBracket (by simp)
    ((Writes.intercalate hparts).concat .closeBracket (by simp) (by decide))

/-- An object stands for its members if their values do. -/
theorem writes_objectText {texts : List (String × String)} {members : List Member}
    (h : List.Forall₂ (fun text member => text.1 = member.1 ∧
      Writes text.2.toList member.2.tokens) texts members) :
    Writes (objectText texts).toList (Value.object members).tokens := by
  have hmember : ∀ (text : String × String) (member : Member),
      text.1 = member.1 ∧ Writes text.2.toList member.2.tokens →
      Writes ((stringText text.1).toList ++ ':' :: text.2.toList) (Value.memberTokens member) := by
    rintro text member ⟨hname, hvalue⟩
    rw [Value.memberTokens_eq, ← hname]
    exact (writes_stringText text.1).append (.mark .colon nofun hvalue)
      fun rest _ => Number.ends_cons (by decide) _
  have hparts : List.Forall₂ Writes
      (texts.map fun text => (stringText text.1).toList ++ ':' :: text.2.toList)
      (members.map Value.memberTokens) :=
    List.forall₂_map_left_iff.mpr (List.forall₂_map_right_iff.mpr (h.imp hmember))
  have htext : (objectText texts).toList = '\x7b' :: ([','].intercalate
      (texts.map fun text => (stringText text.1).toList ++ ':' :: text.2.toList) ++ ['\x7d']) := by
    simp [objectText, Function.comp_def]
  rw [htext, Value.tokens, Value.membersTokens_eq]
  exact .mark .openBrace (by simp)
    ((Writes.intercalate hparts).concat .closeBrace (by simp) (by decide))

end Cadence.Json

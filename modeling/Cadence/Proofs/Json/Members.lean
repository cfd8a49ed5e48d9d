import Cadence.Json.RuleMap

/-!
# Members of a rule map

What reading a rule map makes of a text that is JSON.  The tokens of such a text are those of a tree
(`Value.tokens`), and what the reader does with an object can be told from its members: every member
stands for entries (`memberEntries`) or has faults (`memberFaults`).  The reader takes all entries
in reading order, or reports the first fault in reading order (`outcome_ruleMapOf`).
-/

namespace Cadence.Json

/-- A value, as a tree. -/
inductive Value
  | null
  | boolean (value : Bool)
  | number (value : Number)
  | string (value : String)
  | array (items : List Value)
  | object (members : List (String × Value))

/-- A name and a value in an object. -/
abbrev Member := String × Value

namespace Value

/-- The token that a value begins with. -/
def head : Value → Token
  | null => .null
  | boolean value => .boolean value
  | number value => .number value
  | string value => .string value
  | array _ => .openBracket
  | object _ => .openBrace

mutual

/-- The tokens of a value. -/
def tokens : Value → List Token
  | null => [.null]
  | boolean value => [.boolean value]
  | number value => [.number value]
  | string value => [.string value]
  | array items => .openBracket :: (itemsTokens items ++ [.closeBracket])
  | object members => .openBrace :: (membersTokens members ++ [.closeBrace])

/-- The tokens of the items of an array, with commas between them. -/
def itemsTokens : List Value → List Token
  | [] => []
  | [item] => item.tokens
  | item :: rest => item.tokens ++ .comma :: itemsTokens rest

/-- The tokens of a member of an object. -/
def memberTokens : Member → List Token
  | (name, value) => .string name :: .colon :: value.tokens

/-- The tokens of the members of an object, with commas between them. -/
def membersTokens : List Member → List Token
  | [] => []
  | [member] => memberTokens member
  | member :: rest => memberTokens member ++ .comma :: membersTokens rest

end

theorem exists_tokens (value : Value) : ∃ rest, value.tokens = value.head :: rest := by
  cases value <;> exact ⟨_, rfl⟩

theorem memberTokens_eq (member : Member) :
    memberTokens member = .string member.1 :: .colon :: member.2.tokens := by
  cases member
  rfl

theorem membersTokens_cons_cons (member next : Member) (rest : List Member) :
    membersTokens (member :: next :: rest) =
      memberTokens member ++ .comma :: membersTokens (next :: rest) := by
  rw [membersTokens]
  intro h
  cases h

/-- The members of an object begin with the first one. -/
theorem exists_membersTokens (member : Member) (rest : List Member) :
    ∃ after, membersTokens (member :: rest) =
      .string member.1 :: .colon :: member.2.head :: after := by
  obtain ⟨tail, htokens⟩ := member.2.exists_tokens
  cases rest with
  | nil => exact ⟨tail, by rw [membersTokens, memberTokens_eq, htokens]⟩
  | cons next rest =>
      exact ⟨_, by rw [membersTokens_cons_cons, memberTokens_eq, htokens]; rfl⟩

theorem length_le_membersTokens (members : List Member) :
    members.length ≤ (membersTokens members).length := by
  induction members with
  | nil => exact Nat.zero_le _
  | cons member rest ih =>
      cases rest with
      | nil =>
          rw [membersTokens, memberTokens_eq]
          exact Nat.le_add_left 1 _
      | cons next rest =>
          rw [membersTokens_cons_cons, List.length_append]
          simp only [List.length_cons] at ih ⊢
          omega

end Value

/-! ## What the members say -/

namespace Value

/-- What is wrong with a value where a requirement is wanted. -/
def fault? (wanted : Wanted) : Value → Option MapFault
  | number (.integer n) => if n ≤ 9223372036854775807 then none else some (.tooBig n)
  | string _ => none
  | value => some (.unexpected value.head wanted)

/-- The requirement that a value is, if it is one. -/
def requirement? : Value → Option Requirement
  | number (.integer n) =>
      if n ≤ 9223372036854775807 then some (.fixed (Int64.ofInt n)) else none
  | string name => some (.predicate name)
  | _ => none

/-- What is wrong with a value where a requirement or an object from scopes to requirements is
wanted, in reading order. -/
def faults : Value → List MapFault
  | object scopes => scopes.filterMap fun scope => scope.2.fault? .requirement
  | value => (value.fault? .requirementOrScopes).toList

/-- What a value requires within scopes, in reading order.  A name that is no scope's counts as no
scope. -/
def scopeEntries : Value → List ScopeEntry
  | object scopes =>
      scopes.filterMap fun scope =>
        scope.2.requirement?.map fun requirement => (TimeUnit.ofName? scope.1, requirement)
  | value => (value.requirement?.map fun requirement => (none, requirement)).toList

/-- A 64-bit integer or the name of a predicate. -/
inductive IsRequirement : Value → Prop
  | integer {n : Int} (h : -9223372036854775808 ≤ n ∧ n ≤ 9223372036854775807) :
      IsRequirement (number (.integer n))
  | name (name : String) : IsRequirement (string name)

/-- A requirement, or an object from any names of scopes to requirements. -/
inductive IsRequirements : Value → Prop
  | requirement {value : Value} (h : value.IsRequirement) : IsRequirements value
  | scopes {scopes : List Member} (h : ∀ scope ∈ scopes, scope.2.IsRequirement) :
      IsRequirements (object scopes)

theorem IsRequirement.fault?_eq_none {value : Value} (h : value.IsRequirement) (wanted : Wanted) :
    value.fault? wanted = none := by
  cases h with
  | integer h => exact if_pos h.2
  | name name => rfl

theorem IsRequirements.faults_eq_nil {value : Value} (h : value.IsRequirements) :
    value.faults = [] := by
  cases h with
  | requirement h =>
      have hfault := h.fault?_eq_none .requirementOrScopes
      cases h with
      | @integer n h =>
          show ((number (.integer n)).fault? .requirementOrScopes).toList = []
          rw [hfault]
          rfl
      | name name => rfl
  | scopes h =>
      exact List.filterMap_eq_nil_iff.mpr fun scope hscope => (h scope hscope).fault?_eq_none _

end Value

/-- What is wrong with the name of a member. -/
def nameFault? (name : String) : Option MapFault :=
  if (TimeUnit.ofName? name).isSome then none else some (.unknownUnit name)

/-- What is wrong with a member, in reading order.  The name is looked at after the value. -/
def memberFaults (member : Member) : List MapFault :=
  member.2.faults ++ (nameFault? member.1).toList

/-- The entries that a member stands for. -/
def memberEntries (member : Member) : RuleMap :=
  match TimeUnit.ofName? member.1 with
  | some unit => member.2.scopeEntries.map fun entry => ⟨unit, entry.1, entry.2⟩
  | none => []

/-- What is wrong with the members of an object, in reading order. -/
def faults (members : List Member) : List MapFault := members.flatMap memberFaults

/-- The entries that the members of an object stand for, in reading order. -/
def entries (members : List Member) : RuleMap := members.flatMap memberEntries

/-- The name is a unit's, and the value says what is required of it. -/
structure IsRuleMember (member : Member) : Prop where
  unit : (TimeUnit.ofName? member.1).isSome
  requirements : member.2.IsRequirements

theorem faults_eq_nil {members : List Member} (h : ∀ member ∈ members, IsRuleMember member) :
    faults members = [] := by
  refine List.flatMap_eq_nil_iff.mpr fun member hmember => ?_
  obtain ⟨hunit, hvalue⟩ := h member hmember
  rw [memberFaults, hvalue.faults_eq_nil, nameFault?, if_pos hunit]
  rfl

/-! ## What the reader makes of them -/

variable {α β : Type}

/-- What a reading comes to: what is read, or the fault without the tokens that follow it. -/
def outcome (reading : Reading α) : Except MapFault α := reading.result.mapError (·.fault)

@[simp] theorem outcome_before (rest : List Token) (read : Except MapFault α) :
    outcome (liftM (before rest read)) = read := by
  cases read <;> rfl

@[simp] theorem outcome_bind (x : Reading α) (f : α → Reading β) :
    outcome (x >>= f) = outcome x >>= fun a => outcome (f a) := by
  unfold outcome
  rw [Logged.result_bind]
  cases x.result <;> rfl

@[simp] theorem outcome_scopeOf (name : String) :
    outcome (scopeOf name) = .ok (TimeUnit.ofName? name) := by
  unfold scopeOf
  cases TimeUnit.ofName? name <;> rfl

/-- A value, or the first of the faults if there are any. -/
def verdict (faults : List MapFault) (a : α) : Except MapFault α :=
  match faults with
  | [] => .ok a
  | fault :: _ => .error fault

/-- Of faults in a row the first one is reported. -/
theorem verdict_bind {faults more : List MapFault} {a : α} {b : β} {f : α → Except MapFault β}
    (h : f a = verdict more b) : (verdict faults a >>= f) = verdict (faults ++ more) b := by
  cases faults with
  | nil => exact h
  | cons fault faults => rfl

theorem verdict_bind_ok (faults : List MapFault) (a : α) (f : α → β) :
    (verdict faults a >>= fun a => .ok (f a)) = verdict faults (f a) := by
  cases faults <;> rfl

namespace Value

/-- What the reader makes of a value where a requirement is wanted. -/
inductive Read (value : Value) (wanted : Wanted) : Prop
  | requirement {requirement : Requirement} (hfault : value.fault? wanted = none)
      (hrequirement : value.requirement? = some requirement) (htokens : value.tokens = [value.head])
      (hread : requirementOf wanted value.head = .ok requirement)
  | fault {fault : MapFault} (hfault : value.fault? wanted = some fault)
      (hread : requirementOf wanted value.head = .error fault)

theorem read (value : Value) (wanted : Wanted) : value.Read wanted := by
  cases value with
  | number value =>
      cases value with
      | integer n =>
          by_cases h : n ≤ 9223372036854775807
          · exact .requirement (if_pos h) (if_pos h) rfl (if_pos h)
          · exact .fault (if_neg h) (if_neg h)
      | float negative magnitude => exact .fault rfl rfl
  | string name => exact .requirement rfl rfl rfl rfl
  | null | boolean | array | object => exact .fault rfl rfl

/-! ### Scopes -/

theorem outcome_readScopes_error {found : Token} {fault : MapFault}
    (hread : requirementOf .requirement found = .error fault) (name : String) (rest : List Token) :
    outcome (readScopes (.string name :: .colon :: found :: rest)) = .error fault := by
  rw [readScopes, hread]
  rfl

theorem outcome_readScopes_last {found : Token} {requirement : Requirement}
    (hread : requirementOf .requirement found = .ok requirement) (name : String)
    (rest : List Token) :
    outcome (readScopes (.string name :: .colon :: found :: .closeBrace :: rest)) =
      .ok ([(TimeUnit.ofName? name, requirement)], rest) := by
  rw [readScopes, hread]
  simp only [outcome_bind, outcome_before, outcome_scopeOf]
  rfl

theorem outcome_readScopes_more {found : Token} {requirement : Requirement}
    (hread : requirementOf .requirement found = .ok requirement) (name : String)
    (rest : List Token) :
    outcome (readScopes (.string name :: .colon :: found :: .comma :: rest)) =
      outcome (readScopes rest) >>= fun more =>
        .ok ((TimeUnit.ofName? name, requirement) :: more.1, more.2) := by
  rw [readScopes, hread]
  simp only [outcome_bind, outcome_before, outcome_scopeOf]
  rfl

/-- The scopes of an object are read up to its closing brace. -/
theorem outcome_readScopes {scopes : List Member} (hscopes : scopes ≠ []) (rest : List Token) :
    outcome (readScopes (membersTokens scopes ++ .closeBrace :: rest)) =
      verdict (object scopes).faults ((object scopes).scopeEntries, rest) := by
  induction scopes with
  | nil => exact absurd rfl hscopes
  | cons scope scopes ih =>
      simp only [faults, scopeEntries] at ih ⊢
      cases scope.2.read .requirement with
      | fault hfault hread =>
          obtain ⟨after, htokens⟩ := exists_membersTokens scope scopes
          rw [htokens, List.filterMap_cons, hfault]
          exact outcome_readScopes_error hread scope.1 _
      | requirement hfault hrequirement htokens hread =>
          simp only [List.filterMap_cons, hfault, hrequirement, Option.map_some]
          cases scopes with
          | nil =>
              rw [membersTokens, memberTokens_eq, htokens]
              exact outcome_readScopes_last hread scope.1 rest
          | cons next scopes =>
              rw [membersTokens_cons_cons, memberTokens_eq, htokens]
              simp only [List.cons_append, List.nil_append]
              rw [outcome_readScopes_more hread, ih (List.cons_ne_nil _ _)]
              exact verdict_bind_ok _ _ _

/-! ### Values -/

theorem readRequirements_cons {found : Token} (h : found ≠ .openBrace) (rest : List Token) :
    readRequirements (found :: rest) =
      liftM (before rest (requirementOf .requirementOrScopes found)) >>= fun requirement =>
        pure ([(none, requirement)], rest) := by
  cases found with
  | openBrace => exact absurd rfl h
  | _ => rfl

/-- A value that is no object is looked at by its first token. -/
theorem outcome_readRequirements_of_ne {value : Value} (h : value.head ≠ .openBrace)
    (hfaults : value.faults = (value.fault? .requirementOrScopes).toList)
    (hentries : value.scopeEntries =
      (value.requirement?.map fun requirement => (none, requirement)).toList)
    (rest : List Token) :
    outcome (readRequirements (value.tokens ++ rest)) =
      verdict value.faults (value.scopeEntries, rest) := by
  rw [hfaults, hentries]
  cases value.read .requirementOrScopes with
  | fault hfault hread =>
      obtain ⟨tail, htokens⟩ := value.exists_tokens
      rw [htokens, List.cons_append, readRequirements_cons h, hread, hfault]
      rfl
  | requirement hfault hrequirement htokens hread =>
      rw [htokens, List.cons_append, readRequirements_cons h, hread, hfault, hrequirement]
      rfl

/-- A value is read up to its end. -/
theorem outcome_readRequirements (value : Value) (rest : List Token) :
    outcome (readRequirements (value.tokens ++ rest)) =
      verdict value.faults (value.scopeEntries, rest) := by
  cases value with
  | object scopes =>
      cases scopes with
      | nil => rfl
      | cons scope scopes =>
          have hread := outcome_readScopes (List.cons_ne_nil scope scopes) rest
          obtain ⟨after, htokens⟩ := exists_membersTokens scope scopes
          rw [tokens, List.cons_append, List.append_assoc]
          rw [htokens] at hread ⊢
          exact hread
  | null | boolean | number | string | array =>
      exact outcome_readRequirements_of_ne (by intro h; cases h) rfl rfl rest

end Value

/-! ### Members -/

open Value

/-- A member is read up to its end, and then its name is looked at. -/
theorem outcome_readUnits_last (fuel : Nat) (member : Member) (rest : List Token) :
    outcome (readUnits (fuel + 1) (memberTokens member ++ .closeBrace :: rest)) =
      verdict (memberFaults member) (memberEntries member, rest) := by
  rw [memberTokens_eq, List.cons_append, List.cons_append, readUnits, outcome_bind,
    outcome_readRequirements]
  unfold memberFaults memberEntries nameFault? unitOf
  apply verdict_bind
  cases TimeUnit.ofName? member.1 <;> rfl

theorem outcome_readUnits_more {fuel : Nat} {rest after : List Token} {later : List MapFault}
    {more : RuleMap} (hrest : outcome (readUnits fuel rest) = verdict later (more, after))
    (member : Member) :
    outcome (readUnits (fuel + 1) (memberTokens member ++ .comma :: rest)) =
      verdict (memberFaults member ++ later) (memberEntries member ++ more, after) := by
  rw [memberTokens_eq, List.cons_append, List.cons_append, readUnits, outcome_bind,
    outcome_readRequirements]
  unfold memberFaults memberEntries nameFault? unitOf
  rw [List.append_assoc]
  apply verdict_bind
  cases TimeUnit.ofName? member.1 with
  | none => rfl
  | some unit =>
      simp only [outcome_bind, outcome_before]
      show (outcome (readUnits fuel rest) >>= fun more => Except.ok _) = _
      rw [hrest]
      exact verdict_bind_ok _ _ _

/-- The members of an object are read up to its closing brace. -/
theorem outcome_readUnits {members : List Member} (hmembers : members ≠ []) {fuel : Nat}
    (hfuel : members.length ≤ fuel) (rest : List Token) :
    outcome (readUnits fuel (membersTokens members ++ .closeBrace :: rest)) =
      verdict (faults members) (entries members, rest) := by
  -- Every member takes one unit of the fuel.
  induction members generalizing fuel with
  | nil => exact absurd rfl hmembers
  | cons member members ih =>
      obtain ⟨fuel, rfl⟩ : ∃ n, fuel = n + 1 :=
        Nat.exists_eq_succ_of_ne_zero (Nat.ne_of_gt (Nat.lt_of_lt_of_le (Nat.succ_pos _) hfuel))
      cases members with
      | nil =>
          rw [membersTokens, outcome_readUnits_last]
          simp only [faults, entries, List.flatMap_cons, List.flatMap_nil, List.append_nil]
      | cons next members =>
          have hrest := ih (List.cons_ne_nil _ _) (Nat.le_of_succ_le_succ hfuel)
          rw [membersTokens_cons_cons, List.append_assoc, List.cons_append]
          exact outcome_readUnits_more hrest member

/-- Reading the tokens of an object gives the entries that its members stand for, or else reports
the first of their faults. -/
theorem outcome_ruleMapOf (members : List Member) :
    outcome (ruleMapOf (object members).tokens) = verdict (faults members) (entries members) := by
  have hmap : outcome (readMap (object members).tokens) =
      verdict (faults members) (entries members, []) := by
    cases members with
    | nil => rfl
    | cons member members =>
        have hfuel : (member :: members).length ≤
            (membersTokens (member :: members) ++ [Token.closeBrace]).length := by
          rw [List.length_append]
          exact Nat.le_trans (length_le_membersTokens _) (Nat.le_add_right _ _)
        have hread := outcome_readUnits (List.cons_ne_nil member members) hfuel []
        obtain ⟨after, htokens⟩ := exists_membersTokens member members
        rw [tokens]
        rw [htokens] at hread ⊢
        exact hread
  rw [ruleMapOf, outcome_bind, hmap]
  cases faults members <;> rfl

end Cadence.Json

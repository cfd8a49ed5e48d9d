import Cadence.Proofs.Command.Printing

/-!
# Arguments behind a command line

A command line that is understood does not end in the middle of an option, so arguments that do not
begin with a hyphen can be put behind it and are values (`Command.itemsAfter_append`).  A command
that takes any number of inputs then takes them (`Command.plan_append`).
-/

namespace Cadence.Command

open Cadence.Text (Bytes)

/-! ## Splitting -/

section Splitting

variable {forms : List OptionForm} {state : Remaining} {argument more : Bytes}
  {arguments rest values : List Bytes}

/-- Does not begin as an option does. -/
def IsValue (bytes : Bytes) : Prop := bytes.head? ≠ some hyphen

instance (bytes : Bytes) : Decidable (IsValue bytes) := inferInstanceAs (Decidable (_ ≠ _))

/-- What the items of one argument and the way to go on after them have to do with each other. -/
structure SplitsSoundly (forms : List OptionForm) (split : List Item × Remaining) : Prop where
  not_missing : ∀ name option, Item.missing name option ∉ split.1
  takesValue : ∀ name option, split.2 = .value name option →
    ∃ form ∈ forms, form.name = name ∧ form.takesValue = true
  fault : split.2 = .nothing → ∃ fault, Item.fault fault ∈ split.1

namespace SplitsSoundly

variable {form : OptionForm} {name : OptionName} {items : List Item} {remaining : Remaining}

theorem one {item : Item} (hitem : ∀ name option, item ≠ .missing name option) :
    SplitsSoundly forms ([item], .next) where
  not_missing name option h := hitem name option (List.mem_singleton.mp h).symm
  takesValue _ _ h := Remaining.noConfusion h
  fault h := Remaining.noConfusion h

theorem none (forms : List OptionForm) : SplitsSoundly forms ([], .next) where
  not_missing _ _ := List.not_mem_nil
  takesValue _ _ h := Remaining.noConfusion h
  fault h := Remaining.noConfusion h

theorem fails (forms : List OptionForm) (fault : OptionFault) :
    SplitsSoundly forms ([.fault fault], .nothing) where
  not_missing _ _ h := Item.noConfusion (List.mem_singleton.mp h)
  takesValue _ _ h := Remaining.noConfusion h
  fault _ := ⟨fault, List.mem_singleton_self _⟩

theorem awaits (hform : form ∈ forms) (htakes : form.takesValue = true) (option : String) :
    SplitsSoundly forms ([], .value form.name option) where
  not_missing _ _ := List.not_mem_nil
  takesValue _ _ h := by
    cases h
    exact ⟨form, hform, rfl, htakes⟩
  fault h := Remaining.noConfusion h

theorem flag_cons (h : SplitsSoundly forms (items, remaining)) (name : OptionName) (long : Bool) :
    SplitsSoundly forms (.flag name long :: items, remaining) where
  not_missing n option hmem := by
    rcases List.mem_cons.mp hmem with hflag | hmem
    · cases hflag
    · exact h.not_missing n option hmem
  takesValue := h.takesValue
  fault hnothing := by
    obtain ⟨fault, hfault⟩ := h.fault hnothing
    exact ⟨fault, List.mem_cons_of_mem _ hfault⟩

end SplitsSoundly

theorem splitsSoundly_longItems (forms : List OptionForm) (bytes : Bytes) :
    SplitsSoundly forms (longItems forms bytes) := by
  unfold longItems
  split
  dsimp only
  split
  · exact .fails forms _
  · rename_i form hfound
    have hform : form ∈ forms := List.mem_of_find?_eq_some hfound
    split
    · exact .one (fun _ _ => Item.noConfusion)
    · rename_i htakes _
      exact .awaits hform htakes _
    · exact (SplitsSoundly.fails forms _).flag_cons form.name true
    · exact (SplitsSoundly.none forms).flag_cons form.name true

theorem splitsSoundly_shortItems (forms : List OptionForm) (before : Option Char)
    (pieces : List Text.Utf8.Piece) : SplitsSoundly forms (shortItems forms before pieces) := by
  induction pieces generalizing before with
  | nil => exact .none forms
  | cons piece rest ih =>
      cases piece with
      | broken bytes => exact .fails forms _
      | char c bytes =>
          unfold shortItems
          dsimp only
          split
          · exact .fails forms _
          · split
            · exact .fails forms _
            · rename_i form hfound
              have hform : form ∈ forms := List.mem_of_find?_eq_some hfound
              split
              · rename_i htakes
                split
                · exact .awaits hform htakes _
                · exact .one (fun _ _ => Item.noConfusion)
              · exact (ih (some c)).flag_cons form.name false

/-- The items of an argument that is an option, or a cluster of them.  The bytes are those after the
first hyphen. -/
def optionItems (forms : List OptionForm) (more : Bytes) : List Item × Remaining :=
  if more.head? = some hyphen then longItems forms (more.drop 1)
  else shortItems forms none (Text.Utf8.pieces more)

theorem splitsSoundly_optionItems (forms : List OptionForm) (more : Bytes) :
    SplitsSoundly forms (optionItems forms more) := by
  unfold optionItems
  split
  · exact splitsSoundly_longItems forms _
  · exact splitsSoundly_shortItems forms none _

/-- A single hyphen is a value, too. -/
theorem itemsAfter_value (hvalue : IsValue argument ∨ argument = [hyphen]) :
    itemsAfter forms .next (argument :: rest) = .value argument :: itemsAfter forms .next rest := by
  rcases hvalue with hvalue | rfl
  · cases argument with
    | nil => rfl
    | cons first more =>
        have hfirst : first ≠ hyphen := fun h => hvalue (by rw [h]; rfl)
        simp [itemsAfter, hfirst]
  · simp [itemsAfter]

theorem itemsAfter_doubleHyphen :
    itemsAfter forms .next ([hyphen, hyphen] :: rest) = rest.map .value := by
  simp [itemsAfter]

theorem itemsAfter_option (hmore : more ≠ []) (hend : more ≠ [hyphen]) :
    itemsAfter forms .next ((hyphen :: more) :: rest) =
      (optionItems forms more).1 ++ itemsAfter forms (optionItems forms more).2 rest := by
  simp [itemsAfter, hmore, hend, optionItems]

theorem itemsAfter_values (hvalues : ∀ value ∈ values, IsValue value) :
    itemsAfter forms .next values = values.map .value := by
  induction values with
  | nil => rfl
  | cons value values ih =>
      obtain ⟨hvalue, hrest⟩ := List.forall_mem_cons.mp hvalues
      rw [itemsAfter_value (.inl hvalue), ih hrest, List.map_cons]

/-- How an argument that is met where an option may stand is understood. -/
theorem argument_cases (argument : Bytes) :
    (IsValue argument ∨ argument = [hyphen]) ∨ argument = [hyphen, hyphen] ∨
      ∃ more, argument = hyphen :: more ∧ more ≠ [] ∧ more ≠ [hyphen] := by
  by_cases hvalue : IsValue argument
  · exact .inl (.inl hvalue)
  · obtain ⟨more, rfl⟩ : ∃ more, argument = hyphen :: more :=
      List.head?_eq_some_iff.mp (Decidable.not_not.mp hvalue)
    by_cases hnil : more = []
    · exact .inl (.inr (by rw [hnil]))
    · by_cases hend : more = [hyphen]
      · exact .inr (.inl (by rw [hend]))
      · exact .inr (.inr ⟨more, rfl, hnil, hend⟩)

/-- Whether a command line stops making sense at an item, or ends before an option's value. -/
def Item.isBreak : Item → Bool
  | fault _ | missing _ _ => true
  | value _ | flag _ _ | valued _ _ => false

/-- Values can be put behind arguments that do not end early. -/
theorem itemsAfter_append (hvalues : ∀ value ∈ values, IsValue value) (hstate : state ≠ .nothing)
    (hwhole : ∀ item ∈ itemsAfter forms state arguments, item.isBreak = false) :
    itemsAfter forms state (arguments ++ values) =
      itemsAfter forms state arguments ++ values.map .value := by
  induction arguments generalizing state with
  | nil =>
      cases state with
      | next => exact itemsAfter_values hvalues
      | value name option => simp [itemsAfter, Item.isBreak] at hwhole
      | nothing => exact absurd rfl hstate
  | cons argument rest ih =>
      have hnext : Remaining.next ≠ .nothing := nofun
      rw [List.cons_append]
      cases state with
      | nothing => exact absurd rfl hstate
      | value name option =>
          rw [itemsAfter, itemsAfter, List.cons_append]
          rw [itemsAfter] at hwhole
          rw [ih hnext (List.forall_mem_cons.mp hwhole).2]
      | next =>
          rcases argument_cases argument with hvalue | rfl | ⟨more, rfl, hmore, hend⟩
          · rw [itemsAfter_value hvalue] at hwhole ⊢
            rw [itemsAfter_value hvalue, ih hnext (List.forall_mem_cons.mp hwhole).2,
              List.cons_append]
          · rw [itemsAfter_doubleHyphen, itemsAfter_doubleHyphen, List.map_append]
          · rw [itemsAfter_option hmore hend] at hwhole ⊢
            obtain ⟨hoption, hrest⟩ := List.forall_mem_append.mp hwhole
            have hgoesOn : (optionItems forms more).2 ≠ .nothing := by
              intro hnothing
              obtain ⟨fault, hfault⟩ := (splitsSoundly_optionItems forms more).fault hnothing
              exact absurd (hoption _ hfault) (by simp [Item.isBreak])
            rw [itemsAfter_option hmore hend, ih hgoesOn hrest, List.append_assoc]

/-- A value is missing only behind an option that takes one. -/
theorem takesValue_of_missing {name : OptionName} {option : String}
    (hstate : ∀ name option, state = .value name option →
      ∃ form ∈ forms, form.name = name ∧ form.takesValue = true)
    (hmissing : Item.missing name option ∈ itemsAfter forms state arguments) :
    ∃ form ∈ forms, form.name = name ∧ form.takesValue = true := by
  induction arguments generalizing state with
  | nil =>
      cases state with
      | next => simp [itemsAfter] at hmissing
      | value name option =>
          simp only [itemsAfter, List.mem_singleton, Item.missing.injEq] at hmissing
          exact hmissing.1 ▸ hstate name option rfl
      | nothing => simp [itemsAfter] at hmissing
  | cons argument rest ih =>
      have hnext : ∀ name option, Remaining.next = .value name option →
          ∃ form ∈ forms, form.name = name ∧ form.takesValue = true := nofun
      cases state with
      | nothing => simp [itemsAfter] at hmissing
      | value name option =>
          simp only [itemsAfter, List.mem_cons, reduceCtorEq, false_or] at hmissing
          exact ih hnext hmissing
      | next =>
          rcases argument_cases argument with hvalue | rfl | ⟨more, rfl, hmore, hend⟩
          · simp only [itemsAfter_value hvalue, List.mem_cons, reduceCtorEq, false_or] at hmissing
            exact ih hnext hmissing
          · simp [itemsAfter_doubleHyphen] at hmissing
          · have hoption := splitsSoundly_optionItems forms more
            rw [itemsAfter_option hmore hend, List.mem_append] at hmissing
            exact ih hoption.takesValue (hmissing.resolve_left (hoption.not_missing _ _))

end Splitting

/-! ## Reading items -/

section Reading

variable {σ : Type} {page : Page} {accept : σ → Item → Run σ} {s t : σ} {items : List Item}

theorem readItems_cons (s : σ) (item : Item) (rest : List Item) :
    readItems page accept s (item :: rest) =
      readItems page accept s [item] >>= fun t => readItems page accept t rest := by
  simp only [readItems]
  split
  · rfl
  · rfl
  · rfl
  · rw [bind_assoc]
    simp only [pure_bind]

theorem readItems_append (s : σ) (before after : List Item) :
    readItems page accept s (before ++ after) =
      readItems page accept s before >>= fun t => readItems page accept t after := by
  induction before generalizing s with
  | nil => rw [List.nil_append, readItems, pure_bind]
  | cons item before ih =>
      rw [List.cons_append, readItems_cons, readItems_cons s item before, bind_assoc]
      exact bind_congr ih

/-- An item that is read is no fault, and is accepted. -/
theorem accepted_of_readItems_singleton {item : Item}
    (h : (readItems page accept s [item]).result = .ok t) :
    (∀ fault, item ≠ .fault fault) ∧ (accept s item).result = .ok t := by
  simp only [readItems] at h
  split at h
  · cases h
  · cases h
  · cases h
  · rename_i hfault
    exact ⟨hfault, by simpa [bind_pure] using h⟩

/-- Where items are read, none is a fault, and each is accepted at some point. -/
theorem accepted_of_readItems (h : (readItems page accept s items).result = .ok t) {item : Item}
    (hitem : item ∈ items) :
    (∀ fault, item ≠ .fault fault) ∧ ∃ s t, (accept s item).result = .ok t := by
  induction items generalizing s with
  | nil => cases hitem
  | cons first rest ih =>
      rw [readItems_cons] at h
      obtain ⟨u, hfirst, hrest⟩ := Logged.bind_eq_ok h
      rcases List.mem_cons.mp hitem with rfl | hitem
      · obtain ⟨hfault, haccept⟩ := accepted_of_readItems_singleton hfirst
        exact ⟨hfault, s, u, haccept⟩
      · exact ih hrest hitem

theorem readItems_append_values {u : σ} {values : List Bytes}
    (hread : (readItems page accept s items).result = .ok t)
    (hvalues : (readItems page accept t (values.map .value)).result = .ok u) :
    (readItems page accept s (items ++ values.map .value)).result = .ok u := by
  rw [readItems_append, Logged.result_bind_of_ok hread, hvalues]

/-- Behind its other items, a command takes values as inputs. -/
theorem readItems_acceptInput (s : Bool × List Bytes) (values : List Bytes) :
    (readItems page acceptInput s (values.map .value)).result = .ok (s.1, s.2 ++ values) := by
  induction values generalizing s with
  | nil => simp [readItems]
  | cons value values ih =>
      rw [List.map_cons, readItems_cons]
      have haccept : (readItems page acceptInput s [.value value]).result =
          .ok (s.1, s.2 ++ [value]) := rfl
      rw [Logged.result_bind_of_ok haccept, ih]
      simp

/-- Behind a frequency, values are datetimes. -/
theorem readItems_acceptNext {f : Frequency} (s : NextItems) (hf : s.frequency? = some f)
    (values : List Bytes) :
    (readItems page NextItems.accept s (values.map .value)).result =
      .ok { s with datetimes := s.datetimes ++ values } := by
  induction values generalizing s with
  | nil => simp [readItems]
  | cons value values ih =>
      rw [List.map_cons, readItems_cons]
      have haccept : (readItems page NextItems.accept s [.value value]).result =
          .ok { s with datetimes := s.datetimes ++ [value] } := by
        simp [readItems, NextItems.accept, hf]
      have hrest := ih { s with datetimes := s.datetimes ++ [value] } hf
      rw [Logged.result_bind_of_ok haccept, hrest]
      simp

end Reading

/-! ## Commands -/

section Commands

variable {now : Zoned} {name : Name} {task : Task} {words arguments rest values : List Bytes}

/-- The only option that takes a value is the one for how many matches to print. -/
theorem name_of_takesValue (name : Name) :
    ∀ form ∈ name.options ++ commonOptions, form.takesValue = true →
      form.name = .count ∧ (name = .between ∨ name = .next) := by
  cases name <;> decide

/-- The items of a command line that is read do not end early, if a command with that option refuses
it without its value. -/
theorem isBreak_of_readItems {σ : Type} {page : Page} {accept : σ → Item → Run σ} {s t : σ}
    (h : (readItems page accept s (items name.options arguments)).result = .ok t)
    (hcount : name = .between ∨ name = .next →
      ∀ option s t, (accept s (.missing .count option)).result ≠ .ok t) :
    ∀ item ∈ items name.options arguments, item.isBreak = false := by
  intro item hitem
  obtain ⟨hfault, u, v, haccept⟩ := accepted_of_readItems h hitem
  cases item with
  | fault fault => exact absurd rfl (hfault fault)
  | missing _ option =>
      have hnext : ∀ awaited option, Remaining.next = .value awaited option →
          ∃ form ∈ name.options ++ commonOptions, form.name = awaited ∧ form.takesValue = true :=
        fun _ _ h => Remaining.noConfusion h
      obtain ⟨form, hform, rfl, htakes⟩ := takesValue_of_missing hnext hitem
      obtain ⟨hname, hcommand⟩ := name_of_takesValue name form hform htakes
      rw [hname] at haccept
      exact absurd haccept (hcount hcommand option u v)
  | value _ => rfl
  | flag _ _ => rfl
  | valued _ _ => rfl

/-- The command lines that are understood do not end early. -/
theorem isBreak_of_task (h : (name.task now (items name.options arguments)).result = .ok task) :
    ∀ item ∈ items name.options arguments, item.isBreak = false := by
  cases name with
  | between =>
      obtain ⟨s, hread, -⟩ := Logged.bind_eq_ok h
      exact isBreak_of_readItems hread fun _ option s t haccept => by cases haccept
  | cmp =>
      obtain ⟨s, hread, -⟩ := Logged.bind_eq_ok h
      exact isBreak_of_readItems hread (by simp)
  | fmt =>
      obtain ⟨s, hread, -⟩ := Logged.bind_eq_ok h
      exact isBreak_of_readItems hread (by simp)
  | next =>
      obtain ⟨s, hread, -⟩ := Logged.bind_eq_ok h
      exact isBreak_of_readItems hread fun _ option s t haccept => by cases haccept
  | sort =>
      obtain ⟨s, hread, -⟩ := Logged.bind_eq_ok h
      exact isBreak_of_readItems hread (by simp)

/-- A task with other inputs given as arguments. -/
def Task.withArguments (arguments : List Bytes) : Task → Task
  | between f start stop count => between f start stop count
  | compare a b => compare a b
  | format json _ => format json arguments
  | next f count _ => next f count arguments
  | sort reverse _ => sort reverse arguments

theorem eq_some_of_require {α : Type} {missing : String} {a? : Option α} {a : α}
    (h : (Run.require missing a?).result = .ok a) : a? = some a := by
  cases a? with
  | none => cases h
  | some b =>
      cases h
      rfl

/-- Behind a command line for a task that reads standard input, values are inputs. -/
theorem task_append {items : List Item} (h : (name.task now items).result = .ok task)
    (hreads : task.readsInput = true) (values : List Bytes) :
    (name.task now (items ++ values.map .value)).result = .ok (task.withArguments values) := by
  cases name with
  | between =>
      obtain ⟨s, -, htask⟩ := Logged.bind_eq_ok h
      obtain ⟨f, -, htask⟩ := Logged.bind_eq_ok htask
      obtain ⟨start, -, htask⟩ := Logged.bind_eq_ok htask
      obtain ⟨stop, -, htask⟩ := Logged.bind_eq_ok htask
      cases htask
      cases hreads
  | cmp =>
      obtain ⟨frequencies, -, htask⟩ := Logged.bind_eq_ok h
      unfold compareTask at htask
      split at htask
      · cases htask
        cases hreads
      · cases htask
  | fmt =>
      obtain ⟨⟨json, arguments⟩, hread, htask⟩ := Logged.bind_eq_ok h
      cases htask
      have hvalues := readItems_append_values hread (readItems_acceptInput (json, arguments) values)
      rw [Name.task, Logged.result_bind_of_ok hvalues]
      simp only [Task.readsInput, List.isEmpty_iff] at hreads
      rw [hreads]
      rfl
  | next =>
      obtain ⟨s, hread, htask⟩ := Logged.bind_eq_ok h
      obtain ⟨f, hf, htask⟩ := Logged.bind_eq_ok htask
      have hgiven : s.frequency? = some f := eq_some_of_require hf
      cases htask
      have hvalues := readItems_append_values hread (readItems_acceptNext s hgiven values)
      rw [Name.task, Logged.result_bind_of_ok hvalues]
      simp only [Task.readsInput, List.isEmpty_iff] at hreads
      rw [NextItems.task, Logged.result_bind_of_ok hf, hreads]
      rfl
  | sort =>
      obtain ⟨⟨reverse, arguments⟩, hread, htask⟩ := Logged.bind_eq_ok h
      cases htask
      have hvalues :=
        readItems_append_values hread (readItems_acceptInput (reverse, arguments) values)
      rw [Name.task, Logged.result_bind_of_ok hvalues]
      simp only [Task.readsInput, List.isEmpty_iff] at hreads
      rw [hreads]
      rfl

theorem start_append {bytes : Bytes} {onlyValues : Bool}
    (h : start words = .command bytes rest onlyValues) (values : List Bytes) :
    start (words ++ values) = .command bytes (rest ++ values) onlyValues := by
  cases words with
  | nil => cases h
  | cons argument words =>
      rw [List.cons_append]
      simp only [start] at h ⊢
      by_cases hend : argument = [hyphen, hyphen]
      · rw [if_pos hend] at h ⊢
        cases words with
        | nil => cases h
        | cons name words =>
            cases h
            rfl
      · rw [if_neg hend] at h ⊢
        split at h
        · cases h
        · cases h
        · cases h
          rfl

/-- A command line for a task that reads standard input asks for the same task with inputs given as
arguments, if these are put behind it. -/
theorem plan_append (h : (plan now words).result = .ok task) (hreads : task.readsInput = true)
    (hvalues : ∀ value ∈ values, IsValue value) :
    (plan now (words ++ values)).result = .ok (task.withArguments values) := by
  unfold plan at h
  split at h
  · cases h
  · cases h
  · cases h
  · cases h
  · rename_i bytes rest onlyValues hstart
    obtain ⟨name, hname, htask⟩ := Logged.bind_eq_ok h
    have hnext : Remaining.next ≠ .nothing := nofun
    unfold plan
    simp only [start_append hstart]
    rw [Logged.result_bind_of_ok hname]
    cases onlyValues with
    | true =>
        simp only [if_true, List.map_append] at htask ⊢
        exact task_append htask hreads values
    | false =>
        simp only [Bool.false_eq_true, if_false] at htask ⊢
        rw [items, itemsAfter_append hvalues hnext (isBreak_of_task htask)]
        exact task_append htask hreads values

end Commands

end Cadence.Command

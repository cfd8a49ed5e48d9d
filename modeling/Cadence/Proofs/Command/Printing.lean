import Cadence.Command.Plan

/-!
# What commands print

The lines that a sequence prints are those of its parts, up to the part that fails.  Understanding a
command line and reading inputs print nothing (`Command.silent_plan`, `Command.silent_collectInputs`),
so whatever a command prints is printed by what it does after that.
-/

namespace Cadence

namespace Logged

variable {ι ε α β : Type} {x : Logged ι ε α} {f : α → Logged ι ε β}

theorem entries_bind_of_ok {a : α} (h : x.result = .ok a) :
    (x >>= f).entries = x.entries ++ (f a).entries := by
  simp only [bind, andThen, h]

theorem entries_bind_of_error {e : ε} (h : x.result = .error e) : (x >>= f).entries = x.entries := by
  simp only [bind, andThen, h]

theorem result_bind_of_ok {a : α} (h : x.result = .ok a) : (x >>= f).result = (f a).result := by
  rw [result_bind, h]
  rfl

theorem result_bind_of_error {e : ε} (h : x.result = .error e) : (x >>= f).result = .error e := by
  rw [result_bind, h]
  rfl

end Logged

namespace Command

open Cadence.Text (Bytes)

variable {α β σ : Type}

theorem printed_append (before after : List Effect) :
    printed (before ++ after) = printed before ++ printed after := List.filterMap_append

theorem printed_bind_of_ok {x : Run α} {f : α → Run β} {a : α} (h : x.result = .ok a) :
    printed (x >>= f).entries = printed x.entries ++ printed (f a).entries := by
  rw [Logged.entries_bind_of_ok h, printed_append]

/-- Prints nothing, whether it fails or not. -/
def Silent (x : Run α) : Prop := printed x.entries = []

namespace Silent

theorem bind {x : Run α} {f : α → Run β} (hx : Silent x) (hf : ∀ a, Silent (f a)) :
    Silent (x >>= f) := by
  unfold Silent
  cases h : x.result with
  | ok a => rw [printed_bind_of_ok h, hx, hf a, List.nil_append]
  | error e => rw [Logged.entries_bind_of_error h, hx]

/-- What comes after a part that prints nothing is all that counts. -/
theorem bind_of_ok {x : Run α} {f : α → Run β} {a : α} (hx : Silent x) (h : x.result = .ok a) :
    (x >>= f).result = (f a).result ∧ printed (x >>= f).entries = printed (f a).entries :=
  ⟨Logged.result_bind_of_ok h, by rw [printed_bind_of_ok h, hx, List.nil_append]⟩

theorem pure (a : α) : Silent (pure a : Run α) := rfl

theorem fail (failure : Failure) : Silent (Run.fail failure : Run α) := rfl

theorem ofExcept (result : Except Failure α) : Silent (Logged.ofExcept result) := rfl

theorem within {x : Run α} (hx : Silent x) (context : String) : Silent (x.within context) := hx

theorem mapM {f : α → Run β} (hf : ∀ a, Silent (f a)) (l : List α) : Silent (l.mapM f) := by
  induction l with
  | nil => exact pure []
  | cons a l ih =>
      rw [List.mapM_cons]
      exact (hf a).bind fun b => ih.bind fun bs => pure (b :: bs)

theorem require (missing : String) (a : Option α) : Silent (Run.require missing a) := by
  cases a <;> rfl

end Silent

/-! ## Reading inputs -/

theorem silent_readFrequency (bytes : Bytes) : Silent (readFrequency bytes) := by
  have hnotes (names : List String) : printed (names.map unknownScope) = [] := by
    induction names with
    | nil => rfl
    | cons name names ih => exact ih
  exact hnotes _

theorem silent_inputFrequency (bytes : Bytes) : Silent (inputFrequency bytes) :=
  (silent_readFrequency bytes).within _

theorem silent_readDatetime (now : Zoned) (bytes : Bytes) : Silent (readDatetime now bytes) :=
  Silent.bind rfl fun _ => .ofExcept _

theorem silent_collectInputs {read : Bytes → Run α} (hread : ∀ bytes, Silent (read bytes))
    (input : Bytes) (arguments : List Bytes) : Silent (collectInputs read input arguments) := by
  unfold collectInputs
  split
  · exact .mapM (fun line : Text.Line => (hread line.content).within _) _
  · exact .mapM hread _

/-! ## Understanding command lines -/

theorem silent_readItems {page : Page} {accept : σ → Item → Run σ}
    (haccept : ∀ s item, Silent (accept s item)) (s : σ) (items : List Item) :
    Silent (readItems page accept s items) := by
  induction items generalizing s with
  | nil => exact .pure s
  | cons item items ih =>
      unfold readItems
      split
      · exact .fail _
      · exact .fail _
      · exact .fail _
      · exact (haccept s item).bind ih

theorem silent_countOf? {item : Item} {count : Run Nat} (h : countOf? item = some count) :
    Silent count := by
  unfold countOf? at h
  split at h
  · cases h
    refine Silent.within ?_ _
    unfold countValue
    split
    · exact .fail _
    · exact .ofExcept _
  · cases h
    exact .fail _
  · cases h

theorem silent_betweenItems (now : Zoned) (s : BetweenItems) (item : Item) :
    Silent (s.accept now item) := by
  unfold BetweenItems.accept
  split
  · rename_i bytes
    unfold BetweenItems.acceptValue
    split
    · exact (silent_inputFrequency bytes).bind fun _ => .pure _
    · exact ((silent_readDatetime now bytes).within _).bind fun _ => .pure _
    · exact ((silent_readDatetime now bytes).within _).bind fun _ => .pure _
    · exact .fail _
  · split
    · rename_i hcount
      exact (silent_countOf? hcount).bind fun _ => .pure _
    · exact .pure s

theorem silent_nextItems (s : NextItems) (item : Item) : Silent (s.accept item) := by
  unfold NextItems.accept
  split
  · split
    · exact (silent_inputFrequency _).bind fun _ => .pure _
    · exact .pure _
  · split
    · rename_i hcount
      exact (silent_countOf? hcount).bind fun _ => .pure _
    · exact .pure s

theorem silent_acceptCompared (frequencies : List Frequency) (item : Item) :
    Silent (acceptCompared frequencies item) := by
  unfold acceptCompared
  split
  · split
    · exact (silent_inputFrequency _).bind fun _ => .pure _
    · exact .fail _
  · exact .pure _

theorem silent_acceptInput (s : Bool × List Bytes) (item : Item) : Silent (acceptInput s item) := by
  unfold acceptInput
  split <;> exact .pure _

theorem silent_task (now : Zoned) (items : List Item) (name : Name) :
    Silent (name.task now items) := by
  cases name with
  | between =>
      exact (silent_readItems (silent_betweenItems now) _ items).bind fun s =>
        (Silent.require _ _).bind fun _ => (Silent.require _ _).bind fun _ =>
          (Silent.require _ _).bind fun _ => .pure _
  | cmp =>
      refine (silent_readItems silent_acceptCompared _ items).bind fun frequencies => ?_
      unfold compareTask
      split
      · exact .pure _
      · exact .fail _
  | fmt => exact (silent_readItems silent_acceptInput _ items).bind fun _ => .pure _
  | next =>
      exact (silent_readItems silent_nextItems _ items).bind fun s =>
        (Silent.require _ _).bind fun _ => .pure _
  | sort => exact (silent_readItems silent_acceptInput _ items).bind fun _ => .pure _

theorem silent_commandNamed (bytes : Bytes) : Silent (commandNamed bytes) := by
  unfold commandNamed
  split
  · exact .fail _
  · split
    · exact .pure _
    · exact .fail _

/-- Nothing is printed while a command line is understood. -/
theorem silent_plan (now : Zoned) (arguments : List Bytes) : Silent (plan now arguments) := by
  unfold plan
  split
  · exact .fail _
  · exact .fail _
  · exact .fail _
  · exact .fail _
  · exact (silent_commandNamed _).bind fun name => silent_task now _ name

/-- What a command prints is what its task prints. -/
theorem run_of_plan {setting : Setting} {arguments : List Bytes} {task : Task}
    (h : (plan setting.now arguments).result = .ok task)
    (sort : StableSort Frequency := StableSort.insertion) :
    (run setting arguments sort).result = (task.run setting sort).result ∧
      printed (run setting arguments sort).entries = printed (task.run setting sort).entries :=
  Silent.bind_of_ok (silent_plan _ _) h

/-! ## Printing lines -/

theorem forM_printFrequency (json : Bool) (frequencies : List Frequency) :
    (frequencies.forM (printFrequency json)).result = .ok () ∧
      printed (frequencies.forM (printFrequency json)).entries =
        frequencies.map fun f => if json then f.description.text else f.text := by
  induction frequencies with
  | nil => exact ⟨rfl, rfl⟩
  | cons f frequencies ih =>
      have hcons : (f :: frequencies).forM (printFrequency json) =
          printFrequency json f >>= fun _ => frequencies.forM (printFrequency json) := rfl
      have hprint : (printFrequency json f).result = .ok () := rfl
      rw [hcons, Logged.result_bind_of_ok hprint, printed_bind_of_ok hprint, ih.1, ih.2]
      exact ⟨rfl, rfl⟩

end Command

end Cadence

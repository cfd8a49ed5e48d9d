import Cadence.Proofs.Command.Arguments
import Cadence.Proofs.Command.Sorting
import Cadence.Proofs.Text.Lines

/-!
# Inputs

Inputs are given as arguments or stand on the lines of standard input, and it makes no difference
which: they are handled one after the other, up to the first that fails (`Command.FailsAfter`).  Only
on a line a failure is put into a context, which says which line it is
(`Command.run_given_read`).
-/

namespace Cadence

namespace Command

open Cadence.Text (Bytes Ending IsContent Line endedBytes)

/-! ## Rows -/

section Rows

variable {α β : Type} {x : α → Run β} {l before after : List α} {a : α} {e : Failure}

/-- Parts of a row succeed, and the next one fails. -/
structure FailsAfter (x : α → Run β) (before : List α) (a : α) (e : Failure) : Prop where
  succeed : ∀ b ∈ before, ∃ c, (x b).result = .ok c
  fails : (x a).result = .error e

/-- Either all parts of a row succeed, or there is a first one that fails. -/
theorem exists_failsAfter (x : α → Run β) (l : List α) :
    (∀ a ∈ l, ∃ b, (x a).result = .ok b) ∨
      ∃ before a after e, l = before ++ a :: after ∧ FailsAfter x before a e := by
  induction l with
  | nil => exact .inl nofun
  | cons a l ih =>
      cases ha : (x a).result with
      | error e => exact .inr ⟨[], a, l, e, rfl, nofun, ha⟩
      | ok b =>
          rcases ih with hall | ⟨before, c, after, e, rfl, hbefore, hc⟩
          · exact .inl (List.forall_mem_cons.mpr ⟨⟨b, ha⟩, hall⟩)
          · exact .inr ⟨a :: before, c, after, e, rfl,
              List.forall_mem_cons.mpr ⟨⟨b, ha⟩, hbefore⟩, hc⟩

theorem mapM_of_succeed (h : ∀ a ∈ l, ∃ b, (x a).result = .ok b) :
    (∃ bs, (l.mapM x).result = .ok bs) ∧
      (l.mapM x).entries = l.flatMap fun a => (x a).entries := by
  induction l with
  | nil => exact ⟨⟨[], rfl⟩, rfl⟩
  | cons a l ih =>
      obtain ⟨⟨b, hb⟩, hrest⟩ := List.forall_mem_cons.mp h
      obtain ⟨⟨bs, hbs⟩, hentries⟩ := ih hrest
      rw [List.mapM_cons, Logged.result_bind_of_ok hb, Logged.entries_bind_of_ok hb,
        Logged.result_bind_of_ok hbs, Logged.entries_bind_of_ok hbs, hentries]
      exact ⟨⟨b :: bs, rfl⟩, by simp [pure, Logged.ofValue]⟩

/-- A row is run up to the first part that fails. -/
theorem mapM_of_failsAfter (h : FailsAfter x before a e) (after : List α) :
    ((before ++ a :: after).mapM x).result = .error e ∧
      ((before ++ a :: after).mapM x).entries =
        (before ++ [a]).flatMap fun b => (x b).entries := by
  obtain ⟨⟨bs, hbs⟩, hentries⟩ := mapM_of_succeed h.succeed
  have hresult : ((a :: after).mapM x).result = .error e := by
    rw [List.mapM_cons, Logged.result_bind_of_error h.fails]
  have hfailing : ((a :: after).mapM x).entries = (x a).entries := by
    rw [List.mapM_cons, Logged.entries_bind_of_error h.fails]
  rw [List.mapM_append, Logged.result_bind_of_ok hbs, Logged.entries_bind_of_ok hbs,
    Logged.result_bind_of_error hresult, Logged.entries_bind_of_error hresult, hfailing, hentries]
  exact ⟨rfl, by simp⟩

theorem result_within_of_error {y : Run β} (h : y.result = .error e) (context : String) :
    (y.within context).result = .error (e.within context) := by
  rw [Run.within, Logged.result_mapError, h]
  rfl

theorem within_of_ok {y : Run β} {b : β} (h : y.result = .ok b) (context : String) :
    y.within context = y := by
  obtain ⟨entries, result⟩ := y
  change result = .ok b at h
  subst h
  rfl

/-- Contexts of the parts of a row only show in a failure. -/
theorem mapM_within_of_succeed (h : ∀ a ∈ l, ∃ b, (x a).result = .ok b) (context : α → String) :
    (l.mapM fun a => (x a).within (context a)) = l.mapM x := by
  induction l with
  | nil => rfl
  | cons a l ih =>
      obtain ⟨⟨b, hb⟩, hrest⟩ := List.forall_mem_cons.mp h
      rw [List.mapM_cons, List.mapM_cons, ih hrest, within_of_ok hb]

theorem FailsAfter.within (h : FailsAfter x before a e) (context : α → String) :
    FailsAfter (fun a => (x a).within (context a)) before a (e.within (context a)) where
  succeed b hb := by
    obtain ⟨c, hc⟩ := h.succeed b hb
    exact ⟨c, by rw [within_of_ok hc, hc]⟩
  fails := result_within_of_error h.fails _

theorem forM_eq_mapM {α : Type} (x : α → Run Unit) (l : List α) :
    l.forM x = l.mapM x >>= fun _ => pure () := by
  induction l with
  | nil => rfl
  | cons a l ih =>
      have hcons : (a :: l).forM x = x a >>= fun _ => l.forM x := rfl
      rw [hcons, ih, List.mapM_cons, bind_assoc]
      simp

end Rows

/-! ## Arguments and lines -/

section Inputs

variable {α β : Type} {contents : List (Bytes × Ending)}

/-- How two commands end that handle the same inputs one after the other, the first one given as
arguments, the second one from lines.  If all inputs are handled, both succeed.  Otherwise both fail
as the first input does that cannot be handled, the second one with a context that says which line
it is.  What the first one prints then depends on that input and those before it. -/
inductive EndsAlike (handle : Bytes → Run β) (printedBefore : List Bytes → Bytes → List String)
    (inputs : List Bytes) (given read : Run Unit) : Prop
  | done (handled : ∀ input ∈ inputs, ∃ b, (handle input).result = .ok b)
      (succeeds : given.result = .ok ()) (succeedsOnLines : read.result = .ok ())
  | failed {before after : List Bytes} {input : Bytes} {e : Failure}
      (split : inputs = before ++ input :: after) (first : FailsAfter handle before input e)
      (fails : given.result = .error e)
      (failsOnLine : read.result = .error (e.within (lineContext ⟨before.length + 1, input⟩)))
      (prints : printed given.entries = printedBefore before input)

/-- Another way of handling inputs, which fails as the first one does. -/
theorem EndsAlike.imp {x : Bytes → Run α} {y : Bytes → Run β}
    {before before' : List Bytes → Bytes → List String} {inputs : List Bytes} {given read : Run Unit}
    (h : EndsAlike x before inputs given read)
    (hok : ∀ input a, (x input).result = .ok a → ∃ b, (y input).result = .ok b)
    (herror : ∀ input e, (x input).result = .error e → (y input).result = .error e)
    (hbefore : ∀ inputs input e, (x input).result = .error e →
      before inputs input = before' inputs input) :
    EndsAlike y before' inputs given read := by
  cases h with
  | done handled succeeds succeedsOnLines =>
      exact .done (fun input hinput => (handled input hinput).elim (hok input)) succeeds
        succeedsOnLines
  | failed split first fails failsOnLine prints =>
      refine .failed split ⟨fun b hb => (first.succeed b hb).elim (hok b), herror _ _ first.fails⟩
        fails failsOnLine ?_
      rw [prints, hbefore _ _ _ first.fails]

theorem EndsAlike.congr {handle : Bytes → Run β} {before : List Bytes → Bytes → List String}
    {inputs : List Bytes} {given read given' read' : Run Unit}
    (h : EndsAlike handle before inputs given read) (hgiven : given'.result = given.result)
    (hprinted : printed given'.entries = printed given.entries)
    (hread : read'.result = read.result) :
    EndsAlike handle before inputs given' read' := by
  cases h with
  | done handled succeeds succeedsOnLines =>
      exact .done handled (hgiven.trans succeeds) (hread.trans succeedsOnLines)
  | failed split first fails failsOnLine prints =>
      exact .failed split first (hgiven.trans fails) (hread.trans failsOnLine)
        (hprinted.trans prints)

/-- Handles inputs that are given as arguments, and goes on with what they are read as. -/
def handleGiven (x : Bytes → Run β) (finish : List β → Run Unit) (inputs : List Bytes) : Run Unit :=
  inputs.mapM x >>= finish

/-- Handles inputs that stand on lines, and goes on with what they are read as. -/
def handleLines (x : Bytes → Run β) (finish : List β → Run Unit) (input : Bytes) : Run Unit :=
  ((Text.lines input).mapM fun line => (x line.content).within (lineContext line)) >>= finish

theorem printed_flatMap {α : Type} (l : List α) (entries : α → List Effect) :
    printed (l.flatMap entries) = l.flatMap fun a => printed (entries a) := by
  induction l with
  | nil => rfl
  | cons a l ih => rw [List.flatMap_cons, List.flatMap_cons, printed_append, ih]

/-- Inputs are handled alike, whether they are given or read from lines. -/
theorem handleGiven_handleLines (x : Bytes → Run β) {finish : List β → Run Unit}
    (hfinish : ∀ bs, (finish bs).result = .ok ())
    (hcontents : ∀ line ∈ contents, IsContent line.1) :
    (handleGiven x finish (contents.map Prod.fst)).entries =
        (handleLines x finish (endedBytes contents)).entries ∧
      EndsAlike x (fun before input => (before ++ [input]).flatMap fun i => printed (x i).entries)
        (contents.map Prod.fst) (handleGiven x finish (contents.map Prod.fst))
        (handleLines x finish (endedBytes contents)) := by
  have hgiven : handleGiven x finish (contents.map Prod.fst) =
      (Text.lines (endedBytes contents)).mapM (fun line => x line.content) >>= finish := by
    rw [handleGiven, ← Text.map_content_lines hcontents]
    exact congrArg (· >>= finish) List.mapM_map
  rw [hgiven, ← Text.map_content_lines hcontents, handleLines]
  rcases exists_failsAfter (fun line : Line => x line.content) (Text.lines (endedBytes contents))
    with hall | ⟨before, line, after, e, hlines, hfails⟩
  · obtain ⟨⟨bs, hbs⟩, -⟩ := mapM_of_succeed hall
    rw [mapM_within_of_succeed hall]
    refine ⟨rfl, .done (List.forall_mem_map.mpr hall) ?_ ?_⟩
    · rw [Logged.result_bind_of_ok hbs, hfinish]
    · rw [Logged.result_bind_of_ok hbs, hfinish]
  · have hnumber := Text.number_of_lines hlines
    obtain ⟨hresult, hentries⟩ := mapM_of_failsAfter hfails after
    obtain ⟨hresultOnLine, hentriesOnLine⟩ :=
      mapM_of_failsAfter (hfails.within lineContext) after
    rw [← hlines] at hresult hentries hresultOnLine hentriesOnLine
    rw [Logged.entries_bind_of_error hresult, Logged.entries_bind_of_error hresultOnLine, hentries,
      hentriesOnLine]
    refine ⟨rfl, .failed (by rw [hlines, List.map_append, List.map_cons])
      ⟨List.forall_mem_map.mpr hfails.succeed, hfails.fails⟩
      (Logged.result_bind_of_error hresult) ?_ ?_⟩
    · rw [Logged.result_bind_of_error hresultOnLine, List.length_map, ← hnumber]
    · rw [Logged.entries_bind_of_error hresult, hentries, printed_flatMap]
      simp [List.flatMap_map]

theorem forInputs_given {inputs : List Bytes} (hinputs : inputs ≠ []) (visit : Bytes → Run Unit)
    (input : Bytes) :
    forInputs visit input inputs = handleGiven visit (fun _ => pure ()) inputs := by
  have hempty : inputs.isEmpty = false := by simpa using hinputs
  rw [forInputs, hempty, handleGiven, ← forM_eq_mapM]
  rfl

theorem forInputs_lines (visit : Bytes → Run Unit) (input : Bytes) :
    forInputs visit input [] = handleLines visit (fun _ => pure ()) input := by
  rw [handleLines, ← forM_eq_mapM, ← Text.visitLines_eq_forM]
  rfl

/-- Inputs are visited alike. -/
theorem forInputs_alike (hne : contents ≠ []) (hcontents : ∀ line ∈ contents, IsContent line.1)
    (visit : Bytes → Run Unit) (input : Bytes) :
    (forInputs visit input (contents.map Prod.fst)).entries =
        (forInputs visit (endedBytes contents) []).entries ∧
      EndsAlike visit
        (fun before input => (before ++ [input]).flatMap fun i => printed (visit i).entries)
        (contents.map Prod.fst) (forInputs visit input (contents.map Prod.fst))
        (forInputs visit (endedBytes contents) []) := by
  have hinputs : contents.map Prod.fst ≠ [] := by simpa using hne
  rw [forInputs_given hinputs, forInputs_lines]
  exact handleGiven_handleLines visit (fun _ => rfl) hcontents

theorem collectInputs_given {inputs : List Bytes} (hinputs : inputs ≠ []) (x : Bytes → Run β)
    (input : Bytes) (finish : List β → Run Unit) :
    (collectInputs x input inputs >>= finish) = handleGiven x finish inputs := by
  have hempty : inputs.isEmpty = false := by simpa using hinputs
  rw [collectInputs, hempty]
  rfl

theorem collectInputs_lines (x : Bytes → Run β) (input : Bytes) (finish : List β → Run Unit) :
    (collectInputs x input [] >>= finish) = handleLines x finish input := rfl

end Inputs

/-! ## Tasks -/

section Tasks

variable {setting : Setting} {words : List Bytes} {task : Task} {contents : List (Bytes × Ending)}

/-- What a task does with one input.  Before it sorts frequencies, it only reads them. -/
def Task.handle (now : Zoned) : Task → Bytes → Run Unit
  | between _ _ _ _, _ | compare _ _, _ => pure ()
  | format json _, bytes => do
      let f ← inputFrequency bytes
      printFrequency json f
  | next f count _, bytes => do
      let reference ← inputDatetime now bytes
      printNext f count reference
  | sort _ _, bytes => do
      let _ ← inputFrequency bytes

/-- What is printed in the end, if an input fails after others that do not: what is printed for
them, and what is printed for that input before it fails.  Frequencies that are to be sorted are only
printed when all of them are read. -/
def Task.printedBefore (now : Zoned) (task : Task) (before : List Bytes) (input : Bytes) :
    List String :=
  match task with
  | .format _ _ => before.flatMap fun b => printed (task.handle now b).entries
  | .next _ _ _ => (before ++ [input]).flatMap fun b => printed (task.handle now b).entries
  | _ => []

theorem endedBytes_ne_nil (hcontents : contents ≠ []) : endedBytes contents ≠ [] := by
  cases contents with
  | nil => exact absurd rfl hcontents
  | cons line contents =>
      obtain ⟨content, ending⟩ := line
      cases ending <;> simp [endedBytes, Ending.bytes]

theorem run_next_given {f : Frequency} {count : Nat} {inputs : List Bytes} (hinputs : inputs ≠ []) :
    ((Task.next f count []).withArguments inputs).run setting =
      forInputs ((Task.next f count []).handle setting.now) setting.input inputs := by
  have hempty : inputs.isEmpty = false := by simpa using hinputs
  simp only [Task.withArguments, Task.run, runNext, hempty, Bool.false_and, Bool.false_eq_true,
    if_false]
  rfl

theorem run_next_lines {f : Frequency} {count : Nat} {now : Zoned} {input : Bytes}
    (hinput : input ≠ []) :
    (Task.next f count []).run ⟨now, input, false⟩ =
      forInputs ((Task.next f count []).handle now) input [] := by
  have hempty : input.isEmpty = false := by simpa using hinput
  simp only [Task.run, runNext, hempty, Bool.and_false, Bool.false_eq_true, if_false]
  rfl

/-- Of a frequency that cannot be read, nothing is printed. -/
theorem printed_format_of_error {json : Bool} {now : Zoned} {bytes : Bytes} {e : Failure}
    (h : ((Task.format json []).handle now bytes).result = .error e) :
    printed ((Task.format json []).handle now bytes).entries = [] := by
  have hsilent : Silent (inputFrequency bytes) := silent_inputFrequency bytes
  simp only [Task.handle] at h ⊢
  cases hread : (inputFrequency bytes).result with
  | ok f =>
      rw [Logged.result_bind_of_ok hread] at h
      cases h
  | error failure => rw [Logged.entries_bind_of_error hread, hsilent]

/-- It makes no difference to a task whether its inputs are given as arguments or stand on lines,
except that a failure on a line says which line it is. -/
theorem task_given_read (setting : Setting) (hreads : task.readsInput = true) (hne : contents ≠ [])
    (hcontents : ∀ line ∈ contents, IsContent line.1) :
    printed ((task.withArguments (contents.map Prod.fst)).run setting).entries =
        printed (task.run ⟨setting.now, endedBytes contents, false⟩).entries ∧
      EndsAlike (task.handle setting.now) (task.printedBefore setting.now) (contents.map Prod.fst)
        ((task.withArguments (contents.map Prod.fst)).run setting)
        (task.run ⟨setting.now, endedBytes contents, false⟩) := by
  have hinputs : contents.map Prod.fst ≠ [] := by simpa using hne
  cases task with
  | between f start stop count => cases hreads
  | compare a b => cases hreads
  | format json arguments =>
      obtain rfl : arguments = [] := by simpa [Task.readsInput] using hreads
      obtain ⟨hentries, hends⟩ :=
        forInputs_alike hne hcontents ((Task.format json []).handle setting.now) setting.input
      refine ⟨congrArg printed hentries, hends.imp (fun _ _ h => ⟨_, h⟩) (fun _ _ h => h) ?_⟩
      intro before input e h
      rw [List.flatMap_append]
      simp [Task.printedBefore, printed_format_of_error h]
  | next f count arguments =>
      obtain rfl : arguments = [] := by simpa [Task.readsInput] using hreads
      obtain ⟨hentries, hends⟩ :=
        forInputs_alike hne hcontents ((Task.next f count []).handle setting.now) setting.input
      rw [run_next_given hinputs, run_next_lines (endedBytes_ne_nil hne)]
      exact ⟨congrArg printed hentries, hends⟩
  | sort reverse arguments =>
      obtain rfl : arguments = [] := by simpa [Task.readsInput] using hreads
      let finish (fs : List Frequency) : Run Unit :=
        sortFrequencies .insertion reverse fs >>= fun sorted => sorted.forM (printFrequency false)
      have hfinish : ∀ fs, (finish fs).result = .ok () := fun fs => (forM_printFrequency false _).1
      have hgiven := collectInputs_given hinputs inputFrequency setting.input finish
      have hread := collectInputs_lines inputFrequency (endedBytes contents) finish
      obtain ⟨hentries, hends⟩ := handleGiven_handleLines inputFrequency hfinish hcontents
      rw [← hgiven, ← hread] at hentries hends
      refine ⟨congrArg printed hentries, hends.imp ?_ ?_ ?_⟩
      · exact fun input f h => ⟨(), Logged.result_bind_of_ok h⟩
      · exact fun input e h => Logged.result_bind_of_error h
      · intro before input e h
        have hsilent : ∀ i, printed (inputFrequency i).entries = [] := silent_inputFrequency
        simp [Task.printedBefore, hsilent]

/-- A frequency, a byte that is no text, and another frequency, with different endings. -/
def mixedInputs : List (Bytes × Ending) :=
  [(Text.Utf8.encode "F1D/WT15H", .returnAndFeed), ([255], .lineFeed),
    (Text.Utf8.encode "F1D", .lineFeed)]

/-- The command for printing frequencies as JSON. -/
def formatWords : List Bytes := ["fmt", "--json"].map Text.Utf8.encode

/-- What it prints before it fails. -/
def firstLine : String :=
  "\x7b\"frequency\":\"F1D/WT15H\",\"rules\":[\x7b\"scope\":\"week\",\"unit\":\"day\"," ++
    "\"value\":1\x7d,\x7b\"scope\":\"day\",\"unit\":\"hour\",\"value\":15\x7d]\x7d"

end Tasks

end Command

end Cadence

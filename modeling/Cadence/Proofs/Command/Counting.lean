import Cadence.Proofs.Command.Printing
import Cadence.Proofs.Search.Listing
import Cadence.Proofs.Zone.Orderly

/-!
# Printing matches one after the other

Two commands print matches: one prints a number of them from a date on, the other those of a range,
at most a number of them.  What they print is the beginning of the same row of matches.

* `Frequency.matchesFrom` — the row, up to the first failure.
* `Command.printNext_eq` — the first command prints all of it.
* `Command.printBetween_of_listed` — the second one prints what the listing of the range goes
  through, and asks the listing for one match more than it prints.  Hence it ends with the failure of
  a search that comes after all that is printed.
* `Listed.take_eq_takeWhile` — the listing of a range goes through the beginning of the row, up to
  the first match that is not in the range.
-/

namespace Cadence

/-! ## Rows of matches -/

section Rows

variable {δ : Type} [Calendar δ] {f : Frequency} {stop : δ} {place : Except Error δ}
  {dates : List δ} {failure : Option Error}

/-- The matches that are found one after the other from a place on, at most a number of them and up
to the first failure.  A place is a date to search from, or the failure of the shift towards it. -/
def Frequency.matchesFrom (f : Frequency) : Nat → Except Error δ → List δ
  | 0, _ => []
  | _ + 1, .error _ => []
  | n + 1, .ok start =>
      match f.next start with
      | .error _ => []
      | .ok d => d :: f.matchesFrom n (Calendar.shift d .second 1)

theorem Frequency.matchesFrom_of_ok {start d : δ} (hnext : f.next start = .ok d) (n : Nat) :
    f.matchesFrom (n + 1) (.ok start) = d :: f.matchesFrom n (Calendar.shift d .second 1) := by
  simp only [matchesFrom, hnext]

theorem Frequency.matchesFrom_of_error {start : δ} {e : Error} (hnext : f.next start = .error e)
    (n : Nat) : f.matchesFrom (n + 1) (.ok start) = [] := by
  simp only [matchesFrom, hnext]

/-- A listing goes through the beginning of the row of matches that lies before its end. -/
theorem Listed.take_eq_takeWhile (h : Listed f stop place dates failure) (n : Nat) :
    dates.take n = (f.matchesFrom n place).takeWhile (· < stop) := by
  induction h generalizing n with
  | stuck e => cases n <;> rfl
  | failed hnext =>
      cases n with
      | zero => rfl
      | succ n => rw [Frequency.matchesFrom_of_error hnext]; rfl
  | past hnext hstop =>
      cases n with
      | zero => rfl
      | succ n =>
          rw [Frequency.matchesFrom_of_ok hnext, List.takeWhile_cons_of_neg (by simpa using hstop)]
          rfl
  | found hnext hlt hrest ih =>
      cases n with
      | zero => rfl
      | succ n =>
          rw [Frequency.matchesFrom_of_ok hnext, List.takeWhile_cons_of_pos (by simpa using hlt),
            List.take_succ_cons, ih]

end Rows

namespace Command

open Cadence.Text (Bytes)

theorem printed_notes (lines : List LogLine) : printed (lines.map Effect.note) = [] := by
  induction lines with
  | nil => rfl
  | cons line lines ih => exact ih

/-- The steps of a search are said, not printed. -/
theorem printed_events (events : List (Search.Event Zoned)) :
    printed (events.map fun event => Effect.note event.line) = [] := by
  have hlines := printed_notes (events.map Search.Event.line)
  rwa [List.map_map] at hlines

/-! ## From a date on -/

theorem silent_search {α : Type} (x : Search.Steps Zoned α) : Silent (Run.search x) :=
  printed_events x.entries

theorem result_search_within (f : Frequency) (start : Zoned) (context : String) :
    ((Run.search (f.nextLogged start)).within context).result =
      (f.next start).mapError fun e => (Failure.ofError e).within context := by
  change ((f.nextLogged start).result.mapError Failure.ofError).mapError _ =
    (f.nextLogged start).result.mapError _
  cases (f.nextLogged start).result <;> rfl

/-- The first match is printed, and the others are printed from a second after it. -/
theorem printed_printNext_succ (f : Frequency) (n : Nat) (start : Zoned) :
    printed (printNext f (n + 1) start).entries =
      match f.next start with
      | .error _ => []
      | .ok d => d.text ::
          match d.shift .second 1 with
          | .error _ => []
          | .ok later => printed (printNext f n later).entries := by
  rw [printNext]
  generalize "failed to find `" ++ f.text ++ "` from " ++ start.text = context
  have hsilent : Silent ((Run.search (f.nextLogged start)).within context) :=
    (silent_search _).within context
  have hfound := result_search_within f start context
  cases hnext : f.next start with
  | error e =>
      rw [hnext] at hfound
      rw [Logged.entries_bind_of_error hfound, hsilent]
  | ok d =>
      rw [hnext] at hfound
      have hprint : (Run.print d.text).result = .ok () := rfl
      rw [(hsilent.bind_of_ok hfound).2, printed_bind_of_ok hprint]
      refine congrArg (d.text :: ·) ?_
      cases hshift : d.shift .second 1 with
      | error e =>
          have hlater : (Run.calculate (Except.error e : Except Error Zoned)).result =
              .error (.ofError e) := rfl
          rw [Logged.entries_bind_of_error hlater]
          rfl
      | ok later =>
          have hlater : (Run.calculate (Except.ok later : Except Error Zoned)).result =
              .ok later := rfl
          rw [printed_bind_of_ok hlater]
          rfl

/-- Printing a number of matches prints the row of matches, whatever comes after it. -/
theorem printNext_eq (f : Frequency) (n : Nat) (start : Zoned) :
    printed (printNext f n start).entries = (f.matchesFrom n (.ok start)).map Zoned.text := by
  induction n generalizing start with
  | zero => rfl
  | succ n ih =>
      rw [printed_printNext_succ]
      cases hnext : f.next start with
      | error e =>
          rw [Frequency.matchesFrom_of_error hnext]
          rfl
      | ok d =>
          rw [Frequency.matchesFrom_of_ok hnext, List.map_cons]
          refine congrArg (d.text :: ·) ?_
          -- The row goes on where the shift by a second leads, if anywhere.
          change _ = (f.matchesFrom n (d.shift .second 1)).map Zoned.text
          cases d.shift .second 1 with
          | error e => cases n <;> rfl
          | ok later => exact ih later

/-! ## In a range -/

section Range

variable {context : String} {pulls : Nat} {count : Option Nat} {b : Between Zoned} {d : Zoned}
  {f : Frequency} {stop : Zoned} {place : Except Error Zoned} {dates : List Zoned}
  {failure : Option Error}

/-- The context of a failure in a range. -/
def rangeContext (f : Frequency) (start stop : Zoned) : String :=
  "failed to find `" ++ f.text ++ "` between " ++ start.text ++ " and " ++ stop.text

/-- What the end of a listing makes of the command. -/
def endOfListing (context : String) : Option Error → Except Failure Unit
  | none => .ok ()
  | some e => .error ((Failure.ofError e).within context)

theorem silent_tellAll (events : List (Search.Event Zoned)) :
    Silent (Logged.tellAll (events.map fun event => Effect.note event.line) : Run Unit) :=
  printed_events events

/-- After a pull that yields no match, the command is over. -/
theorem printBetween_of_end (failure : Option Error)
    (hitem : b.pull.item = failure.map Except.error) :
    (printBetween context (pulls + 1) count b).result = endOfListing context failure ∧
      printed (printBetween context (pulls + 1) count b).entries = [] := by
  obtain ⟨hresult, hprinted⟩ := (silent_tellAll b.pull.events).bind_of_ok rfl
  rw [printBetween]
  simp only [hitem]
  rw [hresult, hprinted]
  cases failure <;> exact ⟨rfl, rfl⟩

/-- A match that is one too many is not printed. -/
theorem printBetween_of_counted (hitem : b.pull.item = some (.ok d)) :
    (printBetween context (pulls + 1) (some 0) b).result = .ok () ∧
      printed (printBetween context (pulls + 1) (some 0) b).entries = [] := by
  obtain ⟨hresult, hprinted⟩ := (silent_tellAll b.pull.events).bind_of_ok rfl
  rw [printBetween]
  simp only [hitem, if_true]
  rw [hresult, hprinted]
  exact ⟨rfl, rfl⟩

theorem printBetween_of_found (hitem : b.pull.item = some (.ok d)) (hcount : count ≠ some 0) :
    (printBetween context (pulls + 1) count b).result =
        (printBetween context pulls (count.map (· - 1)) b.pull.rest).result ∧
      printed (printBetween context (pulls + 1) count b).entries =
        d.text :: printed (printBetween context pulls (count.map (· - 1)) b.pull.rest).entries := by
  have hprint : (Run.print d.text).result = .ok () := rfl
  obtain ⟨hresult, hprinted⟩ := (silent_tellAll b.pull.events).bind_of_ok rfl
  rw [printBetween]
  simp only [hitem, hcount, if_false]
  rw [hresult, hprinted, Logged.result_bind_of_ok hprint, printed_bind_of_ok hprint]
  exact ⟨rfl, rfl⟩

/-- The command prints what its listing goes through, at most as many dates as are asked for, if
there is a pull for each and one more.  It succeeds if there is a date left to list.  Otherwise it
ends as the listing does. -/
theorem printBetween_of_listed (h : Listed f stop place dates failure) (spare : Nat)
    (count : Option Nat) :
    (printBetween context (dates.length + spare + 1) count
        (Between.goingOn f.search stop place)).result =
        (if count.getD dates.length < dates.length then .ok () else endOfListing context failure) ∧
      printed (printBetween context (dates.length + spare + 1) count
        (Between.goingOn f.search stop place)).entries =
        (dates.take (count.getD dates.length)).map Zoned.text := by
  induction h generalizing count with
  | stuck e =>
      have hitem : (Between.goingOn f.search stop (.error e)).pull.item = some (.error e) := rfl
      simpa using printBetween_of_end (some e) hitem
  | @failed start e hnext =>
      have hitem : (Between.goingOn f.search stop (.ok start)).pull.item = some (.error e) := by
        rw [Between.pull_of_failed stop hnext]
      simpa using printBetween_of_end (some e) hitem
  | @past start d hnext hstop =>
      have hitem : (Between.goingOn f.search stop (.ok start)).pull.item = none := by
        rw [Between.pull_of_past hnext hstop]
      simpa using printBetween_of_end none hitem
  | @found start d dates failure hnext hlt hrest ih =>
      have hpull := Between.pull_of_found hnext hlt
      have hitem : (Between.goingOn f.search stop (.ok start)).pull.item = some (.ok d) := by
        rw [hpull]
      rw [List.length_cons, Nat.add_right_comm dates.length 1 spare]
      by_cases hcount : count = some 0
      · subst hcount
        simpa using printBetween_of_counted hitem
      · obtain ⟨hresult, hprinted⟩ := ih (count.map (· - 1))
        obtain ⟨hfirst, hline⟩ := printBetween_of_found hitem hcount
        rw [hpull] at hfirst hline
        rw [hfirst, hline, hresult, hprinted]
        cases count with
        | none => simp
        | some n =>
            obtain ⟨n, rfl⟩ := Nat.exists_eq_add_one_of_ne_zero fun h => hcount (h ▸ rfl)
            simp

/-- There are enough pulls for every range. -/
theorem runBetween_of_listed {start : Zoned} (h : Listed f stop (.ok start) dates failure)
    (count : Option Nat) :
    (runBetween f start stop count).result =
        (if count.getD dates.length < dates.length then .ok ()
          else endOfListing (rangeContext f start stop) failure) ∧
      printed (runBetween f start stop count).entries =
        (dates.take (count.getD dates.length)).map Zoned.text := by
  have hlength := h.length_le
  change dates.length ≤ (stop.instant.second + 1 - start.instant.second).toNat at hlength
  obtain ⟨spare, hspare⟩ : ∃ spare, pullsWithin start stop = dates.length + spare + 1 :=
    Nat.exists_eq_add_of_lt (by unfold pullsWithin; omega)
  rw [runBetween, hspare]
  exact printBetween_of_listed h spare count

end Range

/-! ## The commands -/

/-- A command line for a number of matches in a range prints that many of the dates that the range's
listing goes through, or all of them if there are fewer.  It looks for one date more than it prints.
So it succeeds if there is one, or if the listing ends because the range does.  If the listing ends
with a failure instead, the command ends with that failure, even when it has printed everything that
was asked for. -/
theorem run_between_counted {setting : Setting} {words : List Bytes} {f : Frequency}
    {start stop : Zoned} {n : Nat}
    (hplan : (plan setting.now words).result = .ok (.between f start stop (some n))) :
    ∃ dates failure, Listed f stop (.ok start) dates failure ∧
      printed (run setting words).entries = (dates.take n).map Zoned.text ∧
      ((run setting words).result = .ok () ↔ n < dates.length ∨ failure = none) ∧
      ∀ e, failure = some e → dates.length ≤ n →
        (run setting words).result =
          .error ((Failure.ofError e).within (rangeContext f start stop)) := by
  obtain ⟨hrun, hrunPrinted⟩ := run_of_plan hplan
  obtain ⟨dates, failure, hlisted⟩ := Listed.exists_of_range f start stop
  obtain ⟨hresult, hprinted⟩ := runBetween_of_listed hlisted (some n)
  rw [Option.getD_some] at hresult hprinted
  refine ⟨dates, failure, hlisted, hrunPrinted.trans hprinted, ?_, ?_⟩
  · rw [hrun, Task.run, hresult]
    by_cases hlt : n < dates.length
    · simp [hlt]
    · cases failure <;> simp [hlt, endOfListing]
  · rintro e rfl hle
    rw [hrun, Task.run, hresult, if_neg (Nat.not_lt.mpr hle)]
    rfl

/-- A user in New York, in the afternoon of a day in July. -/
def newYorkSetting : Setting :=
  let zone : Zone := { Zone.newYork with name? := some "America/New_York" }
  ⟨(Zoned.ofLocal? zone ((Civil.DateTime.atDate? ⟨2024, 7, 20⟩ 59455 0).get rfl)).get rfl, [],
    false⟩

/-- A datetime that is given in that setting. -/
def newYorkDate (text : String) : Option Zoned :=
  (readDatetime newYorkSetting.now (Text.Utf8.encode text)).result.toOption

/-- The beginning of 2000 there. -/
def startOf2000 : Zoned := (newYorkDate "2000-01-01").get (by decide +kernel)

/-- The beginning of 2030 there. -/
def startOf2030 : Zoned := (newYorkDate "2030-01-01").get (by decide +kernel)

/-- The first second of one day of all times. -/
def onlyDay : Frequency :=
  (inputFrequency (Text.Utf8.encode "F739101D/ET0H0M0S")).result.toOption.get (by decide +kernel)

/-- The beginning of that day in New York. -/
def onlyDayMatch : Zoned := (newYorkDate "2023-08-04").get (by decide +kernel)

/-- Asks for one match in a range of thirty years, which has one. -/
def onlyDayArguments : List Bytes :=
  ["between", "F739101D/ET0H0M0S", "2000-01-01", "2030-01-01", "-c", "1"].map Text.Utf8.encode

theorem plan_onlyDayArguments :
    (plan newYorkSetting.now onlyDayArguments).result =
      .ok (.between onlyDay startOf2000 startOf2030 (some 1)) := by
  with_unfolding_all rfl

/-- The listing of the range goes through the match and fails after it. -/
theorem listed_onlyDay :
    Listed onlyDay startOf2030 (.ok startOf2000) [onlyDayMatch] (some (.noMatch .second 1)) := by
  obtain ⟨later, hlater, hnext⟩ : ∃ later, onlyDayMatch.shift .second 1 = .ok later ∧
      onlyDay.next later = .error (.noMatch .second 1) :=
    ⟨(onlyDayMatch.shift .second 1).toOption.get (by decide +kernel), by decide +kernel,
      by decide +kernel⟩
  refine .found (by decide +kernel) (by decide +kernel) ?_
  change Listed onlyDay startOf2030 (onlyDayMatch.shift .second 1) [] _
  rw [hlater]
  exact .failed hnext

theorem run_between_onlyDay :
    (plan newYorkSetting.now onlyDayArguments).result =
        .ok (.between onlyDay startOf2000 startOf2030 (some 1)) ∧
      ∃ dates failure, Listed onlyDay startOf2030 (.ok startOf2000) dates failure ∧
        printed (run newYorkSetting onlyDayArguments).entries = (dates.take 1).map Zoned.text ∧
        ((run newYorkSetting onlyDayArguments).result = .ok () ↔
          1 < dates.length ∨ failure = none) ∧
        ∀ e, failure = some e → dates.length ≤ 1 →
          (run newYorkSetting onlyDayArguments).result =
            .error ((Failure.ofError e).within (rangeContext onlyDay startOf2000 startOf2030)) :=
  ⟨plan_onlyDayArguments, run_between_counted plan_onlyDayArguments⟩

/-- The only match that is asked for is found and printed, but the command fails, because a search
for another one does. -/
theorem between_onlyDay_fails :
    (plan newYorkSetting.now onlyDayArguments).result =
        .ok (.between onlyDay startOf2000 startOf2030 (some 1)) ∧
      Listed onlyDay startOf2030 (.ok startOf2000) [onlyDayMatch] (some (.noMatch .second 1)) ∧
      printed (run newYorkSetting onlyDayArguments).entries = [onlyDayMatch.text] ∧
      onlyDayMatch.text = "2023-08-04T00:00:00-04:00[America/New_York]" ∧
      (run newYorkSetting onlyDayArguments).result ≠ .ok () := by
  obtain ⟨hrun, hrunPrinted⟩ := run_of_plan plan_onlyDayArguments
  obtain ⟨hresult, hprinted⟩ := runBetween_of_listed listed_onlyDay (some 1)
  refine ⟨plan_onlyDayArguments, listed_onlyDay, hrunPrinted.trans hprinted, by decide +kernel, ?_⟩
  rw [hrun, Task.run, hresult]
  simp [endOfListing]

/-- From one datetime, the row of matches is printed. -/
theorem printed_runNext_single {setting : Setting} {f : Frequency} {n : Nat} {bytes : Bytes}
    {start : Zoned} (hstart : (readDatetime setting.now bytes).result = .ok start) :
    printed (runNext setting f n [bytes]).entries =
      (f.matchesFrom n (.ok start)).map Zoned.text := by
  have hread : (inputDatetime setting.now bytes).result = .ok start := by
    simp only [inputDatetime, Run.within, Logged.result_mapError, hstart, Except.mapError]
  have hsilent : Silent (inputDatetime setting.now bytes) :=
    (silent_readDatetime setting.now bytes).within _
  have hone : runNext setting f n [bytes] =
      inputDatetime setting.now bytes >>= fun start => printNext f n start := by
    simp only [runNext, forInputs, List.isEmpty_cons, Bool.false_and, Bool.false_eq_true, if_false]
    exact bind_pure_unit
  rw [hone, (hsilent.bind_of_ok hread).2, printNext_eq]

/-- A command line for a number of matches from a date on prints the matches that are found one after
the other, up to the first failure.  A command line for as many matches of a range that begins at
that date prints those of them that come before the first one outside the range. -/
theorem run_next_between {setting : Setting} {once ranged : List Bytes} {f : Frequency} {n : Nat}
    {bytes : Bytes} {start stop : Zoned}
    (honce : (plan setting.now once).result = .ok (.next f n [bytes]))
    (hstart : (readDatetime setting.now bytes).result = .ok start)
    (hranged : (plan setting.now ranged).result = .ok (.between f start stop (some n))) :
    printed (run setting once).entries = (f.matchesFrom n (.ok start)).map Zoned.text ∧
      printed (run setting ranged).entries =
        ((f.matchesFrom n (.ok start)).takeWhile (· < stop)).map Zoned.text := by
  obtain ⟨dates, failure, hlisted⟩ := Listed.exists_of_range f start stop
  obtain ⟨-, hbetween⟩ := runBetween_of_listed hlisted (some n)
  refine ⟨(run_of_plan honce).2.trans (printed_runNext_single hstart),
    (run_of_plan hranged).2.trans (hbetween.trans ?_)⟩
  rw [Option.getD_some, hlisted.take_eq_takeWhile]

/-- Asks for two matches from a date on, of which there is one. -/
def onlyDayTwice : List Bytes :=
  ["next", "-c2", "F739101D/ET0H0M0S", "2000-01-01"].map Text.Utf8.encode

/-- Asks for two matches in a range that ends before the only one. -/
def onlyDayTooLate : List Bytes :=
  ["between", "F739101D/ET0H0M0S", "--count=2", "2000-01-01", "2010-01-01"].map Text.Utf8.encode

/-- The beginning of 2010 in New York. -/
def startOf2010 : Zoned := (newYorkDate "2010-01-01").get (by decide +kernel)

theorem run_next_between_onlyDay :
    (plan newYorkSetting.now onlyDayTwice).result =
        .ok (.next onlyDay 2 [Text.Utf8.encode "2000-01-01"]) ∧
      (readDatetime newYorkSetting.now (Text.Utf8.encode "2000-01-01")).result = .ok startOf2000 ∧
      (plan newYorkSetting.now onlyDayTooLate).result =
        .ok (.between onlyDay startOf2000 startOf2010 (some 2)) ∧
      ["2023-08-04T00:00:00-04:00[America/New_York]"] =
        (onlyDay.matchesFrom 2 (.ok startOf2000)).map Zoned.text ∧
      [] = ((onlyDay.matchesFrom 2 (.ok startOf2000)).takeWhile (· < startOf2010)).map
        Zoned.text := by
  have honce : (plan newYorkSetting.now onlyDayTwice).result =
      .ok (.next onlyDay 2 [Text.Utf8.encode "2000-01-01"]) := by
    with_unfolding_all rfl
  have hstart : (readDatetime newYorkSetting.now (Text.Utf8.encode "2000-01-01")).result =
      .ok startOf2000 := by
    with_unfolding_all rfl
  have hranged : (plan newYorkSetting.now onlyDayTooLate).result =
      .ok (.between onlyDay startOf2000 startOf2010 (some 2)) := by
    with_unfolding_all rfl
  have honceLines : printed (run newYorkSetting onlyDayTwice).entries =
      ["2023-08-04T00:00:00-04:00[America/New_York]"] := by
    decide +kernel
  have hrangedLines : printed (run newYorkSetting onlyDayTooLate).entries = [] := by
    decide +kernel
  obtain ⟨hnext, hbetween⟩ := run_next_between honce hstart hranged
  exact ⟨honce, hstart, hranged, honceLines.symm.trans hnext, hrangedLines.symm.trans hbetween⟩

end Command

end Cadence

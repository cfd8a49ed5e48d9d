import Cadence.Proofs.Civil.Moved
import Cadence.Proofs.Search.Run

/-!
# Listings of matches

What the pulls of a listing yield, one after the other.  `Listed` says which dates a listing goes
through and with which failure it ends, if it ends with one.  Every listing goes through finitely
many dates, because each search begins at least a second later than the one before
(`Listed.exists_of_range`).  Its pulls yield these dates in order, then the failure, and from then
on nothing (`Listed.item_eq`).
-/

namespace Cadence

/-- A kind of dates that lie on a time line, on which a second takes a second. -/
class Timeline (δ : Type) [Calendar δ] where
  /-- The whole seconds on the time line. -/
  second : δ → Int
  /-- The nanoseconds within the second. -/
  nano : δ → Nat
  lt_iff {a b : δ} : a < b ↔ second a < second b ∨ (second a = second b ∧ nano a < nano b)
  shift_second {a b : δ} (h : Calendar.shift a .second 1 = .ok b) :
    second b = second a + 1 ∧ nano b = nano a

instance : Timeline Civil.DateTime where
  second := Civil.DateTime.second
  nano := Civil.DateTime.nano
  lt_iff := Civil.DateTime.lt_def
  shift_second {a b} h := by
    obtain ⟨-, -, hsecond, hnano⟩ := Civil.shift_eq_ok.mp h
    exact ⟨by simpa [Civil.moved, Civil.secondsPer] using hsecond, hnano⟩

theorem Instant.of?_eq_some {second : Int} {nano : Nat} {i : Instant} :
    Instant.of? second nano = some i ↔ i.second = second ∧ i.nano = nano := by
  constructor
  · intro h
    rw [Instant.of?] at h
    by_cases hrange : (firstInstant ≤ second ∧ second ≤ lastInstant) ∧ nano < Civil.nanosPerSecond
    · rw [dif_pos hrange] at h
      cases h
      exact ⟨rfl, rfl⟩
    · rw [dif_neg hrange] at h
      cases h
  · rintro ⟨rfl, rfl⟩
    rw [Instant.of?, dif_pos ⟨i.inRange, i.nano_lt⟩]

/-- A second that is added to a zoned datetime passes on the time line, whatever its clocks do. -/
theorem Zoned.second_of_shift {a b : Zoned} (h : a.shift .second 1 = .ok b) :
    b.instant.second = a.instant.second + 1 ∧ b.instant.nano = a.instant.nano := by
  have hlimit : Civil.withinShiftLimit .second 1 = true := by decide
  simp only [Zoned.shift, reduceCtorEq, hlimit, if_true, if_false] at h
  split at h
  · rename_i hadded
    cases h
    simp only [Zoned.add?, TimeUnit.isTime, if_true, Zoned.addSeconds?,
      Option.map_eq_some_iff] at hadded
    obtain ⟨i, hi, rfl⟩ := hadded
    obtain ⟨hsecond, hnano⟩ := Instant.of?_eq_some.mp hi
    exact ⟨by simpa [Zoned.atInstant, Civil.secondsPer] using hsecond, hnano⟩
  · cases h

instance : Timeline Zoned where
  second z := z.instant.second
  nano z := z.instant.nano
  lt_iff := Iff.rfl
  shift_second := Zoned.second_of_shift

variable {δ : Type} [Calendar δ]

namespace Timeline

variable [Timeline δ] {a b c : δ}

theorem lt_irrefl (a : δ) : ¬a < a := by
  rw [Timeline.lt_iff]
  omega

theorem lt_of_not_lt_shift (hshift : Calendar.shift a .second 1 = .ok b) (h : ¬c < b) :
    a < c := by
  obtain ⟨hsecond, hnano⟩ := Timeline.shift_second hshift
  rw [Timeline.lt_iff] at h ⊢
  omega

theorem not_lt_of_lt (hab : ¬b < a) (hbc : b < c) : ¬c < a := by
  rw [Timeline.lt_iff] at *
  omega

end Timeline

namespace Between

/-- What a pull yields after a number of other pulls. -/
def item (b : Between δ) : Nat → Option (Except Error δ)
  | 0 => b.pull.item
  | n + 1 => b.pull.rest.item n

/-- The listing that goes on at a date, or with a failure to report. -/
def goingOn (search : Search) (stop : δ) (place : Except Error δ) : Between δ :=
  ⟨search, stop, match place with
    | .ok date => .search date
    | .error e => .failure e⟩

/-- Once nothing is left, nothing is left. -/
theorem item_exhausted (b : Between δ) (n : Nat) : b.exhausted.item n = none := by
  induction n with
  | zero => rfl
  | succ n ih => exact ih

theorem after_eq_goingOn (search : Search) (stop : δ) (place : Except Error δ) (date : δ) :
    (goingOn search stop place).after date =
      goingOn search stop (Calendar.shift date .second 1) := by
  simp only [after, goingOn]
  cases Calendar.shift date .second 1 <;> rfl

section Pull

variable {f : Frequency} {start stop d : δ}

theorem pull_of_failed (stop : δ) {e : Error} (hnext : f.next start = .error e) :
    (goingOn f.search stop (.ok start)).pull =
      ⟨(f.search.next start).entries, some (.error e),
        (goingOn f.search stop (.ok start)).exhausted⟩ := by
  change (f.search.next start).result = .error e at hnext
  simp only [pull, goingOn, hnext]

theorem pull_of_past (hnext : f.next start = .ok d) (hstop : ¬d < stop) :
    (goingOn f.search stop (.ok start)).pull =
      ⟨(f.search.next start).entries ++ [.stopping d stop], none,
        (goingOn f.search stop (.ok start)).exhausted⟩ := by
  change (f.search.next start).result = .ok d at hnext
  simp only [pull, goingOn, hnext, hstop, if_false]

theorem pull_of_found (hnext : f.next start = .ok d) (hlt : d < stop) :
    (goingOn f.search stop (.ok start)).pull =
      ⟨(f.search.next start).entries, some (.ok d),
        goingOn f.search stop (Calendar.shift d .second 1)⟩ := by
  change (f.search.next start).result = .ok d at hnext
  rw [← after_eq_goingOn f.search stop (.ok start)]
  simp only [pull, goingOn, hnext, hlt, if_true]

end Pull

end Between

/-- The dates before `stop` that a listing goes through from a place on, and the failure that it
ends with, if any.  A place is a date to search from, or the failure of the shift towards it. -/
inductive Listed (f : Frequency) (stop : δ) : Except Error δ → List δ → Option Error → Prop
  | stuck (e : Error) : Listed f stop (.error e) [] (some e)
  | failed {start : δ} {e : Error} (hnext : f.next start = .error e) :
      Listed f stop (.ok start) [] (some e)
  | past {start d : δ} (hnext : f.next start = .ok d) (hstop : ¬d < stop) :
      Listed f stop (.ok start) [] none
  | found {start d : δ} {dates : List δ} {failure : Option Error}
      (hnext : f.next start = .ok d) (hlt : d < stop)
      (hrest : Listed f stop (Calendar.shift d .second 1) dates failure) :
      Listed f stop (.ok start) (d :: dates) failure

namespace Listed

variable {f : Frequency} {stop : δ} {place : Except Error δ} {dates : List δ}
  {failure : Option Error}

/-- The pulls of a listing yield its dates in order, then its failure, then nothing. -/
theorem item_eq (h : Listed f stop place dates failure) (n : Nat) :
    (Between.goingOn f.search stop place).item n =
      (dates.map Except.ok ++ failure.toList.map Except.error)[n]? := by
  -- The first pull yields what the rule says, and the rest of the listing is left to pull.
  induction h generalizing n with
  | stuck e =>
      cases n with
      | zero => rfl
      | succ n => exact Between.item_exhausted (Between.goingOn f.search stop (.error e)) n
  | failed hnext =>
      have hpull := Between.pull_of_failed stop hnext
      cases n with
      | zero => simp [Between.item, hpull]
      | succ n => simpa [Between.item, hpull] using Between.item_exhausted _ n
  | past hnext hstop =>
      have hpull := Between.pull_of_past hnext hstop
      cases n with
      | zero => simp [Between.item, hpull]
      | succ n => simpa [Between.item, hpull] using Between.item_exhausted _ n
  | found hnext hlt hrest ih =>
      have hpull := Between.pull_of_found hnext hlt
      cases n with
      | zero => simp [Between.item, hpull]
      | succ n => simpa [Between.item, hpull] using ih n

section Order

variable [Timeline δ]

theorem next_not_lt {start d : δ} (h : f.next start = .ok d) : ¬d < start :=
  (Frequency.next_sound_of_irrefl Timeline.lt_irrefl h).1

/-- Every date that is listed lies before the end, and not before the place of the listing. -/
theorem bounds (h : Listed f stop place dates failure) {d : δ} (hd : d ∈ dates) :
    d < stop ∧ ∀ start, place = .ok start → ¬d < start := by
  induction h with
  | stuck e => simp at hd
  | failed hnext => simp at hd
  | past hnext hstop => simp at hd
  | @found start first dates failure hnext hlt hrest ih =>
      have hfirst := next_not_lt hnext
      rcases List.mem_cons.mp hd with rfl | hd
      · exact ⟨hlt, by rintro _ ⟨⟩; exact hfirst⟩
      · obtain ⟨hstop, hlater⟩ := ih hd
        refine ⟨hstop, ?_⟩
        rintro _ ⟨⟩
        cases hshift : Calendar.shift first .second 1 with
        | ok later =>
            exact Timeline.not_lt_of_lt hfirst
              (Timeline.lt_of_not_lt_shift hshift (hlater later hshift))
        | error e =>
            rw [hshift] at hrest
            cases hrest
            simp at hd

/-- The dates of a listing are in order, and no date is listed twice. -/
theorem pairwise (h : Listed f stop place dates failure) : dates.Pairwise (· < ·) := by
  induction h with
  | stuck e => exact List.Pairwise.nil
  | failed hnext => exact List.Pairwise.nil
  | past hnext hstop => exact List.Pairwise.nil
  | @found start first dates failure hnext hlt hrest ih =>
      refine List.pairwise_cons.mpr ⟨?_, ih⟩
      intro d hd
      cases hshift : Calendar.shift first .second 1 with
      | ok later => exact Timeline.lt_of_not_lt_shift hshift ((hrest.bounds hd).2 later hshift)
      | error e =>
          rw [hshift] at hrest
          -- After a failed shift nothing is listed.
          cases hrest
          simp at hd

/-- Every date takes a second of its own, the one in which the end lies included. -/
theorem length_le {start : δ} (h : Listed f stop (.ok start) dates failure) :
    dates.length ≤ (Timeline.second stop + 1 - Timeline.second start).toNat := by
  generalize hplace : Except.ok start = place at h
  induction h generalizing start with
  | stuck e => cases hplace
  | failed hnext => exact Nat.zero_le _
  | past hnext hstop => exact Nat.zero_le _
  | @found start first dates failure hnext hlt hrest ih =>
      cases hplace
      have hle := next_not_lt hnext
      rw [Timeline.lt_iff] at hle hlt
      cases hshift : Calendar.shift first .second 1 with
      | ok later =>
          obtain ⟨hsecond, -⟩ := Timeline.shift_second hshift
          have hrestLength := ih hshift.symm
          rw [List.length_cons]
          omega
      | error e =>
          rw [hshift] at hrest
          cases hrest
          rw [List.length_singleton]
          omega

/-- A listing from a date with a number of seconds left to the end goes through finitely many
dates. -/
theorem exists_of_remaining (f : Frequency) (stop : δ) (n : Nat) (start : δ)
    (hn : Timeline.second stop + 1 - Timeline.second start ≤ n) :
    ∃ dates failure, Listed f stop (.ok start) dates failure := by
  induction n generalizing start with
  | zero =>
      cases hnext : f.next start with
      | error e => exact ⟨[], some e, .failed hnext⟩
      | ok d =>
          refine ⟨[], none, .past hnext ?_⟩
          have hle := next_not_lt hnext
          rw [Timeline.lt_iff] at hle ⊢
          omega
  | succ n ih =>
      cases hnext : f.next start with
      | error e => exact ⟨[], some e, .failed hnext⟩
      | ok d =>
          by_cases hlt : d < stop
          · cases hshift : Calendar.shift d .second 1 with
            | error e => exact ⟨[d], some e, .found hnext hlt (hshift ▸ .stuck e)⟩
            | ok later =>
                -- The next search begins a second after a date that is not before this one.
                have hle := next_not_lt hnext
                obtain ⟨hsecond, -⟩ := Timeline.shift_second hshift
                rw [Timeline.lt_iff] at hle
                obtain ⟨dates, failure, hrest⟩ := ih later (by omega)
                exact ⟨d :: dates, failure, .found hnext hlt (hshift ▸ hrest)⟩
          · exact ⟨[], none, .past hnext hlt⟩

theorem exists_of_range (f : Frequency) (start stop : δ) :
    ∃ dates failure, Listed f stop (.ok start) dates failure :=
  exists_of_remaining f stop (Timeline.second stop + 1 - Timeline.second start).toNat start
    (by omega)

/-- What the pulls of a listing yield on any time line. -/
theorem exists_items (f : Frequency) (start stop : δ) :
    ∃ dates failure, Listed f stop (.ok start) dates failure ∧
      (∀ n, (f.between start stop).item n =
        (dates.map Except.ok ++ failure.toList.map Except.error)[n]?) ∧
      dates.Pairwise (· < ·) ∧ ∀ d ∈ dates, ¬d < start ∧ d < stop := by
  obtain ⟨dates, failure, h⟩ := exists_of_range f start stop
  refine ⟨dates, failure, h, h.item_eq, h.pairwise, ?_⟩
  intro d hd
  obtain ⟨hstop, hstart⟩ := h.bounds hd
  exact ⟨hstart start rfl, hstop⟩

end Order

end Listed

/-- On the civil calendar and in every `Zone`, a listing yields finitely many dates in order, each
in the range, the first one found from the start and every later one from the second after the date
before.  It ends when the next date is not in the range, or with the failure of a search or a
shift, and yields nothing after that. -/
theorem Frequency.between_items (f : Frequency) :
    (∀ start stop : Civil.DateTime, ∃ dates failure, Listed f stop (.ok start) dates failure ∧
      (∀ n, (f.between start stop).item n =
        (dates.map Except.ok ++ failure.toList.map Except.error)[n]?) ∧
      dates.Pairwise (· < ·) ∧ ∀ d ∈ dates, ¬d < start ∧ d < stop) ∧
    (∀ start stop : Zoned, ∃ dates failure, Listed f stop (.ok start) dates failure ∧
      (∀ n, (f.between start stop).item n =
        (dates.map Except.ok ++ failure.toList.map Except.error)[n]?) ∧
      dates.Pairwise (· < ·) ∧ ∀ d ∈ dates, ¬d < start ∧ d < stop) :=
  ⟨Listed.exists_items f, Listed.exists_items f⟩

end Cadence

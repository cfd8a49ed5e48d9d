import Cadence.Moment.Reader
import Cadence.Proofs.Zone.Midnight

/-!
# Words for days

`yesterday`, `today` and `tomorrow` are resolved midnights.  They are the first instants of the days
before, of and after a datetime, unless the clocks of the zone skip the midnight of such a day along
with the second before it, or skip the time of the datetime on a neighbouring day and show a later
date instead (`Moment.read_days`).
-/

namespace Cadence

open Civil

namespace Zoned

variable {z : Zoned} {k : Int}

/-- The same wall clock time a number of days later is skipped, and the time to which it is resolved
is on another day. -/
def Misses (z : Zoned) (k : Int) : Prop :=
  ∃ moved, z.addDays? k = some moved ∧ moved.shownDay ≠ z.shownDay + k

/-- The midnight that ends the day is shown twice, the first time no later than the datetime. -/
def InRepeatedEvening (z : Zoned) : Prop :=
  ∃ before after, z.zone.resolve ⟨begins .day (z.shownDay + 1), 0⟩ = .fold before after ∧
    begins .day (z.shownDay + 1) - before.seconds ≤ z.instant.second

theorem exists_startOfDay? (hzone : z.zone.Orderly) (hday : z.zone.Reaches z.shownDay) :
    ∃ s, z.startOfDay? = some s ∧ s.IsStartOf z.zone z.shownDay := by
  refine exists_isStartOf hzone hday ?_ rfl
  simp only [DateTime.startOfDay, shownDay, begins, ordinal]
  omega

/-- A time is resolved to one on the same day or, where it is skipped, to one on the next day at
most. -/
theorem exists_ofLocal?_of_reaches {zone : Zone} {day : Int} (hzone : zone.Orderly)
    (hmoderate : zone.Moderate) (hday : zone.Reaches day) (hnext : zone.Reaches (day + 1))
    {t : DateTime} (ht : begins .day day ≤ t.second ∧ t.second < begins .day (day + 1)) :
    ∃ s, ofLocal? zone t = some s ∧ s.zone = zone ∧ (s.shownDay = day ∨ s.shownDay = day + 1) := by
  have hcompatible := zone.compatible_mem_offsets t.reading
  obtain ⟨s, hs, hsame, hshown, hinstant, -⟩ := exists_ofLocal? (t := t) hzone (by
    have hstart := (hday _ hcompatible).1
    have hstop := (hnext _ hcompatible).2
    omega)
  have hwall : s.wallClock.second =
      s.instant.second + (zone.offsetAt s.instant.reading).seconds := by
    rw [wallClock_second, hshown, hsame]
  have hle : t.second ≤ s.wallClock.second := by
    rw [hwall]
    exact hzone.le_shown (r := t.reading) (u := s.instant.reading) t.inRange hinstant
  have hlt : s.wallClock.second < t.second + secondsPerDay := by
    rw [hwall]
    exact hmoderate.shown_lt (r := t.reading) (u := s.instant.reading) hinstant
  have hsucc := Zone.begins_day_succ day
  have hlast := Zone.begins_day_succ (day + 1)
  refine ⟨s, hs, hsame, ?_⟩
  rw [shownDay_eq_iff, shownDay_eq_iff]
  omega

/-- The same time some days later is on the day that is meant, or on the one after it. -/
theorem exists_addDays? (hzone : z.zone.Orderly) (hmoderate : z.zone.Moderate)
    (hday : z.zone.Reaches (z.shownDay + k)) (hnext : z.zone.Reaches (z.shownDay + k + 1)) :
    ∃ moved, z.addDays? k = some moved ∧ moved.zone = z.zone ∧
      (moved.shownDay = z.shownDay + k ∨ moved.shownDay = z.shownDay + k + 1) := by
  have hlow := hday.inRange
  have hhigh := hnext.inRange
  have htime : begins .day (z.shownDay + k) ≤ z.wallClock.second + secondsPer .day * k ∧
      z.wallClock.second + secondsPer .day * k < begins .day (z.shownDay + k + 1) := by
    simp only [begins, shownDay, ordinal, secondsPer]
    omega
  obtain ⟨t, ht⟩ : ∃ t, z.wallClock.add? .day k = some t := by
    refine ⟨⟨z.wallClock.second + secondsPer .day * k, z.wallClock.nano, by omega,
      z.wallClock.nano_lt⟩, ?_⟩
    rw [add?_eq z.wallClock (by decide)]
    exact of?_eq_some.mpr ⟨rfl, rfl⟩
  have hsecond : t.second = z.wallClock.second + secondsPer .day * k := by
    rw [add?_eq z.wallClock (by decide)] at ht
    exact (of?_eq_some.mp ht).1
  rw [addDays?, ht]
  exact exists_ofLocal?_of_reaches hzone hmoderate hday hnext (hsecond ▸ htime)

/-- The midnight before the same time some days later is resolved, and it is the midnight that is
meant unless the day is missed. -/
theorem exists_startOfDay_addDays? (hzone : z.zone.Orderly) (hmoderate : z.zone.Moderate)
    (hday : z.zone.Reaches (z.shownDay + k)) (hnext : z.zone.Reaches (z.shownDay + k + 1)) :
    ∃ s, (z.addDays? k).bind startOfDay? = some s ∧
      (s.IsFirstOf z.zone (z.shownDay + k) ↔
        ¬z.zone.SkipsMidnight (z.shownDay + k) ∧ ¬z.Misses k) ∧
      (s.IsStartOf z.zone (z.shownDay + k) ∨ z.Misses k) := by
  obtain ⟨moved, hmoved, hsame, hcases⟩ := exists_addDays? hzone hmoderate hday hnext
  have hmisses : z.Misses k ↔ moved.shownDay ≠ z.shownDay + k := by
    unfold Misses
    rw [hmoved]
    simp
  have hreaches : z.zone.Reaches moved.shownDay := by
    rcases hcases with heq | heq <;> rw [heq]
    · exact hday
    · exact hnext
  obtain ⟨s, hs, hstart⟩ := exists_startOfDay? (z := moved) (hsame ▸ hzone) (hsame ▸ hreaches)
  rw [hsame] at hstart
  refine ⟨s, by rw [hmoved]; exact hs, ?_, ?_⟩
  · rw [hmisses, not_not]
    by_cases heq : moved.shownDay = z.shownDay + k
    · rw [heq] at hstart
      rw [hstart.isFirstOf_iff hzone hday hmoderate, and_iff_left heq]
    · refine iff_of_false (fun hfirst => heq ?_) fun hboth => heq hboth.2
      exact (hstart.shownDay_eq hzone hreaches hmoderate).symm.trans hfirst.shownDay_eq
  · rw [hmisses]
    by_cases heq : moved.shownDay = z.shownDay + k
    · exact .inl (heq ▸ hstart)
    · exact .inr heq

end Zoned

namespace Moment

/-- A word is read as no timestamp and no date of a message. -/
theorem read_of_word {z : Zoned} {text : String} {outcome : Except ReadError Zoned}
    (hdecode : Text.Utf8.decodeLossy (Text.Utf8.encode text) = text)
    (htimestamp : Timestamp.read? text.toList = none) (hmail : Mail.read? text.toList = none)
    (hword : ofWord? z text = some outcome) : read z (Text.Utf8.encode text) = outcome := by
  unfold read
  simp only [hdecode, htimestamp, hmail, hword]

theorem read_day {z s : Zoned} {k : Int} (hs : (z.addDays? k).bind Zoned.startOfDay? = some s) :
    resolved ((z.addDays? k).bind Zoned.startOfDay?) = .ok s := by
  rw [hs]
  rfl

/-- The words for days are always read.  A word stands for the first instant of its day unless the
clocks skip the midnight that begins the day along with the second before it, or, for the
neighbouring days, skip the time of the datetime on that day and show a later day instead.
Yesterday comes before today, today not after the datetime, and tomorrow after it unless the
midnight between is shown twice and was shown already, in which case no first instant of the next
day comes after the datetime. -/
theorem read_days (z : Zoned) (hz : z.IsShown) (hzone : z.zone.Orderly) (hmoderate : z.zone.Moderate)
    (hfirst : z.zone.Reaches (z.shownDay - 1)) (hlast : z.zone.Reaches (z.shownDay + 2)) :
    ∃ y t m, read z (Text.Utf8.encode "yesterday") = .ok y ∧
      read z (Text.Utf8.encode "today") = .ok t ∧
      read z (Text.Utf8.encode "tomorrow") = .ok m ∧
      (y.IsFirstOf z.zone (z.shownDay - 1) ↔
        ¬z.zone.SkipsMidnight (z.shownDay - 1) ∧ ¬z.Misses (-1)) ∧
      (t.IsFirstOf z.zone z.shownDay ↔ ¬z.zone.SkipsMidnight z.shownDay) ∧
      (m.IsFirstOf z.zone (z.shownDay + 1) ↔
        ¬z.zone.SkipsMidnight (z.shownDay + 1) ∧ ¬z.Misses 1) ∧
      (¬z.Misses (-1) → y < t) ∧ (¬z.zone.SkipsMidnight z.shownDay → ¬z < t) ∧
      (¬z.Misses 1 → (z < m ↔ ¬z.InRepeatedEvening)) := by
  have hprevious : z.zone.Reaches (z.shownDay + -1) := hfirst
  have htoday : z.zone.Reaches z.shownDay := hfirst.between hlast (by omega)
  have hnext : z.zone.Reaches (z.shownDay + 1) := hfirst.between hlast (by omega)
  obtain ⟨y, hy, hyfirst, hystart⟩ := Zoned.exists_startOfDay_addDays? hzone hmoderate hprevious
    (by rwa [Int.neg_add_cancel_right])
  obtain ⟨t, ht, htstart⟩ := Zoned.exists_startOfDay? hzone htoday
  obtain ⟨m, hm, hmfirst, hmstart⟩ := Zoned.exists_startOfDay_addDays? hzone hmoderate hnext
    (by rwa [Int.add_assoc])
  have htfirst := htstart.isFirstOf_iff hzone htoday hmoderate
  refine ⟨y, t, m, ?_, ?_, ?_, hyfirst, htfirst, hmfirst, ?_, ?_, ?_⟩
  · rw [read_of_word (by decide +kernel) (by rfl) (by rfl) rfl]
    exact read_day hy
  · rw [read_of_word (by decide +kernel) (by rfl) (by rfl) rfl, ht]
    rfl
  · rw [read_of_word (by decide +kernel) (by rfl) (by rfl) rfl]
    exact read_day hm
  · intro hmisses
    have hstart := hystart.resolve_right hmisses
    exact hstart.lt_next (by rwa [Int.neg_add_cancel_right]) hmoderate
  · intro hskips
    exact (htfirst.mpr hskips).not_lt z rfl hz rfl
  · intro hmisses
    have hstart := hmstart.resolve_right hmisses
    exact hstart.lt_iff hzone hnext hz rfl (Int.lt_succ z.shownDay)

/-- Noon in New York, on the day before the clocks go back. -/
def newYorkNoon : Zoned :=
  (Zoned.ofLocal? .newYork ((DateTime.atDate? ⟨2014, 11, 1⟩ 43200 0).get rfl)).get rfl

/-- No clock changes at a midnight in New York. -/
theorem read_days_newYork :
    newYorkNoon.IsShown ∧ newYorkNoon.zone.Orderly ∧ newYorkNoon.zone.Moderate ∧
      newYorkNoon.zone.Reaches (newYorkNoon.shownDay - 1) ∧
      newYorkNoon.zone.Reaches (newYorkNoon.shownDay + 2) ∧
      ∃ t, read newYorkNoon (Text.Utf8.encode "today") = .ok t ∧
        t.IsFirstOf newYorkNoon.zone newYorkNoon.shownDay ∧ ¬newYorkNoon < t := by
  have hshown : newYorkNoon.IsShown := rfl
  have hzone : newYorkNoon.zone.Orderly := by decide +kernel
  have hmoderate : newYorkNoon.zone.Moderate := by decide +kernel
  have hfirst : newYorkNoon.zone.Reaches (newYorkNoon.shownDay - 1) := by decide +kernel
  have hlast : newYorkNoon.zone.Reaches (newYorkNoon.shownDay + 2) := by decide +kernel
  have hskips : ¬newYorkNoon.zone.SkipsMidnight newYorkNoon.shownDay := by
    rintro ⟨before, after, -, hgap⟩
    have hunique : newYorkNoon.zone.resolve ⟨begins .day newYorkNoon.shownDay, 0⟩ =
        .unique ⟨-14400, by decide⟩ := by decide +kernel
    rw [hunique] at hgap
    cases hgap
  obtain ⟨y, t, m, -, ht, -, -, htfirst, -, -, hle, -⟩ :=
    read_days newYorkNoon hshown hzone hmoderate hfirst hlast
  exact ⟨hshown, hzone, hmoderate, hfirst, hlast, t, ht, htfirst.mpr hskips, hle hskips⟩

/-- The clocks of New York, if they went forward half an hour before midnight. -/
def newYorkLate : Zone :=
  { Zone.newYork with
    daylight? := Zone.newYork.daylight?.map fun daylight =>
      { daylight with starts := ⟨.weekday 3 2 0, 84600⟩ } }

/-- Noon on the day that the clocks reach by going forward. -/
def lateNoon : Zoned :=
  (Zoned.ofLocal? newYorkLate ((DateTime.atDate? ⟨2014, 3, 10⟩ 43200 0).get rfl)).get rfl

/-- One in the morning of that day. -/
def lateOne : Zoned := .atInstant newYorkLate ((Instant.of? 63561646800 0).get rfl)

/-- Half past midnight, which is what the clocks show first on that day. -/
def lateHalfPast : Zoned := .atInstant newYorkLate ((Instant.of? 63561645000 0).get rfl)

/-- The clocks show half past midnight before the hour that is read for today. -/
theorem read_today_late :
    read lateNoon (Text.Utf8.encode "today") = .ok lateOne ∧
      lateHalfPast.shownDay = lateNoon.shownDay ∧ lateHalfPast < lateOne ∧
      ¬lateOne.IsFirstOf newYorkLate lateNoon.shownDay := by
  have hstart : lateNoon.startOfDay? = some lateOne := by decide +kernel
  have hday : lateHalfPast.shownDay = lateNoon.shownDay := by decide +kernel
  have hlt : lateHalfPast < lateOne := by decide +kernel
  refine ⟨?_, hday, hlt, fun hfirst => hfirst.not_lt lateHalfPast rfl rfl hday hlt⟩
  rw [read_of_word (by decide +kernel) (by rfl) (by rfl) rfl, hstart]
  rfl

end Moment

end Cadence

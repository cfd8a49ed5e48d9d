import Cadence.Proofs.Search.Forward
import Cadence.Proofs.Zone.Clock

/-!
# Zones of a constant offset

Where the offset of a zone never changes, zoned datetimes are civil datetimes that reach less far:
additions, truncations and the order are those of the times shown (`Zone.Constant.follows`).  So a
search in such a zone is the search on the civil calendar from the time that the clocks show
(`Frequency.next_wallClock`).
-/

namespace Cadence

open Civil

/-- The zone has the offset at every instant and resolves every wall clock time by it. -/
structure Zone.Constant (zone : Zone) (offset : Offset) : Prop where
  offsetAt (r : Zone.Reading) : zone.offsetAt r = offset
  resolve (r : Zone.Reading) : zone.resolve r = .unique offset

namespace Zone

theorem constant_of_daylight_none {zone : Zone} (h : zone.daylight? = none) :
    zone.Constant zone.standard := by
  constructor
  · intro r
    unfold Zone.offsetAt
    rw [h]
  · intro r
    unfold Zone.resolve
    rw [h]

/-- Daylight time that is standard time changes nothing. -/
theorem constant_of_daylight_eq {zone : Zone} {daylight : Daylight}
    (h : zone.daylight? = some daylight) (heq : daylight.offset = zone.standard) :
    zone.Constant zone.standard := by
  constructor
  · intro r
    simp only [Zone.offsetAt, h, heq, ite_self]
  · intro r
    simp only [Zone.resolve, h, heq, if_true]

namespace Constant

variable {zone : Zone} {offset : Offset} {z z' : Zoned} {t t' : DateTime}

theorem exists_add (hzone : zone.Constant offset) (h : z.Shows zone offset t) {unit : TimeUnit}
    (hunit : unit ≠ .epoch) {k : Int} (hadd : z.add? unit k = some z') :
    ∃ t', t.add? unit k = some t' ∧ z'.Shows zone offset t' := by
  cases htime : unit.isTime with
  | true => exact Zoned.exists_add_time h htime hadd (hzone.offsetAt _)
  | false =>
      by_cases hk : k = 0
      · subst hk
        obtain ⟨hadd', hshows⟩ := Zoned.exists_add_zero h hunit htime hadd (hzone.offsetAt _)
        exact ⟨t, hadd', hshows⟩
      · exact Zoned.exists_add_date h htime hk hadd fun _ _ => hzone.resolve _

theorem truncate_eq (hzone : zone.Constant offset) (h : z.Shows zone offset t) :
    ∃ z', z.truncate = .ok z' ∧ z'.Shows zone offset t.truncate := by
  have hi : Instant.ofLocal? z.wallClock.truncate offset =
      some ⟨z.instant.second, 0, z.instant.inRange, by decide⟩ := by
    rw [Instant.ofLocal?, Instant.of?_eq_some, h.wallClock]
    exact ⟨h.second, rfl⟩
  refine ⟨Zoned.atInstant zone ⟨z.instant.second, 0, z.instant.inRange, by decide⟩, ?_, ?_⟩
  · simp only [Zoned.truncate, Zoned.ofLocalPreferring?, h.zone, hzone.resolve,
      Zone.Resolution.compatible, hi, Option.map_some]
  · exact .of_second rfl (hzone.offsetAt _) h.second rfl

theorem lt_iff (h : z.Shows zone offset t) (h' : z'.Shows zone offset t') : z < z' ↔ t < t' := by
  have hsecond := h.second
  have hsecond' := h'.second
  have hnano : z.instant.nano = t.nano := congrArg DateTime.nano h.wallClock
  have hnano' : z'.instant.nano = t'.nano := congrArg DateTime.nano h'.wallClock
  show z.instant.second < z'.instant.second ∨
      (z.instant.second = z'.instant.second ∧ z.instant.nano < z'.instant.nano) ↔
    t.second < t'.second ∨ (t.second = t'.second ∧ t.nano < t'.nano)
  omega

/-- In a zone of a constant offset zoned datetimes follow the times that they show. -/
theorem follows (hzone : zone.Constant offset) :
    Search.Follows fun (z : Zoned) (t : DateTime) => z.Shows zone offset t where
  wallClock h := h.wallClock
  lt_iff h h' := lt_iff h h'
  shift h unit k := Zoned.shift_agrees fun hunit _ hadd => hzone.exists_add h hunit hadd
  truncate h := by
    obtain ⟨z', hz', hshows⟩ := hzone.truncate_eq h
    show Agrees _ (Zoned.truncate _) _
    rw [hz']
    exact .ok hshows

end Constant

end Zone

namespace Frequency

/-- In a zone of a constant offset, UTC included, a search that keeps to the range of instants gives
what the search on the civil calendar gives from the time shown: the time that its answer shows, or
the same failure.  Whether a date matches is told by the time shown, too. -/
theorem next_wallClock (f : Frequency) {zone : Zone} {offset : Offset}
    (hzone : zone.Constant offset) (z : Zoned) (hz : z.zone = zone) (hshown : z.IsShown) :
    (f.next z ≠ .error .outOfRange →
      f.next z.wallClock = (f.next z).map Zoned.wallClock) ∧
    f.isMatch z.wallClock = f.isMatch z := by
  constructor
  · intro hrange
    have hoffset : z.offset = offset := by
      rw [hshown, hz]
      exact hzone.offsetAt _
    have hagrees : Agrees (fun (z : Zoned) (t : DateTime) => z.Shows zone offset t) (f.next z)
        (f.next z.wallClock) := hzone.follows.next ⟨hz, hoffset, rfl⟩
    revert hrange hagrees
    generalize f.next z = zoned
    generalize f.next z.wallClock = civil
    intro hrange hagrees
    cases hagrees with
    | ok h => exact congrArg Except.ok h.wallClock.symm
    | error e => rfl
    | outOfRange y => exact absurd rfl hrange
  · unfold isMatch
    rw [Search.violation_congr (a := z.wallClock) (b := z) rfl]

/-- Where the clocks are five and a half hours ahead. -/
def halfHourAhead : Zone := Zone.fixed ((Offset.of? 19800).get rfl)

/-- The clocks there show the last day of 2014. -/
def halfHourAheadNewYearsEve : Zoned := (Zoned.ofLocal? halfHourAhead newYearsEve).get rfl

/-- The search for odd weeks goes the same way there. -/
theorem next_oddWeeks_wallClock :
    halfHourAhead.Constant halfHourAhead.standard ∧ halfHourAheadNewYearsEve.IsShown ∧
      oddWeeks.next halfHourAheadNewYearsEve ≠ .error .outOfRange ∧
      oddWeeks.next newYearsEve =
        (oddWeeks.next halfHourAheadNewYearsEve).map Zoned.wallClock ∧
      oddWeeks.isMatch newYearsEve = oddWeeks.isMatch halfHourAheadNewYearsEve := by
  have hzone : halfHourAhead.Constant halfHourAhead.standard :=
    Zone.constant_of_daylight_none rfl
  have hrange : oddWeeks.next halfHourAheadNewYearsEve ≠ .error .outOfRange := by
    decide +kernel
  obtain ⟨hnext, hmatch⟩ := next_wallClock oddWeeks hzone halfHourAheadNewYearsEve rfl rfl
  exact ⟨hzone, rfl, hrange, hnext hrange, hmatch⟩

end Frequency

end Cadence

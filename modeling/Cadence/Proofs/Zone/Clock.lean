import Cadence.Proofs.Search.Listing
import Cadence.Proofs.Search.LockStep
import Cadence.Proofs.Search.Reset

/-!
# The clocks of a zone

What the operations on zoned datetimes do to the wall clock.  `Zoned.Shows z zone offset t` says
that the clocks of the zone show the time `t` at the instant of `z` by an offset.  An addition on a
zoned datetime then is the addition on the time shown, as far as the zone resolves the time reached
by one offset (`exists_add_date`) or has the same offset at the instant reached
(`exists_add_time`).
-/

namespace Cadence

open Civil

theorem Offset.eq_of_seconds {a b : Offset} (h : a.seconds = b.seconds) : a = b := by
  cases a
  cases b
  simp only at h
  subst h
  rfl

namespace Zoned

/-- The clocks of a zone show a time by an offset. -/
structure Shows (z : Zoned) (zone : Zone) (offset : Offset) (t : DateTime) : Prop where
  zone : z.zone = zone
  offset : z.offset = offset
  wallClock : z.wallClock = t

/-- The offset is the one that the zone has at the instant. -/
def IsShown (z : Zoned) : Prop := z.offset = z.zone.offsetAt z.instant.reading

@[simp] theorem wallClock_second (z : Zoned) :
    z.wallClock.second = z.instant.second + z.offset.seconds := rfl

@[simp] theorem wallClock_nano (z : Zoned) : z.wallClock.nano = z.instant.nano := rfl

theorem isShown_atInstant (zone : Zone) (i : Instant) : (atInstant zone i).IsShown := rfl

theorem eq_atInstant {z : Zoned} (h : z.IsShown) : z = atInstant z.zone z.instant := by
  obtain ⟨instant, zone, offset⟩ := z
  unfold IsShown at h
  simp only at h
  subst h
  rfl

theorem eq_of_instant {z z' : Zoned} (hinstant : z.instant = z'.instant) (hzone : z.zone = z'.zone)
    (hoffset : z.offset = z'.offset) : z = z' := by
  cases z
  cases z'
  simp only at hinstant hzone hoffset
  subst hinstant hzone hoffset
  rfl

theorem Shows.second {z : Zoned} {zone : Zone} {offset : Offset} {t : DateTime}
    (h : z.Shows zone offset t) : z.instant.second = t.second - offset.seconds := by
  have hsecond := z.wallClock_second
  rw [h.wallClock, h.offset] at hsecond
  omega

/-- The time shown is determined by the second and the nanosecond. -/
theorem Shows.of_second {z : Zoned} {zone : Zone} {offset : Offset} {t : DateTime}
    (hzone : z.zone = zone) (hoffset : z.offset = offset)
    (hsecond : z.instant.second = t.second - offset.seconds) (hnano : z.instant.nano = t.nano) :
    z.Shows zone offset t := by
  refine ⟨hzone, hoffset, DateTime.eq_of_second ?_ ?_⟩
  · rw [wallClock_second, hoffset]
    omega
  · exact hnano

/-- A time that is resolved by one offset is shown by it. -/
theorem shows_of_ofLocal? {zone : Zone} {t : DateTime} {offset : Offset} {z : Zoned}
    (hres : zone.resolve t.reading = .unique offset) (h : ofLocal? zone t = some z) :
    z.Shows zone offset t := by
  simp only [ofLocal?, hres, Option.map_eq_some_iff] at h
  obtain ⟨i, hi, rfl⟩ := h
  obtain ⟨hsecond, hnano⟩ := Instant.of?_eq_some.mp hi
  exact .of_second rfl rfl hsecond hnano

/-! ## Additions -/

/-- A shift within the limits is an addition. -/
theorem add?_of_shift {z z' : Zoned} {unit : TimeUnit} {k : Int} (h : z.shift unit k = .ok z') :
    z.add? unit k = some z' := by
  unfold Zoned.shift at h
  split_ifs at h
  cases hadd : z.add? unit k with
  | none =>
      rw [hadd] at h
      cases h
  | some moved =>
      rw [hadd] at h
      cases h
      rfl

/-- Adding a time unit adds its seconds to the instant. -/
theorem add?_time {z z' : Zoned} {unit : TimeUnit} (htime : unit.isTime = true) {k : Int}
    (h : z.add? unit k = some z') : z'.zone = z.zone ∧ z'.IsShown ∧
      z'.instant.second = z.instant.second + secondsPer unit * k ∧
      z'.instant.nano = z.instant.nano := by
  simp only [add?, htime, if_true, addSeconds?, Option.map_eq_some_iff] at h
  obtain ⟨i, hi, rfl⟩ := h
  obtain ⟨hsecond, hnano⟩ := Instant.of?_eq_some.mp hi
  exact ⟨rfl, rfl, hsecond, hnano⟩

theorem add?_zero {z z' : Zoned} {unit : TimeUnit} (htime : unit.isTime = false)
    (h : z.add? unit 0 = some z') : z' = atInstant z.zone z.instant := by
  simp only [add?, htime, Bool.false_eq_true, if_false, if_true, Option.some.injEq] at h
  exact h.symm

theorem add?_date {z z' : Zoned} {unit : TimeUnit} (htime : unit.isTime = false) {k : Int}
    (hk : k ≠ 0) (h : z.add? unit k = some z') :
    ∃ t, z.wallClock.add? unit k = some t ∧ ofLocal? z.zone t = some z' := by
  simp only [add?, htime, Bool.false_eq_true, if_false, hk, Option.bind_eq_some_iff] at h
  exact h

section Shown

variable {z z' : Zoned} {zone : Zone} {offset : Offset} {t : DateTime} {unit : TimeUnit} {k : Int}

/-- Time that passes on the clock's own offset passes on the clock, too. -/
theorem exists_add_time (h : z.Shows zone offset t) (htime : unit.isTime = true)
    (hadd : z.add? unit k = some z')
    (hoffset : zone.offsetAt z'.instant.reading = offset) :
    ∃ t', t.add? unit k = some t' ∧ z'.Shows zone offset t' := by
  obtain ⟨hzone, hshown, hsecond, hnano⟩ := add?_time htime hadd
  have hunit : unit ≠ .epoch := by
    rintro rfl
    simp [TimeUnit.isTime] at htime
  unfold IsShown at hshown
  rw [hzone, h.zone, hoffset] at hshown
  refine ⟨z'.wallClock, ?_, hzone.trans h.zone, hshown, rfl⟩
  rw [add?_eq t hunit, of?_eq_some]
  have hstart := h.second
  have hmoved : moved unit t.second k = t.second + secondsPer unit * k := by
    revert htime
    cases unit <;> simp [TimeUnit.isTime, moved]
  -- The instant is moved by as many seconds as the time shown, because the offset is the same.
  constructor
  · rw [wallClock_second, hshown, hmoved]
    omega
  · rw [wallClock_nano, hnano, ← h.wallClock, wallClock_nano]

/-- The time reached on the calendar is shown by the offset that resolves it. -/
theorem exists_add_date (h : z.Shows zone offset t) (htime : unit.isTime = false) (hk : k ≠ 0)
    (hadd : z.add? unit k = some z') {reached : Offset}
    (hres : ∀ t', t.add? unit k = some t' → zone.resolve t'.reading = .unique reached) :
    ∃ t', t.add? unit k = some t' ∧ z'.Shows zone reached t' := by
  obtain ⟨t', ht', hlocal⟩ := add?_date htime hk hadd
  rw [h.wallClock] at ht'
  rw [h.zone] at hlocal
  exact ⟨t', ht', shows_of_ofLocal? (hres t' ht') hlocal⟩

/-- Adding nothing stays at the time shown, if the zone still has the offset. -/
theorem exists_add_zero (h : z.Shows zone offset t) (hunit : unit ≠ .epoch)
    (htime : unit.isTime = false) (hadd : z.add? unit 0 = some z')
    (hoffset : zone.offsetAt z.instant.reading = offset) :
    t.add? unit 0 = some t ∧ z'.Shows zone offset t := by
  have hz' := add?_zero htime hadd
  rw [h.zone] at hz'
  subst hz'
  constructor
  · rw [add?_eq t hunit, of?_eq_some, moved_zero]
    exact ⟨rfl, rfl⟩
  · refine .of_second rfl hoffset h.second ?_
    rw [← h.wallClock]
    rfl

/-- Shifts agree where additions do: they have the same limits. -/
theorem shift_agrees {R : Zoned → DateTime → Prop}
    (h : unit ≠ .epoch → ∀ z', z.add? unit k = some z' →
      ∃ t', t.add? unit k = some t' ∧ R z' t') :
    Agrees R (Calendar.shift z unit k) (Calendar.shift t unit k) := by
  show Agrees R (z.shift unit k) (t.shift unit k)
  unfold Zoned.shift DateTime.shift
  by_cases hunit : unit = .epoch
  · rw [if_pos hunit, if_pos hunit]
    exact .error _
  · rw [if_neg hunit, if_neg hunit]
    by_cases hlimit : withinShiftLimit unit k = true
    · rw [if_pos hlimit, if_pos hlimit]
      cases hadd : z.add? unit k with
      | none => exact .outOfRange _
      | some z' =>
          obtain ⟨t', ht', hR⟩ := h hunit z' hadd
          rw [ht']
          exact .ok hR
    · rw [if_neg hlimit, if_neg hlimit]
      exact .error _

end Shown

end Zoned

end Cadence

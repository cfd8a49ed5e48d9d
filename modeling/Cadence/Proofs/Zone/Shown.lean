import Cadence.Proofs.Zone.Orderly

/-!
# Zoned datetimes of orderly zones

In an orderly zone a datetime is truncated by dropping its fraction of a second
(`truncate_of_isShown`), and every addition leads to a datetime that the zone shows by its own
offset (`isShown_of_add?`).
-/

namespace Cadence

open Civil

namespace Zoned

variable {z z' : Zoned} {zone : Zone} {t : DateTime} {offset : Offset}

/-- The zoned datetime without its fraction of a second. -/
def wholeSecond (z : Zoned) : Zoned :=
  ⟨⟨z.instant.second, 0, z.instant.inRange, Nat.zero_lt_of_lt z.instant.nano_lt⟩, z.zone, z.offset⟩

/-- A preferred offset that resolves a time is kept. -/
theorem ofLocalPreferring?_of_admits (h : (zone.resolve t.reading).admits offset = true) :
    ofLocalPreferring? zone t offset = (Instant.ofLocal? t offset).map (atInstant zone) := by
  unfold ofLocalPreferring?
  cases hres : zone.resolve t.reading with
  | unique only =>
      rw [hres] at h
      rw [of_decide_eq_true h]
      rfl
  | gap before after =>
      rw [hres] at h
      cases h
  | fold before after =>
      rw [hres] at h
      have hkept : offset = before ∨ offset = after := by
        simpa [Zone.Resolution.admits] using h
      simp only [if_pos hkept]

/-- Truncating a datetime of an orderly zone drops the fraction of a second and nothing else. -/
theorem truncate_of_isShown (hz : z.IsShown) (hzone : z.zone.Orderly) :
    z.truncate = .ok z.wholeSecond := by
  have hadmits : (z.zone.resolve z.wallClock.truncate.reading).admits z.offset = true := by
    rw [hzone.resolve_admits_iff z.wallClock.inRange (u := z.instant.reading)]
    · exact hz.symm
    · show z.instant.second = z.instant.second + z.offset.seconds - z.offset.seconds
      omega
  have hlocal : Instant.ofLocal? z.wallClock.truncate z.offset = some z.wholeSecond.instant := by
    rw [Instant.ofLocal?, Instant.of?_eq_some]
    refine ⟨?_, rfl⟩
    show z.instant.second = z.instant.second + z.offset.seconds - z.offset.seconds
    omega
  have hwhole : atInstant z.zone z.wholeSecond.instant = z.wholeSecond := by
    refine (eq_atInstant (z := z.wholeSecond) ?_).symm
    exact Eq.trans hz (hzone.offsetAt_congr rfl)
  simp only [truncate, ofLocalPreferring?_of_admits hadmits, hlocal, Option.map_some, hwhole]

/-- In every `Zone` a truncated datetime is one that the zone shows. -/
theorem isShown_of_truncate (h : z.truncate = .ok z') : z'.IsShown := by
  unfold truncate at h
  split at h
  · rename_i hlocal
    cases h
    obtain ⟨i, -, rfl⟩ := Option.map_eq_some_iff.mp hlocal
    exact isShown_atInstant z.zone i
  · cases h

/-- What a wall clock time of an orderly zone is resolved to is shown by the zone's own offset. -/
theorem isShown_of_ofLocal? (hzone : zone.Orderly) (h : ofLocal? zone t = some z) :
    z.zone = zone ∧ z.IsShown ∧ z.instant.nano = t.nano := by
  have hshown : ∀ offset, (Instant.ofLocal? t offset).map (atInstant zone) = some z →
      z.zone = zone ∧ z.IsShown ∧ z.instant.nano = t.nano := by
    intro offset h
    obtain ⟨i, hi, rfl⟩ := Option.map_eq_some_iff.mp h
    exact ⟨rfl, rfl, (Instant.of?_eq_some.mp hi).2⟩
  unfold ofLocal? at h
  cases hres : zone.resolve t.reading with
  | unique offset =>
      simp only [hres] at h
      obtain ⟨i, hi, rfl⟩ := Option.map_eq_some_iff.mp h
      obtain ⟨hsecond, hnano⟩ := Instant.of?_eq_some.mp hi
      refine ⟨rfl, ?_, hnano⟩
      -- The one offset that resolves the time is the zone's at the instant.
      refine ((hzone.resolve_admits_iff (r := t.reading) t.inRange hsecond).mp ?_).symm
      rw [hres]
      exact decide_eq_true rfl
  | gap before after =>
      simp only [hres] at h
      exact hshown _ h
  | fold before after =>
      simp only [hres] at h
      exact hshown _ h

/-- Additions in an orderly zone lead to datetimes that the zone shows. -/
theorem isShown_of_add? (hzone : z.zone.Orderly) {unit : TimeUnit} {k : Int}
    (h : z.add? unit k = some z') :
    z'.zone = z.zone ∧ z'.IsShown ∧ z'.instant.nano = z.instant.nano := by
  cases htime : unit.isTime with
  | true =>
      obtain ⟨hz, hshown, -, hnano⟩ := add?_time htime h
      exact ⟨hz, hshown, hnano⟩
  | false =>
      by_cases hk : k = 0
      · subst hk
        rw [add?_zero htime h]
        exact ⟨rfl, rfl, rfl⟩
      · obtain ⟨t, ht, hlocal⟩ := add?_date htime hk h
        obtain ⟨hz, hshown, hnano⟩ := isShown_of_ofLocal? hzone hlocal
        refine ⟨hz, hshown, hnano.trans ?_⟩
        have hunit : unit ≠ .epoch := by
          rintro rfl
          cases ht
        rw [add?_eq _ hunit, of?_eq_some] at ht
        exact ht.2

end Zoned

end Cadence

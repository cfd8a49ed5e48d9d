import Cadence.Proofs.Zone.Shown

/-!
# Days without a clock change

A zone is steady on a day if one offset tells all times of the day.  On such a day hours, minutes
and seconds pass as on the civil calendar, and a shift by dates that leads to one reaches the time
that it reaches there (`Zoned.ShowsOn`).  An orderly zone is steady on the days that no transition
touches, be it on the clocks before or on the clocks after it (`HasSeasons.exists_steadyOn`).
-/

namespace Cadence

open Civil

namespace Zone

/-- Each time of a day is resolved by one offset, which the zone has at every instant that shows a
time of the day, be it by this offset or by its own. -/
structure SteadyOn (zone : Zone) (day : Int) (offset : Offset) : Prop where
  resolve {r : Reading} (hr : ordinal .day r.second = day) : zone.resolve r = .unique offset
  offsetAt {u : Reading} (hu : ordinal .day (u.second + offset.seconds) = day) :
    zone.offsetAt u = offset
  shown {u : Reading} (hu : ordinal .day (u.second + (zone.offsetAt u).seconds) = day) :
    zone.offsetAt u = offset

/-- The clocks change by less than a day. -/
def Moderate (zone : Zone) : Prop :=
  ∀ daylight ∈ zone.daylight?, daylight.offset.seconds < zone.standard.seconds + secondsPerDay ∧
    zone.standard.seconds < daylight.offset.seconds + secondsPerDay

instance (zone : Zone) : Decidable zone.Moderate :=
  inferInstanceAs (Decidable (∀ daylight ∈ zone.daylight?, _))

theorem Moderate.offsetAt_lt {zone : Zone} (h : zone.Moderate) (u u' : Reading) :
    (zone.offsetAt u).seconds < (zone.offsetAt u').seconds + secondsPerDay := by
  have hday : 0 < secondsPerDay := by decide
  unfold offsetAt
  cases hdaylight : zone.daylight? with
  | none => simp only; omega
  | some daylight =>
      obtain ⟨hless, hmore⟩ := h daylight hdaylight
      simp only
      split
      · split <;> omega
      · split <;> omega

/-- The clocks of a zone show earlier dates before the midnight of a steady day, and no earlier ones
from then on. -/
theorem SteadyOn.date_lt_iff {zone : Zone} {day : Int} {offset : Offset}
    (h : zone.SteadyOn day offset) (hmoderate : zone.Moderate) (u : Reading) :
    ordinal .day (u.second + (zone.offsetAt u).seconds) < day ↔
      u.second < begins .day day - offset.seconds := by
  have hday : TimeUnit.day ≠ .epoch := by decide
  -- The zone has the offset at midnight, so its other offsets differ by less than a day.
  have hmidnight : zone.offsetAt ⟨begins .day day - offset.seconds, 0⟩ = offset := by
    apply h.offsetAt
    rw [Int.sub_add_cancel, ordinal_begins hday]
  have hless := hmoderate.offsetAt_lt u ⟨begins .day day - offset.seconds, 0⟩
  have hmore := hmoderate.offsetAt_lt ⟨begins .day day - offset.seconds, 0⟩ u
  rw [hmidnight] at hless hmore
  have hown : ordinal .day (u.second + (zone.offsetAt u).seconds) ≠ day ∨
      zone.offsetAt u = offset := (em _).symm.imp_right h.shown
  have hother : ordinal .day (u.second + offset.seconds) ≠ day ∨ zone.offsetAt u = offset :=
    (em _).symm.imp_right h.offsetAt
  simp only [ordinal, begins, secondsPerDay] at *
  constructor
  · intro hlt
    rcases hother with hne | heq
    · omega
    · rw [heq] at hlt
      omega
  · intro hlt
    rcases hown with hne | heq
    · omega
    · rw [heq]
      omega

/-- In an orderly zone it is enough that every time of the day is resolved by the offset. -/
theorem Orderly.steadyOn {zone : Zone} (h : zone.Orderly) {day : Int} {offset : Offset}
    (hrange : firstSecond ≤ begins .day day ∧ begins .day (day + 1) ≤ lastSecond + 1)
    (hresolve : ∀ r : Reading, ordinal .day r.second = day → zone.resolve r = .unique offset) :
    zone.SteadyOn day offset := by
  have hcivil : ∀ s, ordinal .day s = day → firstSecond ≤ s ∧ s ≤ lastSecond := by
    intro s hs
    have hbounds := (ordinal_eq_iff (show TimeUnit.day ≠ .epoch by decide)).mp hs
    omega
  constructor
  case resolve => exact hresolve _
  case offsetAt =>
    intro u hu
    have hadmits : (zone.resolve ⟨u.second + offset.seconds, 0⟩).admits offset = true := by
      rw [hresolve _ hu]
      exact decide_eq_true rfl
    exact (h.resolve_admits_iff (hcivil _ hu) (by simp only; omega)).mp hadmits
  case shown =>
    intro u hu
    have hadmits : (zone.resolve ⟨u.second + (zone.offsetAt u).seconds, 0⟩).admits
        (zone.offsetAt u) = true :=
      (h.resolve_admits_iff (u := u) (hcivil _ hu) (by simp only; omega)).mpr rfl
    rw [hresolve _ hu] at hadmits
    exact of_decide_eq_true hadmits

/-- Clocks that jump from one second to another skip or repeat a time of a day. -/
def JumpTouches (start stop day : Int) : Prop :=
  min start stop < begins .day (day + 1) ∧ begins .day day < max start stop

instance (start stop day : Int) : Decidable (JumpTouches start stop day) :=
  inferInstanceAs (Decidable (_ ∧ _))

/-- One of the transitions of the year skips or repeats a time of a day. -/
def Seasons.Touches (seasons : Seasons) (day : Int) : Prop :=
  JumpTouches (seasons.opens.secondIn (yearOfDay day))
      (seasons.opens.secondIn (yearOfDay day) + seasons.ahead) day ∨
    JumpTouches (seasons.closes.secondIn (yearOfDay day))
      (seasons.closes.secondIn (yearOfDay day) - seasons.ahead) day

instance (seasons : Seasons) (day : Int) : Decidable (seasons.Touches day) :=
  inferInstanceAs (Decidable (_ ∨ _))

theorem HasSeasons.orderly_zone {zone : Zone} {seasons : Seasons} (h : zone.HasSeasons seasons) :
    zone.Orderly := by
  obtain ⟨horderly, hne, hclocks⟩ := h
  intro daylight hdaylight
  right
  rcases hclocks with ⟨hstandard, hsome⟩ | ⟨hstandard, hsome⟩
  · rw [hsome] at hdaylight
    cases hdaylight
    left
    rw [hstandard]
    exact horderly
  · rw [hsome] at hdaylight
    cases hdaylight
    right
    rw [hstandard]
    exact horderly

/-- The zone is steady on the days that no transition touches. -/
theorem HasSeasons.exists_steadyOn {zone : Zone} {seasons : Seasons} (h : zone.HasSeasons seasons)
    {day : Int} (hrange : firstSecond ≤ begins .day day ∧ begins .day (day + 1) ≤ lastSecond + 1)
    (htouches : ¬seasons.Touches day) : ∃ offset, zone.SteadyOn day offset := by
  have hbounds := h.orderly.bounds (yearOfDay day)
  have hmargin := h.margin_bounds
  have hahead : seasons.ahead = seasons.inner.seconds - seasons.outer.seconds := rfl
  unfold Seasons.Touches JumpTouches at htouches
  have hresolve : ∀ r : Reading, ordinal .day r.second = day → r.year = yearOfDay day ∧
      (firstSecond ≤ r.second ∧ r.second ≤ lastSecond) ∧
      begins .day day ≤ r.second ∧ r.second < begins .day (day + 1) := by
    intro r hr
    have hday := (ordinal_eq_iff (show TimeUnit.day ≠ .epoch by decide)).mp hr
    have hyear : r.year = yearOfDay day := by
      rw [← hr]
      rfl
    exact ⟨hyear, by omega, hday⟩
  -- The day lies within the inner season, or within the outer one.
  by_cases hinner : seasons.opens.secondIn (yearOfDay day) ≤ begins .day day ∧
      begins .day (day + 1) ≤ seasons.closes.secondIn (yearOfDay day)
  · refine ⟨seasons.inner, h.orderly_zone.steadyOn hrange ?_⟩
    intro r hr
    obtain ⟨hyear, hcivil, hday⟩ := hresolve r hr
    rw [h.resolve_eq hcivil, hyear]
    split_ifs <;> first | rfl | omega
  · refine ⟨seasons.outer, h.orderly_zone.steadyOn hrange ?_⟩
    intro r hr
    obtain ⟨hyear, hcivil, hday⟩ := hresolve r hr
    rw [h.resolve_eq hcivil, hyear]
    split_ifs <;> first | rfl | omega

end Zone

namespace Zoned

/-! ## Shifts to and on steady days -/

/-- The clocks of a zone show a time on a day on which the zone is steady. -/
def ShowsOn (zone : Zone) (day : Int) (z : Zoned) (t : DateTime) : Prop :=
  ∃ offset, zone.SteadyOn day offset ∧ z.Shows zone offset t ∧ ordinal .day t.second = day

variable {z z' : Zoned} {zone : Zone} {offset : Offset} {t : DateTime} {day : Int}
  {unit : TimeUnit} {k : Int}

theorem ShowsOn.wallClock (h : ShowsOn zone day z t) : z.wallClock = t := by
  obtain ⟨offset, -, hshows, -⟩ := h
  exact hshows.wallClock

/-- A shift by dates to a steady day reaches the time that it reaches on the civil calendar. -/
theorem shift_date_agrees (h : z.Shows zone offset t) (htime : unit.isTime = false) (hk : k ≠ 0)
    (hsteady : ∃ reached, zone.SteadyOn (ordinal .day (moved unit t.second k)) reached) :
    Agrees (ShowsOn zone (ordinal .day (moved unit t.second k))) (Calendar.shift z unit k)
      (Calendar.shift t unit k) := by
  obtain ⟨reached, hreached⟩ := hsteady
  apply shift_agrees
  intro hunit z' hadd
  have hday : ∀ t', t.add? unit k = some t' →
      ordinal .day t'.second = ordinal .day (moved unit t.second k) := by
    intro t' ht'
    rw [add?_eq t hunit, of?_eq_some] at ht'
    rw [ht'.1]
  obtain ⟨t', ht', hshows⟩ :=
    exists_add_date h htime hk hadd fun t' ht' => hreached.resolve (hday t' ht')
  exact ⟨t', ht', reached, hreached, hshows, hday t' ht'⟩

/-- A shift by no dates stays at the time, which only one instant shows. -/
theorem shift_none_agrees (h : ShowsOn zone day z t) (htime : unit.isTime = false) :
    Agrees (ShowsOn zone day) (Calendar.shift z unit 0) (Calendar.shift t unit 0) := by
  obtain ⟨offset, hsteady, hshows, hday⟩ := h
  apply shift_agrees
  intro hunit z' hadd
  have hoffset : zone.offsetAt z.instant.reading = offset := by
    apply hsteady.offsetAt
    show ordinal .day (z.instant.second + offset.seconds) = day
    rw [hshows.second, Int.sub_add_cancel, hday]
  obtain ⟨ht, hshows'⟩ := exists_add_zero hshows hunit htime hadd hoffset
  exact ⟨t, ht, offset, hsteady, hshows', hday⟩

/-- Days are counted from one steady day to another as on the civil calendar. -/
theorem shift_days_agrees (h : ShowsOn zone day z t)
    (hsteady : ∃ reached, zone.SteadyOn (day + k) reached) :
    Agrees (ShowsOn zone (day + k)) (Calendar.shift z .day k) (Calendar.shift t .day k) := by
  by_cases hk : k = 0
  · subst hk
    rw [Int.add_zero]
    exact shift_none_agrees h rfl
  · obtain ⟨offset, -, hshows, hday⟩ := h
    have hreached : ordinal .day (moved .day t.second k) = day + k := by
      rw [ordinal_moved (by decide), hday]
    rw [← hreached] at hsteady ⊢
    exact shift_date_agrees hshows rfl hk hsteady

/-- On a steady day time passes as on the civil calendar. -/
theorem shift_time_agrees (h : ShowsOn zone day z t) (htime : unit.isTime = true)
    (hstays : ordinal .day (t.second + secondsPer unit * k) = day) :
    Agrees (ShowsOn zone day) (Calendar.shift z unit k) (Calendar.shift t unit k) := by
  obtain ⟨offset, hsteady, hshows, -⟩ := h
  apply shift_agrees
  intro hunit z' hadd
  have hsecond : z'.instant.second + offset.seconds = t.second + secondsPer unit * k := by
    have hstart := hshows.second
    have hadded := (add?_time htime hadd).2.2.1
    omega
  have hoffset : zone.offsetAt z'.instant.reading = offset := by
    apply hsteady.offsetAt
    show ordinal .day (z'.instant.second + offset.seconds) = day
    rw [hsecond, hstays]
  obtain ⟨t', ht', hshows'⟩ := exists_add_time hshows htime hadd hoffset
  refine ⟨t', ht', offset, hsteady, hshows', ?_⟩
  have hreached := hshows'.second
  rw [show t'.second = t.second + secondsPer unit * k by omega, hstays]

/-! ## Dates that the clocks show -/

/-- The number of the day that the clocks show. -/
def shownDay (z : Zoned) : Int := ordinal .day z.wallClock.second

variable {m : Zoned}

/-- Datetimes before the midnight of a steady day show earlier dates, and no others do. -/
theorem shownDay_lt_iff (hz : z.IsShown) (hmoderate : z.zone.Moderate)
    (hsteady : z.zone.SteadyOn day offset) :
    z.shownDay < day ↔ z.instant.second < begins .day day - offset.seconds := by
  have hiff := hsteady.date_lt_iff hmoderate z.instant.reading
  rw [← show z.offset = z.zone.offsetAt z.instant.reading from hz] at hiff
  exact hiff

/-- A clock that is steady on a date does not go back from it. -/
theorem shownDay_le (hz : z.IsShown) (hmoderate : z.zone.Moderate)
    (hsteady : z.zone.SteadyOn z.shownDay offset) (hm : m.IsShown) (hzone : m.zone = z.zone)
    (hle : ¬m < z) : z.shownDay ≤ m.shownDay := by
  by_contra hless
  have hmidnight := (shownDay_lt_iff hz hmoderate hsteady).not.mp (Int.lt_irrefl z.shownDay)
  rw [← hzone] at hmoderate hsteady
  have hbefore := (shownDay_lt_iff hm hmoderate hsteady).mp (Int.not_le.mp hless)
  apply hle
  left
  omega

/-- A datetime before a whole second is in an earlier second. -/
theorem second_lt_of_lt (h : m < z) (hnano : z.wallClock.nano = 0) :
    m.instant.second < z.instant.second := by
  rw [wallClock_nano] at hnano
  rcases h with hsecond | ⟨-, hless⟩
  · exact hsecond
  · rw [hnano] at hless
    exact absurd hless (Nat.not_lt_zero _)

end Zoned

end Cadence

import Cadence.Proofs.Zone.Steady

/-!
# Midnights

The midnight that begins a day may be skipped by the clocks of a zone, or shown twice.  The instant
that it is resolved to is the first one that shows the day, unless the clocks skip the midnight
along with a time before it, because they then show the day from a later time on, and at an earlier
instant than the one found (`Zoned.IsStartOf.isFirstOf_iff`).
-/

namespace Cadence

open Civil

namespace Zone

/-! ## Clocks that move back and forward -/

namespace HasSeasons

variable {zone : Zone} {seasons : Seasons} {r u v : Reading}

/-- The offset is one of the two, and it is the inner one exactly between the transitions. -/
theorem offsetAt_cases (h : zone.HasSeasons seasons) (u : Reading) :
    (zone.offsetAt u = seasons.inner ∧
        seasons.opens.secondIn u.year - seasons.outer.seconds ≤ u.second ∧
        u.second < seasons.closes.secondIn u.year - seasons.inner.seconds) ∨
      (zone.offsetAt u = seasons.outer ∧
        (u.second < seasons.opens.secondIn u.year - seasons.outer.seconds ∨
          seasons.closes.secondIn u.year - seasons.inner.seconds ≤ u.second)) := by
  rw [h.offsetAt_eq]
  split_ifs with hinner
  · exact .inl ⟨rfl, hinner⟩
  · exact .inr ⟨rfl, by omega⟩

/-- If the clocks show at one instant no more than at an earlier one then they have moved back
between the two, over all times from the one that they show to the other. -/
theorem resolve_of_back (h : zone.HasSeasons seasons)
    (hr : firstSecond ≤ r.second ∧ r.second ≤ lastSecond) (hlt : u.second < v.second)
    (hlow : v.second + (zone.offsetAt v).seconds ≤ r.second)
    (hhigh : r.second ≤ u.second + (zone.offsetAt u).seconds) :
    zone.resolve r = .fold (zone.offsetAt u) (zone.offsetAt v) := by
  have hmargin := h.margin_bounds
  have hbounds := h.orderly.bounds r.year
  have hahead : seasons.ahead = seasons.inner.seconds - seasons.outer.seconds := rfl
  rw [h.resolve_eq hr]
  rcases h.offsetAt_cases u with ⟨hu, huyear⟩ | ⟨hu, huyear⟩
  · rw [hu] at hhigh ⊢
    rcases h.offsetAt_cases v with ⟨hv, -⟩ | ⟨hv, hvyear⟩
    · rw [hv] at hlow
      omega
    · -- The seasons close between the two instants.
      rw [hv] at hlow ⊢
      rcases h.year_eq_or_outer (r := r) (u := u) (by omega) with hequ | hturnu
      · rw [hequ] at huyear
        rcases h.year_eq_or_outer (r := r) (u := v) (by omega) with heqv | hturnv
        · rw [heqv] at hvyear
          split_ifs <;> first | rfl | omega
        · omega
      · omega
  · rw [hu] at hhigh ⊢
    rcases h.offsetAt_cases v with ⟨hv, hvyear⟩ | ⟨hv, -⟩
    · -- They open between the two instants.
      rw [hv] at hlow ⊢
      rcases h.year_eq_or_outer (r := r) (u := v) (by omega) with heqv | hturnv
      · rw [heqv] at hvyear
        rcases h.year_eq_or_outer (r := r) (u := u) (by omega) with hequ | hturnu
        · rw [hequ] at huyear
          split_ifs <;> first | rfl | omega
        · omega
      · omega
    · rw [hv] at hlow
      omega

/-- Clocks skip a time by moving forward, and have moved when the time would have come. -/
theorem offsetAt_of_gap (h : zone.HasSeasons seasons)
    (hr : firstSecond ≤ r.second ∧ r.second ≤ lastSecond) {before after : Offset}
    (hgap : zone.resolve r = .gap before after) (hu : u.second = r.second - before.seconds) :
    zone.offsetAt u = after ∧ before.seconds < after.seconds := by
  have hmargin := h.margin_bounds
  have hbounds := h.orderly.bounds r.year
  have hahead : seasons.ahead = seasons.inner.seconds - seasons.outer.seconds := rfl
  rw [h.resolve_eq hr] at hgap
  split_ifs at hgap with hopens _ _ hcloses
  · cases hgap
    rcases h.year_eq_or_outer (r := r) (u := u) (by omega) with heq | hturn
    · rcases h.offsetAt_cases u with ⟨hinner, -⟩ | ⟨-, houter⟩
      · exact ⟨hinner, by omega⟩
      · rw [heq] at houter
        omega
    · omega
  · cases hgap
    rcases h.offsetAt_cases u with ⟨-, hinner⟩ | ⟨houter, -⟩
    · rcases h.year_eq_or_outer (r := r) (u := u) (by omega) with heq | hturn
      · rw [heq] at hinner
        omega
      · omega
    · exact ⟨houter, by omega⟩

/-- Before the outer clocks come to the time at which the seasons open, earlier times are shown. -/
theorem shown_lt_opens (h : zone.HasSeasons seasons)
    (hr : r.second = seasons.opens.secondIn r.year)
    (hu : u.second < r.second - seasons.outer.seconds) :
    u.second + (zone.offsetAt u).seconds < r.second := by
  have hmargin := h.margin_bounds
  have hbounds := h.orderly.bounds r.year
  have hdifference : seasons.ahead = seasons.inner.seconds - seasons.outer.seconds := rfl
  rcases h.offsetAt_cases u with ⟨hinner, hbetween⟩ | ⟨houter, -⟩
  · rw [hinner]
    by_contra hle
    rcases h.year_eq_or_outer (r := r) (u := u) (by omega) with heq | hturn
    · rw [heq] at hbetween
      omega
    · omega
  · rw [houter]
    omega

/-- Before the inner clocks come to the time at which the seasons close, earlier times are shown. -/
theorem shown_lt_closes (h : zone.HasSeasons seasons)
    (hr : r.second = seasons.closes.secondIn r.year)
    (hu : u.second < r.second - seasons.inner.seconds) :
    u.second + (zone.offsetAt u).seconds < r.second := by
  have hmargin := h.margin_bounds
  have hbounds := h.orderly.bounds r.year
  have hdifference : seasons.ahead = seasons.inner.seconds - seasons.outer.seconds := rfl
  rcases h.offsetAt_cases u with ⟨hinner, -⟩ | ⟨houter, hbetween⟩
  · rw [hinner]
    omega
  · rw [houter]
    by_contra hle
    rcases h.year_eq_or_outer (r := r) (u := u) (by omega) with heq | hturn
    · rw [heq] at hbetween
      omega
    · omega

/-- A time that is skipped is the first one that its gap skips, or the second before it is skipped as
well. -/
theorem resolve_previous_of_gap (h : zone.HasSeasons seasons)
    (hr : firstSecond ≤ r.second - 1 ∧ r.second ≤ lastSecond) {before after : Offset}
    (hgap : zone.resolve r = .gap before after) :
    zone.resolve ⟨r.second - 1, 0⟩ = .gap before after ∨
      ∀ u : Reading, u.second < r.second - before.seconds →
        u.second + (zone.offsetAt u).seconds < r.second := by
  have hmargin := h.margin_bounds
  have hbounds := h.orderly.bounds r.year
  have hyear := year_bounds r
  have hahead : seasons.ahead = seasons.inner.seconds - seasons.outer.seconds := rfl
  rw [h.resolve_eq (by omega)] at hgap
  -- Gaps keep clear of the beginning of the year, so the second before lies in the same year.
  have hprevious : begins .year r.year < r.second →
      (Reading.mk (r.second - 1) 0).year = r.year := fun hlt =>
    (ordinal_eq_iff (show TimeUnit.year ≠ .epoch by decide)).mpr (by simp only; omega)
  rw [or_iff_not_imp_left]
  intro hfirst u hu
  split_ifs at hgap with hopens _ _ hcloses
  · cases hgap
    have hsecond : r.second = seasons.opens.secondIn r.year := by
      by_contra hne
      refine hfirst ?_
      rw [h.resolve_eq (by simp only; omega), hprevious (by omega), if_pos (by simp only; omega)]
    exact h.shown_lt_opens hsecond hu
  · cases hgap
    have hsecond : r.second = seasons.closes.secondIn r.year := by
      by_contra hne
      refine hfirst ?_
      rw [h.resolve_eq (by simp only; omega), hprevious (by omega)]
      simp only
      split_ifs <;> first | rfl | omega
    exact h.shown_lt_closes hsecond hu

end HasSeasons

namespace Orderly

variable {zone : Zone} {r u v : Reading}

theorem resolve_of_back (h : zone.Orderly) (hr : firstSecond ≤ r.second ∧ r.second ≤ lastSecond)
    (hlt : u.second < v.second) (hlow : v.second + (zone.offsetAt v).seconds ≤ r.second)
    (hhigh : r.second ≤ u.second + (zone.offsetAt u).seconds) :
    zone.resolve r = .fold (zone.offsetAt u) (zone.offsetAt v) := by
  rcases h.cases with hconstant | ⟨seasons, hseasons⟩
  · rw [hconstant.offsetAt] at hlow hhigh
    omega
  · exact hseasons.resolve_of_back hr hlt hlow hhigh

theorem offsetAt_of_gap (h : zone.Orderly) (hr : firstSecond ≤ r.second ∧ r.second ≤ lastSecond)
    {before after : Offset} (hgap : zone.resolve r = .gap before after)
    (hu : u.second = r.second - before.seconds) :
    zone.offsetAt u = after ∧ before.seconds < after.seconds := by
  rcases h.cases with hconstant | ⟨seasons, hseasons⟩
  · rw [hconstant.resolve] at hgap
    cases hgap
  · exact hseasons.offsetAt_of_gap hr hgap hu

theorem resolve_previous_of_gap (h : zone.Orderly)
    (hr : firstSecond ≤ r.second - 1 ∧ r.second ≤ lastSecond) {before after : Offset}
    (hgap : zone.resolve r = .gap before after) :
    zone.resolve ⟨r.second - 1, 0⟩ = .gap before after ∨
      ∀ u : Reading, u.second < r.second - before.seconds →
        u.second + (zone.offsetAt u).seconds < r.second := by
  rcases h.cases with hconstant | ⟨seasons, hseasons⟩
  · rw [hconstant.resolve] at hgap
    cases hgap
  · exact hseasons.resolve_previous_of_gap hr hgap

/-- A time that is not skipped is shown at the instant that it is resolved to. -/
theorem offsetAt_compatible (h : zone.Orderly)
    (hr : firstSecond ≤ r.second ∧ r.second ≤ lastSecond)
    (hgap : ∀ before after, zone.resolve r ≠ .gap before after)
    (hu : u.second = r.second - (zone.resolve r).compatible.seconds) :
    zone.offsetAt u = (zone.resolve r).compatible := by
  refine (h.resolve_admits_iff hr hu).mp ?_
  cases hres : zone.resolve r with
  | unique offset => exact decide_eq_true rfl
  | gap before after => exact absurd hres (hgap before after)
  | fold before after => simp [Resolution.admits, Resolution.compatible]

/-- Before the instant that a time is resolved to the clocks show earlier times, unless they skip
the time along with the second before it. -/
theorem shown_lt (h : zone.Orderly) (hr : firstSecond ≤ r.second - 1 ∧ r.second ≤ lastSecond)
    (hskips : ∀ before after, zone.resolve ⟨r.second - 1, 0⟩ = .gap before after →
      zone.resolve r ≠ .gap before after)
    (hu : u.second < r.second - (zone.resolve r).compatible.seconds) :
    u.second + (zone.offsetAt u).seconds < r.second := by
  have hcivil : firstSecond ≤ r.second ∧ r.second ≤ lastSecond := by omega
  by_cases hgap : ∃ before after, zone.resolve r = .gap before after
  · obtain ⟨before, after, hgap⟩ := hgap
    rw [hgap] at hu
    rcases h.resolve_previous_of_gap hr hgap with hprevious | hlater
    · exact absurd hgap (hskips before after hprevious)
    · exact hlater u hu
  · by_contra hle
    -- The clocks would move back between the two instants and show the time at the earlier one.
    let v : Reading := ⟨r.second - (zone.resolve r).compatible.seconds, 0⟩
    have hv : zone.offsetAt v = (zone.resolve r).compatible :=
      h.offsetAt_compatible hcivil (fun before after heq => hgap ⟨before, after, heq⟩) rfl
    have hshown : v.second + (zone.offsetAt v).seconds = r.second := by
      rw [hv]
      exact Int.sub_add_cancel _ _
    have hfold := h.resolve_of_back hcivil hu (v := v) (by omega) (by omega)
    have hsame : (zone.resolve r).compatible = zone.offsetAt u := by
      rw [hfold]
      rfl
    rw [hsame] at hu
    omega

end Orderly

/-! ## Offsets -/

/-- The offsets that the clocks of a zone have. -/
def offsets (zone : Zone) : List Offset :=
  zone.standard :: (zone.daylight?.map Daylight.offset).toList

theorem offsetAt_mem_offsets (zone : Zone) (u : Reading) : zone.offsetAt u ∈ zone.offsets := by
  unfold offsetAt offsets
  cases zone.daylight? with
  | none => exact List.mem_cons_self
  | some daylight =>
      simp only [Option.map_some, Option.toList_some]
      split <;> simp

theorem compatible_mem_offsets (zone : Zone) (r : Reading) :
    (zone.resolve r).compatible ∈ zone.offsets := by
  unfold resolve resolveAhead resolveBehind offsets
  cases zone.daylight? with
  | none => exact List.mem_cons_self
  | some daylight =>
      simp only [Option.map_some, Option.toList_some]
      split_ifs <;> simp [Resolution.compatible]

theorem Moderate.offset_lt {zone : Zone} (h : zone.Moderate) {offset offset' : Offset}
    (hoffset : offset ∈ zone.offsets) (hoffset' : offset' ∈ zone.offsets) :
    offset.seconds < offset'.seconds + secondsPerDay := by
  have hday : 0 < secondsPerDay := by decide
  unfold offsets at hoffset hoffset'
  cases hdaylight : zone.daylight? with
  | none =>
      rw [hdaylight] at hoffset hoffset'
      rw [List.mem_singleton.mp hoffset, List.mem_singleton.mp hoffset']
      omega
  | some daylight =>
      rw [hdaylight] at hoffset hoffset'
      obtain ⟨hless, hmore⟩ := h daylight hdaylight
      have hpair : ∀ {o : Offset}, o ∈ [zone.standard, daylight.offset] →
          o = zone.standard ∨ o = daylight.offset := by simp
      rcases hpair hoffset with rfl | rfl <;> rcases hpair hoffset' with rfl | rfl <;> omega

/-- At the instant that a time is resolved to, the clocks show it or a later time. -/
theorem Orderly.le_shown {zone : Zone} (h : zone.Orderly) {r u : Reading}
    (hr : firstSecond ≤ r.second ∧ r.second ≤ lastSecond)
    (hu : u.second = r.second - (zone.resolve r).compatible.seconds) :
    r.second ≤ u.second + (zone.offsetAt u).seconds := by
  by_cases hgap : ∃ before after, zone.resolve r = .gap before after
  · obtain ⟨before, after, hgap⟩ := hgap
    rw [hgap] at hu
    obtain ⟨hafter, hahead⟩ := h.offsetAt_of_gap hr hgap hu
    rw [hafter, hu]
    simp only [Resolution.compatible]
    omega
  · have hcompatible :=
      h.offsetAt_compatible hr (fun before after heq => hgap ⟨before, after, heq⟩) hu
    rw [hcompatible]
    omega

/-- Clocks that change by less than a day show a time that is less than a day later at most. -/
theorem Moderate.shown_lt {zone : Zone} (h : zone.Moderate) {r u : Reading}
    (hu : u.second = r.second - (zone.resolve r).compatible.seconds) :
    u.second + (zone.offsetAt u).seconds < r.second + secondsPerDay := by
  have hless := h.offset_lt (zone.offsetAt_mem_offsets u) (zone.compatible_mem_offsets r)
  omega

/-- The midnight that begins a day and the second before it are in range, whichever offset tells
them. -/
def Reaches (zone : Zone) (day : Int) : Prop :=
  ∀ offset ∈ zone.offsets, firstInstant < begins .day day - offset.seconds ∧
    begins .day day - offset.seconds ≤ lastInstant

instance (zone : Zone) (day : Int) : Decidable (zone.Reaches day) :=
  inferInstanceAs (Decidable (∀ offset ∈ zone.offsets, _))

theorem Reaches.between {zone : Zone} {first last day : Int} (hfirst : zone.Reaches first)
    (hlast : zone.Reaches last) (hday : first ≤ day ∧ day ≤ last) : zone.Reaches day := by
  intro offset hoffset
  have hlow := begins_le_begins (show TimeUnit.day ≠ .epoch by decide) hday.1
  have hhigh := begins_le_begins (show TimeUnit.day ≠ .epoch by decide) hday.2
  have hstart := (hfirst offset hoffset).1
  have hstop := (hlast offset hoffset).2
  omega

theorem begins_day_succ (day : Int) : begins .day (day + 1) = begins .day day + secondsPerDay := by
  simp only [begins, secondsPerDay]
  omega

/-- The midnight and the second before it may be shown by a datetime. -/
theorem Reaches.inRange {zone : Zone} {day : Int} (h : zone.Reaches day) :
    firstSecond ≤ begins .day day - 1 ∧ begins .day day ≤ lastSecond := by
  have hbounded := zone.standard.bounded
  obtain ⟨hfirst, hlast⟩ := h zone.standard List.mem_cons_self
  unfold firstInstant at hfirst
  unfold lastInstant at hlast
  omega

/-- The clocks skip the midnight that begins a day along with the second before it. -/
def SkipsMidnight (zone : Zone) (day : Int) : Prop :=
  ∃ before after, zone.resolve ⟨begins .day day - 1, 0⟩ = .gap before after ∧
    zone.resolve ⟨begins .day day, 0⟩ = .gap before after

end Zone

namespace Zoned

variable {s z : Zoned} {zone : Zone} {day : Int}

/-- The datetime is the first one of its zone that shows a day. -/
structure IsFirstOf (s : Zoned) (zone : Zone) (day : Int) : Prop where
  zone_eq : s.zone = zone
  isShown : s.IsShown
  shownDay_eq : s.shownDay = day
  not_lt (e : Zoned) : e.zone = zone → e.IsShown → e.shownDay = day → ¬e < s

/-- The datetime is what the midnight that begins a day is resolved to. -/
structure IsStartOf (s : Zoned) (zone : Zone) (day : Int) : Prop where
  zone_eq : s.zone = zone
  isShown : s.IsShown
  second : s.instant.second =
    begins .day day - (zone.resolve ⟨begins .day day, 0⟩).compatible.seconds
  nano : s.instant.nano = 0

/-- A time whose instant is in range is resolved. -/
theorem exists_ofLocal? (hzone : zone.Orderly) {t : DateTime}
    (hrange : firstInstant ≤ t.second - (zone.resolve t.reading).compatible.seconds ∧
      t.second - (zone.resolve t.reading).compatible.seconds ≤ lastInstant) :
    ∃ s, ofLocal? zone t = some s ∧ s.zone = zone ∧ s.IsShown ∧
      s.instant.second = t.second - (zone.resolve t.reading).compatible.seconds ∧
      s.instant.nano = t.nano := by
  obtain ⟨i, hi⟩ : ∃ i, Instant.ofLocal? t (zone.resolve t.reading).compatible = some i := by
    rw [Instant.ofLocal?, Instant.of?, dif_pos ⟨hrange, t.nano_lt⟩]
    exact ⟨_, rfl⟩
  obtain ⟨hsecond, hnano⟩ := Instant.of?_eq_some.mp hi
  obtain ⟨s, hs, hinstant⟩ : ∃ s, ofLocal? zone t = some s ∧ s.instant = i := by
    unfold ofLocal?
    cases hres : zone.resolve t.reading with
    | unique offset =>
        rw [hres] at hi
        exact ⟨⟨i, zone, offset⟩, Option.map_eq_some_iff.mpr ⟨i, hi, rfl⟩, rfl⟩
    | gap before after | fold before after =>
        rw [hres] at hi
        exact ⟨atInstant zone i, Option.map_eq_some_iff.mpr ⟨i, hi, rfl⟩, rfl⟩
  obtain ⟨hsame, hshown, -⟩ := isShown_of_ofLocal? hzone hs
  subst hinstant
  exact ⟨s, hs, hsame, hshown, hsecond, hnano⟩

theorem shownDay_eq_iff : z.shownDay = day ↔
    begins .day day ≤ z.wallClock.second ∧
      z.wallClock.second < begins .day day + secondsPerDay := by
  rw [← Zone.begins_day_succ]
  exact ordinal_eq_iff (show TimeUnit.day ≠ .epoch by decide)

/-- The midnight of a day in range is resolved. -/
theorem exists_isStartOf (hzone : zone.Orderly) (hday : zone.Reaches day) {t : DateTime}
    (hsecond : t.second = begins .day day) (hnano : t.nano = 0) :
    ∃ s, ofLocal? zone t = some s ∧ s.IsStartOf zone day := by
  have hreading : t.reading = ⟨begins .day day, 0⟩ := by rw [DateTime.reading, hsecond, hnano]
  obtain ⟨hfirst, hlast⟩ := hday _ (zone.compatible_mem_offsets ⟨begins .day day, 0⟩)
  obtain ⟨s, hs, hsame, hshown, hinstant, hfraction⟩ := exists_ofLocal? (t := t) hzone
    (by rw [hreading, hsecond]; omega)
  rw [hreading, hsecond] at hinstant
  exact ⟨s, hs, hsame, hshown, hinstant, hfraction.trans hnano⟩

namespace IsStartOf

variable (h : s.IsStartOf zone day) (hzone : zone.Orderly) (hday : zone.Reaches day)

include h

theorem offset_eq : s.offset = zone.offsetAt s.instant.reading := by
  rw [← h.zone_eq]
  exact h.isShown

include hzone hday

theorem begins_le_wallClock : begins .day day ≤ s.wallClock.second := by
  have hrange := hday.inRange
  rw [wallClock_second, h.offset_eq]
  exact hzone.le_shown (r := ⟨begins .day day, 0⟩) (u := s.instant.reading)
    (by simp only; omega) h.second

/-- Clocks that change by less than a day show the day at the instant that its midnight is resolved
to. -/
theorem shownDay_eq (hmoderate : zone.Moderate) : s.shownDay = day := by
  refine shownDay_eq_iff.mpr ⟨h.begins_le_wallClock hzone hday, ?_⟩
  rw [wallClock_second, h.offset_eq]
  exact hmoderate.shown_lt (r := ⟨begins .day day, 0⟩) (u := s.instant.reading) h.second

/-- What a midnight is resolved to is the first instant of the day unless the clocks skip the
midnight along with the second before it. -/
theorem isFirstOf_iff (hmoderate : zone.Moderate) :
    s.IsFirstOf zone day ↔ ¬zone.SkipsMidnight day := by
  have hrange := hday.inRange
  constructor
  · -- A second before the midnight is resolved, the clocks have moved forward already.
    rintro hfirst ⟨before, after, hprevious, hgap⟩
    have hbefore := zone.compatible_mem_offsets ⟨begins .day day, 0⟩
    have hstart := (hday _ hbefore).1
    have hsecond := h.second
    rw [hgap] at hbefore hstart hsecond
    simp only [Zone.Resolution.compatible] at hbefore hstart hsecond
    let i : Instant := ⟨s.instant.second - 1, 0, by have := s.instant.inRange; omega, by decide⟩
    obtain ⟨hafter, hahead⟩ := hzone.offsetAt_of_gap (u := i.reading) (by simp only; omega)
      hprevious (show s.instant.second - 1 = begins .day day - 1 - before.seconds by omega)
    have hless := hmoderate.offset_lt (zone.offsetAt_mem_offsets i.reading) hbefore
    have hshown : (atInstant zone i).wallClock.second = s.instant.second - 1 + after.seconds := by
      rw [← hafter]
      rfl
    rw [hafter] at hless
    have hlt : s.instant.second - 1 < s.instant.second := by omega
    refine hfirst.not_lt (atInstant zone i) rfl rfl ?_ (.inl hlt)
    rw [shownDay_eq_iff, hshown]
    omega
  · intro hskips
    refine ⟨h.zone_eq, h.isShown, h.shownDay_eq hzone hday hmoderate, ?_⟩
    intro e hsame hshown heday hlt
    have hearlier := second_lt_of_lt hlt h.nano
    rw [h.second] at hearlier
    have hless : e.instant.second + (zone.offsetAt e.instant.reading).seconds < begins .day day :=
      hzone.shown_lt (r := ⟨begins .day day, 0⟩) (u := e.instant.reading) (by simp only; omega)
        (fun before after hprevious hgap => hskips ⟨before, after, hprevious, hgap⟩) hearlier
    have hmidnight := (shownDay_eq_iff.mp heday).1
    rw [wallClock_second, hshown, hsame] at hmidnight
    omega

/-- A datetime of the day before comes before the instant that a midnight is resolved to, unless the
midnight is shown twice and was shown already. -/
theorem lt_iff (hz : z.IsShown) (hsame : z.zone = zone) (hbefore : z.shownDay < day) :
    z < s ↔ ¬∃ before after, zone.resolve ⟨begins .day day, 0⟩ = .fold before after ∧
      begins .day day - before.seconds ≤ z.instant.second := by
  have hrange := hday.inRange
  have hlt : z < s ↔ z.instant.second < s.instant.second :=
    ⟨fun hlt => second_lt_of_lt hlt h.nano, .inl⟩
  rw [hlt, h.second, ← Int.not_le, not_iff_not]
  constructor
  · intro hle
    have hearlier : z.wallClock.second < begins .day day :=
      (ordinal_lt_iff (show TimeUnit.day ≠ .epoch by decide)).mp hbefore
    have hmidnight := h.begins_le_wallClock hzone hday
    rw [← h.second] at hle
    rw [wallClock_second, hz, hsame] at hearlier
    rw [wallClock_second, h.offset_eq] at hmidnight
    have hne : s.instant.second ≠ z.instant.second := by
      intro heq
      have hsameOffset : zone.offsetAt s.instant.reading = zone.offsetAt z.instant.reading :=
        hzone.offsetAt_congr heq
      rw [hsameOffset] at hmidnight
      omega
    -- The clocks move back between the two instants, over the midnight.
    have hfold := hzone.resolve_of_back (r := ⟨begins .day day, 0⟩) (u := s.instant.reading)
      (v := z.instant.reading) (by simp only; omega)
      (show s.instant.second < z.instant.second by omega)
      (show z.instant.second + _ ≤ begins .day day by omega) hmidnight
    refine ⟨_, _, hfold, ?_⟩
    rw [h.second, hfold] at hle
    exact hle
  · rintro ⟨before, after, hfold, hle⟩
    rw [hfold]
    exact hle

end IsStartOf

/-- The midnights of a day and the next one are resolved in this order. -/
theorem IsStartOf.lt_next {next : Zoned} (h : s.IsStartOf zone day)
    (hnext : next.IsStartOf zone (day + 1)) (hmoderate : zone.Moderate) : s < next := by
  have hless := hmoderate.offset_lt
    (zone.compatible_mem_offsets ⟨begins .day (day + 1), 0⟩)
    (zone.compatible_mem_offsets ⟨begins .day day, 0⟩)
  have hsucc := Zone.begins_day_succ day
  left
  rw [h.second, hnext.second]
  omega

end Zoned

end Cadence

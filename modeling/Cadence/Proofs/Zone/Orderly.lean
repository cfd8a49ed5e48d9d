import Cadence.Proofs.Zone.Constant

/-!
# Zones whose clocks change well within the year

The rules of a zone are applied year by year, and a transition that a rule puts close to the turn
of a year is cut off there.  Zones with transitions that keep clear of the turn and of one another
are orderly (`Zone.Orderly`).  Their years have an inner season between the transitions and an outer
season around it (`HasSeasons.offsetAt_eq`, `HasSeasons.resolve_eq`), whichever of the two is
daylight time, and the two questions that a zone answers fit together: a wall clock time is resolved
by an offset exactly when the zone has the offset at the instant that this makes
(`Orderly.resolve_admits_iff`).
-/

namespace Cadence

open Civil

namespace Zone

/-! ## Days and transitions -/

namespace YearDay

/-- The number of days in every year before the earliest day that may be picked. -/
def earliest : YearDay → Int
  | unleaped n => n - 1
  | counted n => n
  | weekday month week _ =>
      daysBeforeMonth false month +
        if week = 5 then monthLength false month - 7 else 7 * (week - 1)

/-- The number of days in every year before the latest day that may be picked. -/
def latest : YearDay → Int
  | unleaped n => n
  | counted n => n
  | weekday month week _ =>
      daysBeforeMonth true month +
        if week = 5 then monthLength true month - 1 else 7 * (week - 1) + 6

theorem daysBeforeMonth_bounds (leap : Bool) (month : Int) :
    daysBeforeMonth false month ≤ daysBeforeMonth leap month ∧
      daysBeforeMonth leap month ≤ daysBeforeMonth true month := by
  unfold daysBeforeMonth
  cases leap <;> split <;> simp

theorem monthLength_leap_bounds (leap : Bool) (month : Int) :
    monthLength false month ≤ monthLength leap month ∧
      monthLength leap month ≤ monthLength true month := by
  unfold monthLength
  cases leap <;> split <;> simp

/-- A day that is not among the last of a leap year is picked in every year. -/
theorem exists_dayNumber (day : YearDay) (hlatest : day.latest < 365) (year : Int) :
    ∃ n, day.dayNumber? year = some n ∧ daysBeforeYear year + day.earliest ≤ n ∧
      n ≤ daysBeforeYear year + day.latest := by
  cases day with
  | unleaped n =>
      refine ⟨_, rfl, ?_, ?_⟩
      · simp only [earliest]
        split <;> omega
      · simp only [latest]
        split <;> omega
  | counted n =>
      simp only [latest] at hlatest
      have hn : n < if isLeapYear year then 366 else 365 := by
        split <;> omega
      refine ⟨daysBeforeYear year + n, if_pos hn, ?_, ?_⟩
      · exact Int.le_refl _
      · exact Int.le_refl _
  | weekday month week target =>
      obtain ⟨hmonth, hmonth'⟩ := daysBeforeMonth_bounds (isLeapYear year) month
      obtain ⟨hlength, hlength'⟩ := monthLength_leap_bounds (isLeapYear year) month
      have hfirst : (Date.mk year month 1).dayNumber =
          daysBeforeYear year + daysBeforeMonth (isLeapYear year) month := by
        simp only [Date.dayNumber, Date.dayOfYear]
        omega
      by_cases hweek : week = 5
      · simp only [dayNumber?, hweek, if_true, hfirst, Option.some.injEq, exists_eq_left',
          earliest, latest]
        omega
      · simp only [dayNumber?, hweek, if_false, hfirst, Option.some.injEq, exists_eq_left',
          earliest, latest]
        omega

end YearDay

namespace Transition

/-- The second at which a transition happens in a year, on the clock that it is stated for. -/
def secondIn (t : Transition) (year : Int) : Int :=
  (t.day.dayNumber? year).getD 0 * secondsPerDay + t.time

/-- The transition keeps a distance in seconds from both ends of every year. -/
def Inner (t : Transition) (margin : Int) : Prop :=
  margin ≤ t.day.earliest * secondsPerDay + t.time ∧
    t.day.latest * secondsPerDay + t.time + margin ≤ 365 * secondsPerDay ∧ t.day.latest < 365

instance (t : Transition) (margin : Int) : Decidable (t.Inner margin) :=
  inferInstanceAs (Decidable (_ ∧ _))

/-- The first transition comes before the second one in every year, by a distance in seconds. -/
def Precedes (t t' : Transition) (margin : Int) : Prop :=
  t.day.latest * secondsPerDay + t.time + margin ≤ t'.day.earliest * secondsPerDay + t'.time

instance (t t' : Transition) (margin : Int) : Decidable (t.Precedes t' margin) :=
  inferInstanceAs (Decidable (_ ≤ _))

variable {t t' : Transition} {margin : Int}

theorem Inner.secondIn_bounds (h : t.Inner margin) (year : Int) :
    begins .year year + (t.day.earliest * secondsPerDay + t.time) ≤ t.secondIn year ∧
      t.secondIn year ≤ begins .year year + (t.day.latest * secondsPerDay + t.time) := by
  obtain ⟨n, hn, hlow, hhigh⟩ := t.day.exists_dayNumber h.2.2 year
  simp only [secondIn, hn, Option.getD_some, begins, secondsPerDay]
  omega

theorem Inner.le_secondIn (h : t.Inner margin) (year : Int) :
    begins .year year + margin ≤ t.secondIn year := by
  have := (h.secondIn_bounds year).1
  have := h.1
  omega

theorem Inner.secondIn_le (h : t.Inner margin) (year : Int) :
    t.secondIn year + margin ≤ begins .year (year + 1) := by
  have hhigh := (h.secondIn_bounds year).2
  have hbefore := h.2.1
  have hnext := daysBeforeYear_succ year
  have hlength : (365 : Int) ≤ if isLeapYear year = true then 366 else 365 := by
    split <;> omega
  simp only [begins, secondsPerDay] at hhigh hbefore ⊢
  omega

theorem Precedes.secondIn_le (hprecedes : t.Precedes t' margin) (h : t.Inner margin)
    (h' : t'.Inner margin) (year : Int) : t.secondIn year + margin ≤ t'.secondIn year := by
  have hhigh := (h.secondIn_bounds year).2
  have hlow := (h'.secondIn_bounds year).1
  unfold Precedes at hprecedes
  omega

/-- A transition that keeps clear of the ends of the year is not cut off there. -/
theorem Inner.inYear_eq (h : t.Inner margin) (year : Int) {behind : Int}
    (hbehind : -margin < behind ∧ behind < margin) :
    t.inYear year behind = ⟨t.secondIn year - behind, 0⟩ := by
  obtain ⟨n, hn, -, -⟩ := t.day.exists_dayNumber h.2.2 year
  have hlow := h.le_secondIn year
  have hhigh := h.secondIn_le year
  have hsecond : t.secondIn year = n * secondsPerDay + t.time := by
    rw [secondIn, hn, Option.getD_some]
  rw [hsecond] at hlow hhigh ⊢
  simp only [inYear, hn]
  rw [if_neg, if_neg]
  · show ¬(_ < _ ∨ _)
    simp only [begins, yearEnd, secondsPerDay] at hhigh ⊢
    omega
  · show ¬(_ < _ ∨ _)
    simp only [begins, yearStart, secondsPerDay] at hlow ⊢
    omega

end Transition

/-! ## Seasons -/

/-- The seasons of a year.  The clocks have the inner offset between two transitions, the first of
which is stated for clocks of the outer offset and the second for clocks of the inner one. -/
structure Seasons where
  inner : Offset
  outer : Offset
  opens : Transition
  closes : Transition

/-- How far the inner clocks are ahead of the outer ones. -/
def Seasons.ahead (seasons : Seasons) : Int := seasons.inner.seconds - seasons.outer.seconds

/-- Four times the greater distance of the clocks from Universal Time. -/
def Seasons.margin (seasons : Seasons) : Int :=
  4 * max (max seasons.inner.seconds (-seasons.inner.seconds))
    (max seasons.outer.seconds (-seasons.outer.seconds))

/-- The transitions keep clear of the turn of the year and of one another. -/
structure Seasons.Orderly (seasons : Seasons) : Prop where
  opens : seasons.opens.Inner seasons.margin
  closes : seasons.closes.Inner seasons.margin
  precedes : seasons.opens.Precedes seasons.closes seasons.margin

instance (seasons : Seasons) : Decidable seasons.Orderly :=
  decidable_of_iff (seasons.opens.Inner seasons.margin ∧ seasons.closes.Inner seasons.margin ∧
    seasons.opens.Precedes seasons.closes seasons.margin)
    ⟨fun ⟨h₁, h₂, h₃⟩ => ⟨h₁, h₂, h₃⟩, fun ⟨h₁, h₂, h₃⟩ => ⟨h₁, h₂, h₃⟩⟩

end Zone

/-- Daylight time as the inner season, as north of the equator. -/
def Daylight.northern (standard : Offset) (daylight : Daylight) : Zone.Seasons :=
  ⟨daylight.offset, standard, daylight.starts, daylight.ends⟩

/-- Standard time as the inner season, as south of the equator. -/
def Daylight.southern (standard : Offset) (daylight : Daylight) : Zone.Seasons :=
  ⟨standard, daylight.offset, daylight.ends, daylight.starts⟩

namespace Zone

/-- The clocks of a zone change with orderly seasons, of which either one is daylight time. -/
structure HasSeasons (zone : Zone) (seasons : Seasons) : Prop where
  orderly : seasons.Orderly
  ne : seasons.inner.seconds ≠ seasons.outer.seconds
  clocks :
    (zone.standard = seasons.outer ∧
      zone.daylight? = some ⟨seasons.inner, seasons.opens, seasons.closes⟩) ∨
    (zone.standard = seasons.inner ∧
      zone.daylight? = some ⟨seasons.outer, seasons.closes, seasons.opens⟩)

/-- The clocks of a zone never change, or change with orderly seasons. -/
def Orderly (zone : Zone) : Prop :=
  ∀ daylight ∈ zone.daylight?, daylight.offset = zone.standard ∨
    (daylight.northern zone.standard).Orderly ∨ (daylight.southern zone.standard).Orderly

instance (zone : Zone) : Decidable zone.Orderly :=
  inferInstanceAs (Decidable (∀ daylight ∈ zone.daylight?, _))

theorem Orderly.cases {zone : Zone} (h : zone.Orderly) :
    zone.Constant zone.standard ∨ ∃ seasons, zone.HasSeasons seasons := by
  cases hdaylight : zone.daylight? with
  | none => exact Or.inl (constant_of_daylight_none hdaylight)
  | some daylight =>
      by_cases heq : daylight.offset = zone.standard
      · exact Or.inl (constant_of_daylight_eq hdaylight heq)
      · right
        rcases h daylight hdaylight with hsame | hnorth | hsouth
        · exact absurd hsame heq
        · refine ⟨_, hnorth, ?_, Or.inl ⟨rfl, hdaylight⟩⟩
          exact fun hsame => heq (Offset.eq_of_seconds hsame)
        · refine ⟨_, hsouth, ?_, Or.inr ⟨rfl, hdaylight⟩⟩
          exact fun hsame => heq (Offset.eq_of_seconds hsame.symm)

/-- Five hours behind, four from the second Sunday of March to the first one of November. -/
def newYork : Zone :=
  ⟨none, ⟨-18000, by decide⟩,
    some ⟨⟨-14400, by decide⟩, ⟨.weekday 3 2 0, 7200⟩, ⟨.weekday 11 1 0, 7200⟩⟩⟩

example : newYork.Orderly := by decide

/-! ## Stretches between whole seconds -/

theorem Reading.le_iff {a : Int} {r : Reading} : Reading.mk a 0 ≤ r ↔ a ≤ r.second := by
  show ¬(r.second < a ∨ (r.second = a ∧ r.nano < 0)) ↔ a ≤ r.second
  omega

theorem Reading.lt_iff {b : Int} {r : Reading} : r < Reading.mk b 0 ↔ r.second < b := by
  show r.second < b ∨ (r.second = b ∧ r.nano < 0) ↔ r.second < b
  omega

theorem Reading.addSeconds_eq {a seconds : Int}
    (h : firstSecond ≤ a + seconds ∧ a + seconds ≤ lastSecond) :
    (Reading.mk a 0).addSeconds seconds = ⟨a + seconds, 0⟩ := by
  unfold Reading.addSeconds
  rw [if_neg (by simp only; omega), if_neg (by simp only; omega)]

theorem Reading.year_eq (r : Reading) : r.year = ordinal .year r.second := rfl

theorem Stretch.contains_of_le {a b : Int} (h : a ≤ b) (r : Reading) :
    (Stretch.mk ⟨a, 0⟩ ⟨b, 0⟩).contains r = decide (a ≤ r.second ∧ r.second < b) := by
  simp [Stretch.contains, Reading.le_iff, Reading.lt_iff, h]

theorem Stretch.contains_of_lt {a b : Int} (h : b < a) (r : Reading) :
    (Stretch.mk ⟨a, 0⟩ ⟨b, 0⟩).contains r = !decide (b ≤ r.second ∧ r.second < a) := by
  have hlt : ¬a ≤ b := by omega
  simp [Stretch.contains, Reading.le_iff, Reading.lt_iff, hlt]

theorem civil_year {s : Int} (hs : firstSecond ≤ s ∧ s ≤ lastSecond) :
    firstSecond ≤ begins .year (ordinal .year s) ∧
      begins .year (ordinal .year s + 1) ≤ lastSecond + 1 := by
  refine ⟨firstSecond_le_startOf (by decide) hs.1, ?_⟩
  have hlast : ordinal .year lastSecond = 9999 := by decide +kernel
  have hyear := ordinal_mono .year hs.2
  have hend : begins .year (9999 + 1) = lastSecond + 1 := by decide +kernel
  rw [← hend]
  apply begins_le_begins (by decide)
  omega

/-! ## The two questions -/

section Stretches

variable {standard offset : Offset} {starts ends : Transition} {margin : Int}

theorem daylightUtc_eq (hstarts : starts.Inner margin) (hends : ends.Inner margin)
    (hstandard : -margin < standard.seconds ∧ standard.seconds < margin)
    (hdaylight : -margin < offset.seconds ∧ offset.seconds < margin) (year : Int) :
    daylightUtc standard ⟨offset, starts, ends⟩ year =
      ⟨⟨starts.secondIn year - standard.seconds, 0⟩,
        ⟨ends.secondIn year - offset.seconds, 0⟩⟩ := by
  have hafter := hstarts.le_secondIn year
  have hne : Reading.mk (starts.secondIn year - standard.seconds) 0 ≠
      Transition.yearStart year := by
    intro heq
    have hsecond := congrArg Reading.second heq
    simp only [Transition.yearStart, begins, secondsPerDay] at hsecond hafter
    omega
  simp only [daylightUtc, hstarts.inYear_eq year hstandard, hends.inYear_eq year hdaylight, hne,
    decide_false, Bool.false_and, Bool.false_eq_true, if_false]

theorem daylightWall_eq (hstarts : starts.Inner margin) (hends : ends.Inner margin)
    (hmargin : 0 < margin) (year : Int) :
    daylightWall ⟨offset, starts, ends⟩ year =
      ⟨⟨starts.secondIn year, 0⟩, ⟨ends.secondIn year, 0⟩⟩ := by
  have hnone : -margin < 0 ∧ 0 < margin := by omega
  have hstart := hstarts.inYear_eq year hnone
  have hstop := hends.inYear_eq year hnone
  rw [Int.sub_zero] at hstart hstop
  rw [daylightWall, hstart, hstop]

theorem resolveAhead_eq {a b : Int} {r : Reading}
    (ha : firstSecond ≤ a + (offset.seconds - standard.seconds) ∧
      a + (offset.seconds - standard.seconds) ≤ lastSecond)
    (hb : firstSecond ≤ b + -(offset.seconds - standard.seconds) ∧
      b + -(offset.seconds - standard.seconds) ≤ lastSecond) :
    resolveAhead standard ⟨offset, starts, ends⟩ ⟨⟨a, 0⟩, ⟨b, 0⟩⟩ r =
      if (Stretch.mk ⟨a, 0⟩ ⟨b, 0⟩).contains r = false then .unique standard
      else if a ≤ r.second ∧ r.second < a + (offset.seconds - standard.seconds) then
        .gap standard offset
      else if b + -(offset.seconds - standard.seconds) ≤ r.second ∧ r.second < b then
        .fold offset standard
      else .unique offset := by
  simp only [resolveAhead, Reading.addSeconds_eq ha, Reading.addSeconds_eq hb, Reading.le_iff,
    Reading.lt_iff, Bool.and_eq_true, decide_eq_true_eq, Bool.not_eq_true']

theorem resolveBehind_eq {a b : Int} {r : Reading}
    (ha : firstSecond ≤ a + -(standard.seconds - offset.seconds) ∧
      a + -(standard.seconds - offset.seconds) ≤ lastSecond)
    (hb : firstSecond ≤ b + (standard.seconds - offset.seconds) ∧
      b + (standard.seconds - offset.seconds) ≤ lastSecond) :
    resolveBehind standard ⟨offset, starts, ends⟩ ⟨⟨a, 0⟩, ⟨b, 0⟩⟩ r =
      if (Stretch.mk ⟨a, 0⟩ ⟨b, 0⟩).contains r = true then .unique offset
      else if a + -(standard.seconds - offset.seconds) ≤ r.second ∧ r.second < a then
        .fold standard offset
      else if b ≤ r.second ∧ r.second < b + (standard.seconds - offset.seconds) then
        .gap offset standard
      else .unique standard := by
  simp only [resolveBehind, Reading.addSeconds_eq ha, Reading.addSeconds_eq hb, Reading.le_iff,
    Reading.lt_iff, Bool.and_eq_true, decide_eq_true_eq]

end Stretches

/-- The turn of the year and the transitions follow one another at some distance. -/
theorem Seasons.Orderly.bounds {seasons : Seasons} (h : seasons.Orderly) (year : Int) :
    begins .year year + seasons.margin ≤ seasons.opens.secondIn year ∧
      seasons.opens.secondIn year + seasons.margin ≤ seasons.closes.secondIn year ∧
      seasons.closes.secondIn year + seasons.margin ≤ begins .year (year + 1) :=
  ⟨h.opens.le_secondIn year, h.precedes.secondIn_le h.opens h.closes year,
    h.closes.secondIn_le year⟩

namespace HasSeasons

variable {zone : Zone} {seasons : Seasons}

theorem inner_ne_outer (h : zone.HasSeasons seasons) : seasons.inner ≠ seasons.outer :=
  fun heq => h.ne (congrArg Offset.seconds heq)

theorem margin_bounds (h : zone.HasSeasons seasons) : 0 < seasons.margin ∧
    4 * seasons.inner.seconds ≤ seasons.margin ∧ -seasons.margin ≤ 4 * seasons.inner.seconds ∧
    4 * seasons.outer.seconds ≤ seasons.margin ∧ -seasons.margin ≤ 4 * seasons.outer.seconds := by
  have hne := h.ne
  unfold Seasons.margin
  omega

/-- The zone has the inner offset exactly between the instants of the transitions. -/
theorem offsetAt_eq (h : zone.HasSeasons seasons) (u : Reading) :
    zone.offsetAt u =
      if seasons.opens.secondIn u.year - seasons.outer.seconds ≤ u.second ∧
          u.second < seasons.closes.secondIn u.year - seasons.inner.seconds
      then seasons.inner else seasons.outer := by
  have hmargin := h.margin_bounds
  have hbounds := h.orderly.bounds u.year
  rcases h.clocks with ⟨hstandard, hdaylight⟩ | ⟨hstandard, hdaylight⟩
  · simp only [offsetAt, hdaylight, hstandard]
    rw [daylightUtc_eq h.orderly.opens h.orderly.closes (by omega) (by omega),
      Stretch.contains_of_le (by omega)]
    simp only [decide_eq_true_eq]
  · simp only [offsetAt, hdaylight, hstandard]
    rw [daylightUtc_eq h.orderly.closes h.orderly.opens (by omega) (by omega),
      Stretch.contains_of_lt (by omega)]
    simp only [Bool.not_eq_true', decide_eq_false_iff_not, ite_not]

/-- Times at a transition are skipped if the clocks move forward there, and shown twice if they
move back.  All others are shown once. -/
theorem resolve_eq (h : zone.HasSeasons seasons) {r : Reading}
    (hr : firstSecond ≤ r.second ∧ r.second ≤ lastSecond) :
    zone.resolve r =
      if seasons.opens.secondIn r.year ≤ r.second ∧
          r.second < seasons.opens.secondIn r.year + seasons.ahead then
        .gap seasons.outer seasons.inner
      else if seasons.closes.secondIn r.year - seasons.ahead ≤ r.second ∧
          r.second < seasons.closes.secondIn r.year then
        .fold seasons.inner seasons.outer
      else if seasons.opens.secondIn r.year + seasons.ahead ≤ r.second ∧
          r.second < seasons.opens.secondIn r.year then
        .fold seasons.outer seasons.inner
      else if seasons.closes.secondIn r.year ≤ r.second ∧
          r.second < seasons.closes.secondIn r.year - seasons.ahead then
        .gap seasons.inner seasons.outer
      else if seasons.opens.secondIn r.year ≤ r.second ∧
          r.second < seasons.closes.secondIn r.year then
        .unique seasons.inner
      else .unique seasons.outer := by
  have hne := h.ne
  have hmargin := h.margin_bounds
  have hbounds := h.orderly.bounds r.year
  have hyear := civil_year hr
  rw [← Reading.year_eq] at hyear
  unfold Seasons.ahead
  -- Either season may be daylight time, and either one may be ahead of the other.
  rcases h.clocks with ⟨hstandard, hdaylight⟩ | ⟨hstandard, hdaylight⟩
  · simp only [resolve, hdaylight, hstandard, if_neg hne]
    rw [daylightWall_eq h.orderly.opens h.orderly.closes (by omega)]
    by_cases hforward : seasons.outer.seconds < seasons.inner.seconds
    · rw [if_pos hforward, resolveAhead_eq (by omega) (by omega),
        Stretch.contains_of_le (by omega)]
      simp only [decide_eq_false_iff_not]
      split_ifs <;> first | rfl | omega
    · rw [if_neg hforward, resolveBehind_eq (by omega) (by omega),
        Stretch.contains_of_le (by omega)]
      simp only [decide_eq_true_eq]
      split_ifs <;> first | rfl | omega
  · simp only [resolve, hdaylight, hstandard, if_neg hne.symm]
    rw [daylightWall_eq h.orderly.closes h.orderly.opens (by omega)]
    by_cases hforward : seasons.inner.seconds < seasons.outer.seconds
    · rw [if_pos hforward, resolveAhead_eq (by omega) (by omega),
        Stretch.contains_of_lt (by omega)]
      simp only [Bool.not_eq_false', decide_eq_true_eq]
      split_ifs <;> first | rfl | omega
    · rw [if_neg hforward, resolveBehind_eq (by omega) (by omega),
        Stretch.contains_of_lt (by omega)]
      simp only [Bool.not_eq_true', decide_eq_false_iff_not]
      split_ifs <;> first | rfl | omega

section Admits

variable {r u : Reading}

theorem admits_inner_iff (h : zone.HasSeasons seasons)
    (hr : firstSecond ≤ r.second ∧ r.second ≤ lastSecond) :
    (zone.resolve r).admits seasons.inner = true ↔
      seasons.opens.secondIn r.year + seasons.ahead ≤ r.second ∧
        r.second < seasons.closes.secondIn r.year := by
  have hne := h.inner_ne_outer
  have hmargin := h.margin_bounds
  have hbounds := h.orderly.bounds r.year
  have hahead : seasons.ahead = seasons.inner.seconds - seasons.outer.seconds := rfl
  rw [h.resolve_eq hr]
  split_ifs <;> simp [Resolution.admits, hne] <;> omega

theorem admits_outer_iff (h : zone.HasSeasons seasons)
    (hr : firstSecond ≤ r.second ∧ r.second ≤ lastSecond) :
    (zone.resolve r).admits seasons.outer = true ↔
      r.second < seasons.opens.secondIn r.year ∨
        seasons.closes.secondIn r.year - seasons.ahead ≤ r.second := by
  have hne := h.inner_ne_outer.symm
  have hmargin := h.margin_bounds
  have hbounds := h.orderly.bounds r.year
  have hahead : seasons.ahead = seasons.inner.seconds - seasons.outer.seconds := rfl
  rw [h.resolve_eq hr]
  split_ifs <;> simp [Resolution.admits, hne] <;> omega

theorem admits_cases (h : zone.HasSeasons seasons)
    (hr : firstSecond ≤ r.second ∧ r.second ≤ lastSecond) {offset : Offset}
    (hadmits : (zone.resolve r).admits offset = true) :
    offset = seasons.inner ∨ offset = seasons.outer := by
  rw [h.resolve_eq hr] at hadmits
  split_ifs at hadmits <;> simp [Resolution.admits] at hadmits
  · exact hadmits
  · exact hadmits.symm
  · exact Or.inl hadmits
  · exact Or.inr hadmits

theorem offsetAt_inner_iff (h : zone.HasSeasons seasons) :
    zone.offsetAt u = seasons.inner ↔
      seasons.opens.secondIn u.year - seasons.outer.seconds ≤ u.second ∧
        u.second < seasons.closes.secondIn u.year - seasons.inner.seconds := by
  have hne := h.inner_ne_outer.symm
  rw [h.offsetAt_eq]
  split_ifs with hinner
  · exact iff_of_true rfl hinner
  · exact iff_of_false hne hinner

theorem offsetAt_outer_iff (h : zone.HasSeasons seasons) :
    zone.offsetAt u = seasons.outer ↔
      ¬(seasons.opens.secondIn u.year - seasons.outer.seconds ≤ u.second ∧
        u.second < seasons.closes.secondIn u.year - seasons.inner.seconds) := by
  have hne := h.inner_ne_outer
  rw [h.offsetAt_eq]
  split_ifs with hinner
  · exact iff_of_false hne (not_not.mpr hinner)
  · exact iff_of_true rfl hinner

theorem year_bounds (r : Reading) :
    begins .year r.year ≤ r.second ∧ r.second < begins .year (r.year + 1) :=
  startOf_bounds (by decide) r.second

/-- Where an instant and the time shown lie in different years, both are in the outer season. -/
theorem year_eq_or_outer (h : zone.HasSeasons seasons)
    (hnear : 4 * (r.second - u.second) ≤ seasons.margin ∧
      -seasons.margin ≤ 4 * (r.second - u.second)) :
    u.year = r.year ∨
      ((r.second < seasons.opens.secondIn r.year + seasons.ahead ∧
          r.second < seasons.opens.secondIn r.year ∨
        seasons.closes.secondIn r.year - seasons.ahead ≤ r.second ∧
          seasons.closes.secondIn r.year ≤ r.second) ∧
      (u.second < seasons.opens.secondIn u.year - seasons.outer.seconds ∨
        seasons.closes.secondIn u.year - seasons.inner.seconds ≤ u.second)) := by
  have hmargin := h.margin_bounds
  have hahead : seasons.ahead = seasons.inner.seconds - seasons.outer.seconds := rfl
  have hr := year_bounds r
  have hu := year_bounds u
  have hbounds := h.orderly.bounds r.year
  have hbounds' := h.orderly.bounds u.year
  have hyear : TimeUnit.year ≠ .epoch := by decide
  rcases Int.lt_trichotomy u.year r.year with hlt | heq | hgt
  · have hturn := begins_le_begins hyear (show u.year + 1 ≤ r.year from hlt)
    omega
  · exact Or.inl heq
  · have hturn := begins_le_begins hyear (show r.year + 1 ≤ u.year from hgt)
    omega

/-- A wall clock time is resolved by an offset exactly if the zone has it at the instant. -/
theorem resolve_admits_iff (h : zone.HasSeasons seasons)
    (hr : firstSecond ≤ r.second ∧ r.second ≤ lastSecond) {offset : Offset}
    (hu : u.second = r.second - offset.seconds) :
    (zone.resolve r).admits offset = true ↔ zone.offsetAt u = offset := by
  by_cases hcases : offset = seasons.inner ∨ offset = seasons.outer
  · have hmargin := h.margin_bounds
    have hahead : seasons.ahead = seasons.inner.seconds - seasons.outer.seconds := rfl
    have hyears := h.year_eq_or_outer (r := r) (u := u) (by rcases hcases with rfl | rfl <;> omega)
    rcases hcases with rfl | rfl
    · rw [h.admits_inner_iff hr, h.offsetAt_inner_iff]
      rcases hyears with heq | hturn
      · rw [heq]
        omega
      · omega
    · rw [h.admits_outer_iff hr, h.offsetAt_outer_iff]
      rcases hyears with heq | hturn
      · rw [heq]
        omega
      · omega
  · refine iff_of_false (fun hadmits => hcases (h.admits_cases hr hadmits)) ?_
    rintro rfl
    apply hcases
    rw [h.offsetAt_eq]
    split_ifs
    · exact Or.inl rfl
    · exact Or.inr rfl

end Admits

end HasSeasons

/-- In an orderly zone a wall clock time is resolved by an offset exactly if the zone has the offset
at the instant that this makes. -/
theorem Orderly.resolve_admits_iff {zone : Zone} (h : zone.Orderly) {r u : Reading}
    (hr : firstSecond ≤ r.second ∧ r.second ≤ lastSecond) {offset : Offset}
    (hu : u.second = r.second - offset.seconds) :
    (zone.resolve r).admits offset = true ↔ zone.offsetAt u = offset := by
  rcases h.cases with hconstant | ⟨seasons, hseasons⟩
  · simp [hconstant.resolve, hconstant.offsetAt, Resolution.admits, eq_comm]
  · exact hseasons.resolve_admits_iff hr hu

/-- The offset of an orderly zone does not change within a second. -/
theorem Orderly.offsetAt_congr {zone : Zone} (h : zone.Orderly) {u u' : Reading}
    (hsecond : u.second = u'.second) : zone.offsetAt u = zone.offsetAt u' := by
  rcases h.cases with hconstant | ⟨seasons, hseasons⟩
  · rw [hconstant.offsetAt, hconstant.offsetAt]
  · rw [hseasons.offsetAt_eq, hseasons.offsetAt_eq, Reading.year_eq, Reading.year_eq, hsecond]

end Zone

end Cadence

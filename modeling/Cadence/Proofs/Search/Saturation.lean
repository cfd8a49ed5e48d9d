import Cadence.Proofs.Civil.Words
import Cadence.Proofs.Search.Reset

/-!
# Saturation never shows

A search subtracts 64-bit integers, and a difference that does not fit is replaced by the nearest
one that does.  The only use of a difference is to shift a date by it, and every calendar refuses a
shift beyond the limit of its unit, which is far below the bounds of 64 bits.  So what is replaced is
refused, and so is what replaces it (`Search.shift_saturatingDifference`).

A search sees how it subtracts only through shifts (`Search.next_subtracting`, with one lemma for
each part that subtracts or calls one that does).  Hence searching with exact differences takes the
same steps and ends alike.
-/

namespace Cadence

/-- Calendars that refuse every shift beyond the limit of its unit. -/
class LimitedCalendar (δ : Type) [Calendar δ] : Prop where
  shift_beyond (date : δ) (unit : TimeUnit) (k : Int)
    (h : Civil.withinShiftLimit unit k = false) :
    Calendar.shift date unit k =
      .error (if unit = .epoch then .unsupported unit unit else .outOfRange)

instance : LimitedCalendar Civil.DateTime where
  shift_beyond t unit k h := by
    show t.shift unit k = _
    by_cases hepoch : unit = .epoch
    · rw [Civil.DateTime.shift, if_pos hepoch, if_pos hepoch]
    · simp only [Civil.DateTime.shift, hepoch, h, if_false, Bool.false_eq_true]

instance : LimitedCalendar Zoned where
  shift_beyond z unit k h := by
    show z.shift unit k = _
    by_cases hepoch : unit = .epoch
    · rw [Zoned.shift, if_pos hepoch, if_pos hepoch]
    · simp only [Zoned.shift, hepoch, h, if_false, Bool.false_eq_true]

namespace Search

variable {δ : Type} [Calendar δ]

/-- Shifting by a difference that was replaced fails like shifting by the difference itself. -/
theorem shift_saturatingDifference [LimitedCalendar δ] (date : δ) (unit : TimeUnit) (a b : Int) :
    Calendar.shift date unit (saturatingDifference a b) = Calendar.shift date unit (a - b) := by
  cases h : Civil.withinShiftLimit unit (a - b) with
  | true => rw [saturatingDifference_eq h]
  | false =>
      have hreplaced := (withinShiftLimit_saturatingDifference unit a b).trans h
      rw [LimitedCalendar.shift_beyond date unit _ h,
        LimitedCalendar.shift_beyond date unit _ hreplaced]

/-- The same search with another way to subtract. -/
def subtracting (s : Search) (difference : Int → Int → Int) : Search := { s with difference }

/-! ## What depends on differences -/

section Subtracting

variable {s : Search} {difference : Int → Int → Int}
  (h : ∀ (date : δ) (unit : TimeUnit) (a b : Int),
    Calendar.shift date unit (difference a b) = Calendar.shift date unit (s.difference a b))

include h

theorem reset_subtracting (date : δ) (unit scope : TimeUnit) (value : Int) :
    (s.subtracting difference).reset date unit scope value = s.reset date unit scope value := by
  simp only [reset, subtracting, h]

theorem resetDefault_subtracting (limit : TimeUnit) :
    (s.subtracting difference).resetDefault limit = s.resetDefault (δ := δ) limit := by
  funext date unit
  simp only [resetDefault, reset_subtracting h]

theorem resetBelow_subtracting (date : δ) (unit limit : TimeUnit) :
    (s.subtracting difference).resetBelow date unit limit = s.resetBelow date unit limit := by
  simp only [resetBelow, resetDefault_subtracting h]

theorem resetBetween_subtracting (date : δ) (parent unit : TimeUnit) :
    (s.subtracting difference).resetBetween date parent unit = s.resetBetween date parent unit := by
  simp only [resetBetween, resetDefault_subtracting h]
  rfl

theorem enter_subtracting (date : δ) (unit scope parent : TimeUnit) (target : Int) :
    (s.subtracting difference).enter date unit scope parent target =
      s.enter date unit scope parent target := by
  simp only [enter, reset_subtracting h, resetBelow_subtracting h]
  simp only [subtracting, h]

theorem carry_subtracting (date : δ) (unit scope : TimeUnit) (target : Int) :
    (s.subtracting difference).carry date unit scope target = s.carry date unit scope target := by
  simp only [carry, resetBetween_subtracting h, enter_subtracting h]
  rfl

theorem fix_subtracting (date : δ) (unit scope : TimeUnit) (target : Int) :
    (s.subtracting difference).fix date unit scope target = s.fix date unit scope target := by
  simp only [fix, resetBelow_subtracting h, carry_subtracting h]
  simp only [subtracting, h]

theorem visit_subtracting : (s.subtracting difference).visit (δ := δ) = s.visit := by
  funext date rule
  simp only [visit, fix_subtracting h, resetBelow_subtracting h]
  rfl

omit h in
theorem violation_subtracting (date : δ) :
    (s.subtracting difference).violation date = s.violation date := by
  show (s.subtracting difference).violationIn date s.rules.toList =
    s.violationIn date s.rules.toList
  induction s.rules.toList with
  | nil => rfl
  | cons rule rest ih =>
      rw [violationIn, violationIn, ih]
      rfl

theorem settle_subtracting (reference : δ) (remaining : Nat) (failing : TimeUnit) (date : δ) :
    (s.subtracting difference).settle reference remaining failing date =
      s.settle reference remaining failing date := by
  induction remaining generalizing failing date with
  | zero => rfl
  | succ remaining ih =>
      simp only [settle, pass, visit_subtracting h, violation_subtracting, ih]
      rfl

/-- Searches that subtract in ways that no shift tells apart take the same steps. -/
theorem next_subtracting (reference : δ) :
    (s.subtracting difference).next reference = s.next reference := by
  simp only [next, settle_subtracting h]
  rfl

end Subtracting

end Search

namespace Frequency

/-- The search for matches of a frequency with integers that have no bounds. -/
def exactSearch (f : Frequency) : Search := f.search.subtracting fun a b => a - b

theorem exactSearch_next {δ : Type} [Calendar δ] [LimitedCalendar δ] (f : Frequency)
    (reference : δ) : f.exactSearch.next reference = f.nextLogged reference :=
  Search.next_subtracting
    (fun date unit a b => (Search.shift_saturatingDifference date unit a b).symm) reference

/-- On the civil calendar and in every `Zone`, a search takes the same steps and ends alike whether
it subtracts 64-bit integers or integers without bounds, and no number on the way to a reading needs
more than 64 bits. -/
theorem nextLogged_exact (f : Frequency) :
    (∀ reference : Civil.DateTime, f.exactSearch.next reference = f.nextLogged reference) ∧
    (∀ reference : Zoned, f.exactSearch.next reference = f.nextLogged reference) ∧
    (∀ (t : Civil.DateTime) (unit scope : TimeUnit),
      t.readInWords unit scope = some (Calendar.read t unit scope)) ∧
    ∀ (z : Zoned) (unit scope : TimeUnit),
      z.wallClock.readInWords unit scope = some (Calendar.read z unit scope) :=
  ⟨f.exactSearch_next, f.exactSearch_next, fun t => t.readInWords_eq,
    fun z => z.wallClock.readInWords_eq⟩

end Frequency

end Cadence

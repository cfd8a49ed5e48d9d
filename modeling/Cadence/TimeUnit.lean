/-!
# Calendar units

The granularities a rule may constrain, ordered from coarsest to finest, and the scopes within
which the value of each of them can be measured.  `epoch` is only ever a scope: it is coarser
than every other unit and has no legal scope of its own.
-/

namespace Cadence

/-- A calendar granularity.  The constructors are listed from coarsest to finest. -/
inductive TimeUnit
  | epoch
  | year
  | month
  | week
  | day
  | hour
  | minute
  | second
deriving DecidableEq, Inhabited

namespace TimeUnit

/-- The position of a unit, counted from the coarsest. -/
def rank : TimeUnit → Nat
  | epoch => 0
  | year => 1
  | month => 2
  | week => 3
  | day => 4
  | hour => 5
  | minute => 6
  | second => 7

/-- Coarser units are smaller. -/
instance : LT TimeUnit := ⟨fun a b => a.rank < b.rank⟩

instance : LE TimeUnit := ⟨fun a b => a.rank ≤ b.rank⟩

instance (a b : TimeUnit) : Decidable (a < b) := inferInstanceAs (Decidable (a.rank < b.rank))

instance (a b : TimeUnit) : Decidable (a ≤ b) := inferInstanceAs (Decidable (a.rank ≤ b.rank))

theorem lt_def {a b : TimeUnit} : a < b ↔ a.rank < b.rank := Iff.rfl

theorem le_def {a b : TimeUnit} : a ≤ b ↔ a.rank ≤ b.rank := Iff.rfl

theorem rank_injective {a b : TimeUnit} (h : a.rank = b.rank) : a = b := by
  cases a <;> cases b <;> simp_all [rank]

/-- The finer of two units. -/
def finer (a b : TimeUnit) : TimeUnit := if a ≤ b then b else a

/-- Every unit, coarsest first. -/
def all : List TimeUnit := [epoch, year, month, week, day, hour, minute, second]

theorem mem_all (u : TimeUnit) : u ∈ all := by cases u <;> decide

/-- The units that may carry rules, coarsest first. -/
def constrainable : List TimeUnit := [year, month, week, day, hour, minute, second]

/-- The single letter a unit is abbreviated to.  Months and minutes differ by case. -/
def code : TimeUnit → Char
  | epoch => 'E'
  | year => 'Y'
  | month => 'M'
  | week => 'W'
  | day => 'D'
  | hour => 'h'
  | minute => 'm'
  | second => 's'

/-- The long name of a unit. -/
def name : TimeUnit → String
  | epoch => "epoch"
  | year => "year"
  | month => "month"
  | week => "week"
  | day => "day"
  | hour => "hour"
  | minute => "minute"
  | second => "second"

/-- The scopes within which a unit may be measured, the usual one first. -/
def legalScopes : TimeUnit → List TimeUnit
  | epoch => []
  | year => [epoch]
  | month => [year, epoch]
  | week => [year, month, epoch]
  | day => [month, year, week, epoch]
  | hour => [day, week, month, year, epoch]
  | minute => [hour, day, week, month, year, epoch]
  | second => [minute, hour, day, week, month, year, epoch]

/-- The scope meant when none is given. -/
def defaultScope (u : TimeUnit) : TimeUnit := u.legalScopes.headD epoch

/-- Whether `u` may be measured within `scope`. -/
def isLegalScope (u scope : TimeUnit) : Bool := u.legalScopes.contains scope

/-- A missing or illegal scope becomes the default one. -/
def normalizeScope (u : TimeUnit) : Option TimeUnit → TimeUnit
  | some scope => if u.isLegalScope scope then scope else u.defaultScope
  | none => u.defaultScope

/-- The position of `scope` among the legal scopes of `u`; illegal scopes come last. -/
def scopeRank (u scope : TimeUnit) : Nat := u.legalScopes.idxOf scope

/-- The units strictly finer than `u`, coarsest first. -/
def finerUnits (u : TimeUnit) : List TimeUnit := all.filter (u < ·)

/-- The constrainable units strictly coarser than `u`, coarsest first. -/
def coarserUnits (u : TimeUnit) : List TimeUnit := constrainable.filter (· < u)

/-- The units strictly between `coarse` and `fine`, coarsest first. -/
def between (coarse fine : TimeUnit) : List TimeUnit :=
  all.filter fun u => coarse < u && u < fine

/-- The value a unit starts from within its default scope.  Years and weeks have none: where
they begin depends on the year. -/
def resetValue : TimeUnit → Option Int
  | month | day => some 1
  | hour | minute | second => some 0
  | epoch | year | week => none

/-- Whether a unit divides the day. -/
def isTime : TimeUnit → Bool
  | hour | minute | second => true
  | _ => false

theorem legal_coarser {u scope : TimeUnit} (h : u.isLegalScope scope = true) : scope < u := by
  cases u <;> cases scope <;> revert h <;> decide

theorem defaultScope_legal {u : TimeUnit} (h : u ≠ epoch) :
    u.isLegalScope u.defaultScope = true := by
  cases u <;> simp_all [isLegalScope, defaultScope, legalScopes]

theorem normalizeScope_legal {u : TimeUnit} (h : u ≠ epoch) (scope : Option TimeUnit) :
    u.isLegalScope (u.normalizeScope scope) = true := by
  cases scope with
  | none => exact defaultScope_legal h
  | some s =>
      simp only [normalizeScope]
      split
      · assumption
      · exact defaultScope_legal h

theorem normalizeScope_of_legal {u scope : TimeUnit} (h : u.isLegalScope scope = true) :
    u.normalizeScope (some scope) = scope := by
  simp [normalizeScope, h]

end TimeUnit

end Cadence

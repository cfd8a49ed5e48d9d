import Cadence.Civil.Date
import Cadence.Civil.DateTime

/-!
# Predicates

Named tests that a rule may require instead of a number.  A predicate sees the value of the rule's
unit and the wall clock time at which it was measured.  A registry maps names to predicates and
keeps the names in order.
-/

namespace Cadence

/-- A test of a value that was measured at a wall clock time. -/
abbrev Predicate := Int → Civil.DateTime → Bool

namespace Predicate

/-- Accepts odd values. -/
def odd : Predicate := fun value _ => value % 2 = 1

/-- Accepts even values. -/
def even : Predicate := fun value _ => value % 2 = 0

/-- Accepts leap years.  It is meant for rules on years. -/
def leapYear : Predicate := fun value _ => Civil.isLeapYear value

/-- Accepts Saturday and Sunday.  It is meant for rules on days within a week. -/
def weekend : Predicate := fun value _ => value = 6 || value = 7

/-- The predicate pays no attention to the wall clock time. -/
def DependsOnValue (p : Predicate) : Prop := ∀ value a b, p value a = p value b

/-- The predicate pays no attention to fractions of a second. -/
def IgnoresFractions (p : Predicate) : Prop := ∀ value t, p value t.truncate = p value t

theorem DependsOnValue.ignoresFractions {p : Predicate} (h : p.DependsOnValue) :
    p.IgnoresFractions := fun value t => h value t.truncate t

theorem odd_dependsOnValue : odd.DependsOnValue := fun _ _ _ => rfl

theorem even_dependsOnValue : even.DependsOnValue := fun _ _ _ => rfl

end Predicate

/-- Predicates by name.  The names are in order and no two are the same. -/
structure Registry where
  entries : List (String × Predicate)
  sorted : entries.Pairwise fun a b => a.1 < b.1

namespace Registry

/-- Puts an entry where it belongs in an ordered list.  An entry with the same name gives way. -/
def insertEntry (entry : String × Predicate) :
    List (String × Predicate) → List (String × Predicate)
  | [] => [entry]
  | first :: rest =>
      if entry.1 < first.1 then entry :: first :: rest
      else if first.1 < entry.1 then first :: insertEntry entry rest
      else entry :: rest

theorem mem_insertEntry {entry a : String × Predicate} {entries : List (String × Predicate)}
    (h : a ∈ insertEntry entry entries) : a = entry ∨ a ∈ entries := by
  induction entries with
  | nil => simpa [insertEntry] using h
  | cons first rest ih =>
      simp only [insertEntry] at h
      split at h
      · simpa using h
      · split at h
        · rcases List.mem_cons.mp h with rfl | h
          · exact Or.inr List.mem_cons_self
          · exact (ih h).imp_right (List.mem_cons_of_mem _)
        · rcases List.mem_cons.mp h with rfl | h
          · exact Or.inl rfl
          · exact Or.inr (List.mem_cons_of_mem _ h)

theorem eq_of_not_lt {a b : String} (h₁ : ¬a < b) (h₂ : ¬b < a) : a = b :=
  String.le_antisymm (String.not_lt.mp h₂) (String.not_lt.mp h₁)

theorem sorted_insertEntry {entry : String × Predicate} {entries : List (String × Predicate)}
    (h : entries.Pairwise fun a b => a.1 < b.1) :
    (insertEntry entry entries).Pairwise fun a b => a.1 < b.1 := by
  induction entries with
  | nil => simp [insertEntry]
  | cons first rest ih =>
      obtain ⟨hfirst, hrest⟩ := List.pairwise_cons.mp h
      simp only [insertEntry]
      split
      · rename_i hlt
        refine List.pairwise_cons.mpr ⟨fun a ha => ?_, h⟩
        rcases List.mem_cons.mp ha with rfl | ha
        · exact hlt
        · exact String.lt_trans hlt (hfirst a ha)
      · split
        · rename_i hgt
          refine List.pairwise_cons.mpr ⟨fun a ha => ?_, ih hrest⟩
          rcases mem_insertEntry ha with rfl | ha
          · exact hgt
          · exact hfirst a ha
        · rename_i hnlt hngt
          refine List.pairwise_cons.mpr ⟨fun a ha => ?_, hrest⟩
          rw [eq_of_not_lt hnlt hngt]
          exact hfirst a ha

/-- No predicates at all. -/
def empty : Registry := ⟨[], List.Pairwise.nil⟩

instance : Inhabited Registry := ⟨empty⟩

/-- Adds a predicate under a name, replacing one that has the name. -/
def register (registry : Registry) (name : String) (predicate : Predicate) : Registry :=
  ⟨insertEntry (name, predicate) registry.entries, sorted_insertEntry registry.sorted⟩

/-- The predicate with a name. -/
def get? (registry : Registry) (name : String) : Option Predicate := registry.entries.lookup name

/-- Whether some predicate has a name. -/
def contains (registry : Registry) (name : String) : Bool := (registry.get? name).isSome

/-- The names of the predicates, in order. -/
def names (registry : Registry) : List String := registry.entries.map (·.1)

/-- The predicates that come with the library. -/
def builtin : Registry :=
  empty
    |>.register "odd" .odd
    |>.register "even" .even
    |>.register "leap" .leapYear
    |>.register "weekend" .weekend

end Registry

end Cadence

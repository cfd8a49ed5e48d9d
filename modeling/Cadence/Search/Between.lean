import Cadence.Search.Basic

/-!
# Listing matches

The matches of a range, found one at a time.  The listing is a small state machine: it has a place
to search from, or a failure to report, or nothing left.  After a failure and after the end of the
range nothing is left.
-/

namespace Cadence

/-- Where a listing goes on. -/
inductive Upcoming (δ : Type)
  /-- The next match is searched from a date. -/
  | search (reference : δ)
  /-- The next pull reports a failure. -/
  | failure (error : Error)
  /-- Nothing is left. -/
  | nothing

/-- The matches of a search that lie before a date. -/
structure Between (δ : Type) where
  search : Search
  stop : δ
  upcoming : Upcoming δ

/-- What a pull yields: nothing, a match or a failure, and the listing that is left. -/
structure Pulled (δ : Type) where
  events : List (Search.Event δ)
  item : Option (Except Error δ)
  rest : Between δ

namespace Between

variable {δ : Type} [Calendar δ]

/-- The matches from a date up to, but not including, another. -/
def ofRange (search : Search) (start stop : δ) : Between δ := ⟨search, stop, .search start⟩

/-- The listing when nothing is left. -/
def exhausted (b : Between δ) : Between δ := { b with upcoming := .nothing }

/-- Where the listing goes on after a match. -/
def after (b : Between δ) (date : δ) : Between δ :=
  match Calendar.shift date .second 1 with
  | .ok later => { b with upcoming := .search later }
  | .error e => { b with upcoming := .failure e }

/-- Finds the next match. -/
def pull (b : Between δ) : Pulled δ :=
  match b.upcoming with
  | .nothing => ⟨[], none, b.exhausted⟩
  | .failure e => ⟨[], some (.error e), b.exhausted⟩
  | .search reference =>
      let found := b.search.next reference
      match found.result with
      | .error e => ⟨found.entries, some (.error e), b.exhausted⟩
      | .ok date =>
          if date < b.stop then
            ⟨found.entries, some (.ok date), b.after date⟩
          else
            ⟨found.entries ++ [.stopping date b.stop], none, b.exhausted⟩

end Between

end Cadence

import Mathlib.Data.List.Basic
import Mathlib.Logic.Function.Basic
import Cadence.Proofs.Frequency.Closed

/-!
# Sessions of registries and frequencies

A program creates and clones registries, registers predicates in them, and builds frequencies that
hold on to a registry, in any order.  In a `Session` every registry and every frequency has a value
of its own.  In a `Store` clones and frequencies share cells: a predicate is registered in place if
nobody else holds on to the cell, and in a copy otherwise.  The values that a store shows are those
of the session (`Store.view_run`), so what is shared cannot be told from what is not.

No step of a session touches a frequency that is there (`Session.frequencies_step`), and every
frequency that it adds is closed (`Session.isClosed_step`).  Together they say that a frequency
keeps its predicates for good (`Store.frequency_run`).
-/

namespace Cadence

theorem eq_ok_of_toOption {ε α : Type} {x : Except ε α} {a : α} (h : x.toOption = some a) :
    x = .ok a := by
  cases x with
  | ok b =>
      cases h
      rfl
  | error e => cases h

/-- What holds on to a registry: a variable of its own, or a frequency. -/
inductive Holder
  | registry (i : Nat)
  | frequency (j : Nat)

/-- A step of a program.  Registries and frequencies are numbered in the order of their creation. -/
inductive Action
  | create
  | register (i : Nat) (name : String) (predicate : Predicate)
  | cloneRegistry (holder : Holder)
  | cloneFrequency (j : Nat)
  | build (holder : Holder) (source : Source)
  | on (j : Nat) (unit : TimeUnit) (requirement : Requirement) (scope : Option TimeUnit)

/-! ## Values -/

/-- Registries and frequencies that share nothing. -/
structure Session where
  registries : List Registry
  frequencies : List Frequency

namespace Session

def start : Session := ⟨[], []⟩

def registry? (s : Session) : Holder → Option Registry
  | .registry i => s.registries[i]?
  | .frequency j => s.frequencies[j]?.map (·.predicates)

def addRegistry (s : Session) (registry : Option Registry) : Session :=
  { s with registries := s.registries ++ registry.toList }

def addFrequency (s : Session) (f : Option Frequency) : Session :=
  { s with frequencies := s.frequencies ++ f.toList }

/-- What a step does.  A step that fails, or that is about something that is not there, changes
nothing. -/
def step (s : Session) : Action → Session
  | .create => s.addRegistry (some .empty)
  | .register i name p => { s with registries := s.registries.modify i (·.register name p) }
  | .cloneRegistry holder => s.addRegistry (s.registry? holder)
  | .cloneFrequency j => s.addFrequency s.frequencies[j]?
  | .build holder source =>
      s.addFrequency ((s.registry? holder).bind fun registry => (source.build registry).toOption)
  | .on j unit requirement scope =>
      s.addFrequency (s.frequencies[j]?.bind fun f => (f.on unit requirement scope).toOption)

def run (actions : List Action) : Session := actions.foldl step start

variable {s : Session} {f : Frequency}

/-! ### What a step preserves -/

/-- The frequencies that are there stay as they are. -/
theorem frequencies_step (s : Session) (action : Action) :
    s.frequencies <+: (s.step action).frequencies := by
  cases action with
  | create | register | cloneRegistry => exact List.prefix_rfl
  | cloneFrequency | build | on => exact List.prefix_append _ _

theorem isClosed_addFrequency (hs : ∀ g ∈ s.frequencies, g.IsClosed) {added : Option Frequency}
    (hadded : ∀ g, added = some g → g.IsClosed) (hf : f ∈ (s.addFrequency added).frequencies) :
    f.IsClosed := by
  rcases List.mem_append.mp hf with hf | hf
  · exact hs f hf
  · exact hadded f (Option.mem_toList.mp hf)

theorem isClosed_step (hs : ∀ g ∈ s.frequencies, g.IsClosed) (action : Action) :
    ∀ g ∈ (s.step action).frequencies, g.IsClosed := by
  intro f hf
  cases action with
  | create | register | cloneRegistry => exact hs f hf
  | cloneFrequency j =>
      exact isClosed_addFrequency hs (fun g hg => hs g (List.mem_of_getElem? hg)) hf
  | build holder source =>
      refine isClosed_addFrequency hs (fun g hg => ?_) hf
      obtain ⟨registry, -, hbuild⟩ := Option.bind_eq_some_iff.mp hg
      exact Source.isClosed_of_build (eq_ok_of_toOption hbuild)
  | on j unit requirement scope =>
      refine isClosed_addFrequency hs (fun g hg => ?_) hf
      obtain ⟨old, hold, hon⟩ := Option.bind_eq_some_iff.mp hg
      exact (hs old (List.mem_of_getElem? hold)).on (eq_ok_of_toOption hon)

/-! ### What a run preserves -/

theorem isClosed_run {actions : List Action} : ∀ f ∈ (run actions).frequencies, f.IsClosed :=
  List.foldlRecOn actions step (motive := fun t => ∀ f ∈ t.frequencies, f.IsClosed)
    (fun _ hf => absurd hf List.not_mem_nil) fun _ ht action _ => isClosed_step ht action

theorem frequencies_run (before more : List Action) :
    (run before).frequencies <+: (run (before ++ more)).frequencies := by
  rw [run, run, List.foldl_append]
  exact List.foldlRecOn more step
    (motive := fun t => (before.foldl step start).frequencies <+: t.frequencies)
    List.prefix_rfl fun t ht action _ => ht.trans (t.frequencies_step action)

end Session

/-! ## Shared cells -/

/-- A frequency whose registry is in a cell. -/
structure Held where
  rules : RuleSet
  cell : Nat

/-- Registries and frequencies that share cells.  Every cell that is held on to is allocated. -/
structure Store where
  contents : Nat → Registry
  allocated : Nat
  registries : List Nat
  frequencies : List Held
  registries_lt : ∀ cell ∈ registries, cell < allocated
  frequencies_lt : ∀ held ∈ frequencies, held.cell < allocated

namespace Store

def start : Store :=
  ⟨fun _ => .empty, 0, [], [], fun _ h => absurd h List.not_mem_nil,
    fun _ h => absurd h List.not_mem_nil⟩

def value (s : Store) (held : Held) : Frequency := ⟨held.rules, s.contents held.cell⟩

/-- The values that a store shows. -/
def view (s : Store) : Session := ⟨s.registries.map s.contents, s.frequencies.map s.value⟩

def cell? (s : Store) : Holder → Option Nat
  | .registry i => s.registries[i]?
  | .frequency j => s.frequencies[j]?.map (·.cell)

theorem lt_of_cell? {s : Store} {holder : Holder} {cell : Nat} (h : s.cell? holder = some cell) :
    cell < s.allocated := by
  cases holder with
  | registry i => exact s.registries_lt cell (List.mem_of_getElem? h)
  | frequency j =>
      obtain ⟨held, hheld, rfl⟩ := Option.map_eq_some_iff.mp h
      exact s.frequencies_lt held (List.mem_of_getElem? hheld)

/-- The number of registries and frequencies that hold on to a cell. -/
def holders (s : Store) (cell : Nat) : Nat :=
  (s.registries ++ s.frequencies.map (·.cell)).count cell

def addRegistry (s : Store) (cell : Option Nat) (h : ∀ c, cell = some c → c < s.allocated) :
    Store :=
  { s with
    registries := s.registries ++ cell.toList
    registries_lt := fun c hc =>
      (List.mem_append.mp hc).elim (s.registries_lt c) fun hc => h c (Option.mem_toList.mp hc) }

def addFrequency (s : Store) (held : Option Held)
    (h : ∀ g, held = some g → g.cell < s.allocated) : Store :=
  { s with
    frequencies := s.frequencies ++ held.toList
    frequencies_lt := fun g hg =>
      (List.mem_append.mp hg).elim (s.frequencies_lt g) fun hg => h g (Option.mem_toList.mp hg) }

/-- Puts a registry into a new cell. -/
def allocate (s : Store) (registry : Registry) : Store :=
  { s with
    contents := Function.update s.contents s.allocated registry
    allocated := s.allocated + 1
    registries_lt := fun cell h => Nat.lt_succ_of_lt (s.registries_lt cell h)
    frequencies_lt := fun held h => Nat.lt_succ_of_lt (s.frequencies_lt held h) }

theorem allocated_lt_allocate (s : Store) (registry : Registry) :
    s.allocated < (s.allocate registry).allocated := Nat.lt_succ_self s.allocated

/-- Puts a registry into a cell that is there, for everybody who holds on to it. -/
def write (s : Store) (cell : Nat) (registry : Registry) : Store :=
  { s with contents := Function.update s.contents cell registry }

/-- Makes a registry hold on to another cell. -/
def redirect (s : Store) (i cell : Nat) (h : cell < s.allocated) : Store :=
  { s with
    registries := s.registries.set i cell
    registries_lt := fun c hc =>
      (List.mem_or_eq_of_mem_set hc).elim (s.registries_lt c) fun hc => hc ▸ h }

/-- Registers a predicate in a cell without other holders, or else in a copy of the cell. -/
def register (s : Store) (i : Nat) (name : String) (p : Predicate) : Store :=
  match s.registries[i]? with
  | none => s
  | some cell =>
      let registry := (s.contents cell).register name p
      if s.holders cell = 1 then s.write cell registry
      else (s.allocate registry).redirect i s.allocated (s.allocated_lt_allocate registry)

/-- The frequency that a source stands for, if there is one, with the registry in a cell. -/
def built (s : Store) (source : Source) (cell : Nat) : Option Held :=
  (source.build (s.contents cell)).toOption.map fun f => ⟨f.rules, cell⟩

/-- A frequency with another rule, if it can be added.  The cell is shared. -/
def extended (s : Store) (unit : TimeUnit) (requirement : Requirement) (scope : Option TimeUnit)
    (held : Held) : Option Held :=
  ((s.value held).on unit requirement scope).toOption.map fun f => ⟨f.rules, held.cell⟩

/-- What a step does to the cells. -/
def step (s : Store) : Action → Store
  | .create => (s.allocate .empty).addRegistry (some s.allocated) fun _ h => by
      cases h
      exact s.allocated_lt_allocate .empty
  | .register i name p => s.register i name p
  | .cloneRegistry holder => s.addRegistry (s.cell? holder) fun _ => lt_of_cell?
  | .cloneFrequency j => s.addFrequency s.frequencies[j]? fun g h =>
      s.frequencies_lt g (List.mem_of_getElem? h)
  | .build holder source => s.addFrequency ((s.cell? holder).bind (s.built source)) fun g h => by
      obtain ⟨cell, hcell, hbuilt⟩ := Option.bind_eq_some_iff.mp h
      obtain ⟨f, -, rfl⟩ := Option.map_eq_some_iff.mp hbuilt
      exact lt_of_cell? hcell
  | .on j unit requirement scope =>
      s.addFrequency (s.frequencies[j]?.bind (s.extended unit requirement scope)) fun g h => by
        obtain ⟨held, hheld, hextended⟩ := Option.bind_eq_some_iff.mp h
        obtain ⟨f, -, rfl⟩ := Option.map_eq_some_iff.mp hextended
        exact s.frequencies_lt held (List.mem_of_getElem? hheld)

def run (actions : List Action) : Store := actions.foldl step start

variable {s : Store}

/-! ### What the parts of a step show -/

theorem registry?_view (s : Store) (holder : Holder) :
    s.view.registry? holder = (s.cell? holder).map s.contents := by
  cases holder with
  | registry i => exact List.getElem?_map
  | frequency j => simp [Session.registry?, view, cell?, value, Function.comp_def]

theorem view_addRegistry {cell : Option Nat} {h : ∀ c, cell = some c → c < s.allocated} :
    (s.addRegistry cell h).view = s.view.addRegistry (cell.map s.contents) := by
  cases cell <;> simp [view, addRegistry, Session.addRegistry, value]

theorem view_addFrequency {held : Option Held} {h : ∀ g, held = some g → g.cell < s.allocated} :
    (s.addFrequency held h).view = s.view.addFrequency (held.map s.value) := by
  cases held <;> simp [view, addFrequency, Session.addFrequency, value]

/-- Nobody holds on to the cell that is allocated next. -/
theorem view_allocate (registry : Registry) : (s.allocate registry).view = s.view := by
  have hother {cell : Nat} (h : cell < s.allocated) :
      (s.allocate registry).contents cell = s.contents cell :=
    Function.update_of_ne (Nat.ne_of_lt h) _ _
  simp only [view, Session.mk.injEq]
  constructor
  · exact List.map_congr_left fun cell hcell => hother (s.registries_lt cell hcell)
  · refine List.map_congr_left fun held hheld => ?_
    simp only [value, hother (s.frequencies_lt held hheld)]

theorem view_redirect {i cell : Nat} {h : cell < s.allocated} :
    (s.redirect i cell h).view =
      { s.view with registries := s.view.registries.set i (s.contents cell) } := by
  simp only [view, redirect, List.map_set]
  rfl

/-- Writing to the cell of a list in which it occurs once changes one value. -/
theorem map_update_eq_set {α : Type} {contents : Nat → α} {a : α} {cells : List Nat} {i cell : Nat}
    (hi : cells[i]? = some cell) (hcount : cells.count cell = 1) :
    cells.map (Function.update contents cell a) = (cells.map contents).set i a := by
  induction cells generalizing i with
  | nil => cases hi
  | cons first rest ih =>
      cases i with
      | zero =>
          cases hi
          have hrest : cell ∉ rest := by
            rw [List.count_cons_self] at hcount
            exact List.count_eq_zero.mp (by omega)
          have hother : rest.map (Function.update contents cell a) = rest.map contents :=
            List.map_congr_left fun c hc => Function.update_of_ne (ne_of_mem_of_not_mem hc hrest) _ _
          rw [List.map_cons, List.map_cons, Function.update_self, hother, List.set_cons_zero]
      | succ i =>
          rw [List.getElem?_cons_succ] at hi
          have hmem := List.count_pos_iff.mpr (List.mem_of_getElem? hi)
          have hfirst : first ≠ cell := by
            rintro rfl
            rw [List.count_cons_self] at hcount
            omega
          rw [List.count_cons_of_ne hfirst] at hcount
          rw [List.map_cons, List.map_cons, Function.update_of_ne hfirst, ih hi hcount,
            List.set_cons_succ]

/-- A cell that only one registry holds on to can be written to in place. -/
theorem view_write {i cell : Nat} (hi : s.registries[i]? = some cell) (h : s.holders cell = 1)
    (registry : Registry) :
    (s.write cell registry).view =
      { s.view with registries := s.view.registries.set i registry } := by
  have hmem : 0 < s.registries.count cell := List.count_pos_iff.mpr (List.mem_of_getElem? hi)
  rw [holders, List.count_append] at h
  have hcount : s.registries.count cell = 1 := by omega
  have hfree : cell ∉ s.frequencies.map (·.cell) := List.count_eq_zero.mp (by omega)
  simp only [view, Session.mk.injEq]
  constructor
  · exact map_update_eq_set hi hcount
  · refine List.map_congr_left fun held hheld => ?_
    have hne : held.cell ≠ cell := fun heq => hfree (List.mem_map.mpr ⟨held, hheld, heq⟩)
    simp only [value, write, Function.update_of_ne hne]

theorem view_register (s : Store) (i : Nat) (name : String) (p : Predicate) :
    (s.register i name p).view =
      { s.view with registries := s.view.registries.modify i (·.register name p) } := by
  have hview : s.view.registries[i]? = s.registries[i]?.map s.contents := List.getElem?_map
  rw [List.modify_eq_set_getElem?, hview]
  unfold register
  cases hcell : s.registries[i]? with
  | none => rfl
  | some cell =>
      by_cases hholders : s.holders cell = 1
      · simp only [hholders, if_true]
        rw [view_write hcell hholders]
        rfl
      · simp only [hholders, if_false]
        rw [view_redirect, view_allocate]
        simp [allocate]

/-- What is built shows as it would with a registry of its own. -/
theorem built_value (s : Store) (source : Source) (cell : Nat) :
    (s.built source cell).map s.value = (source.build (s.contents cell)).toOption := by
  cases hbuild : source.build (s.contents cell) with
  | error e => simp [built, hbuild, Except.toOption]
  | ok f =>
      obtain ⟨rules, predicates⟩ := f
      have hpredicates : predicates = s.contents cell := Source.predicates_of_build hbuild
      simp only [built, hbuild, Except.toOption, Option.map_some]
      rw [value, hpredicates]

theorem extended_value (s : Store) (unit : TimeUnit) (requirement : Requirement)
    (scope : Option TimeUnit) (held : Held) :
    (s.extended unit requirement scope held).map s.value =
      ((s.value held).on unit requirement scope).toOption := by
  cases hon : (s.value held).on unit requirement scope with
  | error e => simp [extended, hon, Except.toOption]
  | ok f =>
      obtain ⟨rules, predicates⟩ := f
      have hpredicates : predicates = s.contents held.cell := Frequency.predicates_on hon
      simp only [extended, hon, Except.toOption, Option.map_some]
      rw [value, hpredicates]

/-! ### What a store shows -/

/-- A step does to the values what it does where nothing is shared. -/
theorem view_step (s : Store) (action : Action) : (s.step action).view = s.view.step action := by
  cases action with
  | create =>
      rw [step, view_addRegistry, view_allocate]
      simp [allocate, Session.step]
  | register i name p => exact view_register s i name p
  | cloneRegistry holder => rw [step, view_addRegistry, Session.step, registry?_view]
  | cloneFrequency j =>
      rw [step, view_addFrequency, Session.step, view, List.getElem?_map]
  | build holder source =>
      rw [step, view_addFrequency, Session.step, registry?_view, Option.map_bind, Option.bind_map]
      simp only [Function.comp_def, built_value]
  | on j unit requirement scope =>
      have hfrequency : s.view.frequencies[j]? = s.frequencies[j]?.map s.value :=
        List.getElem?_map
      rw [step, view_addFrequency, Session.step, hfrequency, Option.map_bind, Option.bind_map]
      simp only [Function.comp_def, extended_value]

/-- Sharing cells cannot be told from sharing nothing. -/
theorem view_run (actions : List Action) : (run actions).view = Session.run actions :=
  (List.foldl_hom view fun s action => (view_step s action).symm).symm

/-! ### What a frequency may rely on -/

/-- After any steps, a frequency finds in its own registry every predicate that its rules name, so no
question about its matches meets an unknown predicate: not on the civil calendar, not in a zone, and
on no calendar whose own operations do not report one.  No later steps change the frequency, neither
its rules nor its registry. -/
theorem frequency_run {before : List Action} {j : Nat} {f : Frequency}
    (h : (run before).view.frequencies[j]? = some f) (more : List Action) :
    f.IsClosed ∧
    f.FailsOnly Civil.DateTime (fun e => ∀ name, e ≠ .unknownPredicate name) ∧
    f.FailsOnly Zoned (fun e => ∀ name, e ≠ .unknownPredicate name) ∧
    (∀ (δ : Type) [Calendar δ],
      f.FailsOnly δ (fun e => ∀ name, e = .unknownPredicate name → Calendar.Reports δ e)) ∧
    (run (before ++ more)).view.frequencies[j]? = some f := by
  rw [view_run] at h ⊢
  have hclosed : f.IsClosed := Session.isClosed_run f (List.mem_of_getElem? h)
  refine ⟨hclosed, hclosed.failsOnly_civil, hclosed.failsOnly_zoned,
    fun δ _ => hclosed.failsOnly δ, ?_⟩
  obtain ⟨hj, rfl⟩ := List.getElem?_eq_some_iff.mp h
  exact List.prefix_iff_getElem?.mp (Session.frequencies_run before more) j hj

/-- A registry that has one predicate, and a frequency whose rule names it. -/
def oddWeeksBuilt : List Action :=
  [.create, .register 0 "odd" .odd, .build (.registry 0) .nothing,
    .on 0 .week (.predicate "odd") none]

/-- The predicate is replaced, in the registry and in a clone of the frequency's own. -/
def oddReplaced : List Action :=
  [.register 0 "odd" .even, .cloneRegistry (.frequency 1), .register 1 "odd" .even]

/-- The registry has another predicate now, but the frequency has not. -/
theorem frequency_run_oddReplaced :
    ∃ f, (run oddWeeksBuilt).view.frequencies[1]? = some f ∧
      f.predicates.get? "odd" = some .odd ∧ f.IsClosed ∧
      (run (oddWeeksBuilt ++ oddReplaced)).view.frequencies[1]? = some f ∧
      ((run (oddWeeksBuilt ++ oddReplaced)).view.registry? (.registry 0)).bind (·.get? "odd") =
        some .even := by
  have hbuilt : ∃ f, (run oddWeeksBuilt).view.frequencies[1]? = some f ∧
      f.predicates.get? "odd" = some .odd := ⟨_, rfl, rfl⟩
  obtain ⟨f, hf, hodd⟩ := hbuilt
  obtain ⟨hclosed, -, -, -, hlater⟩ := frequency_run hf oddReplaced
  exact ⟨f, hf, hodd, hclosed, hlater, rfl⟩

end Store

end Cadence

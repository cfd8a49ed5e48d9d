import Cadence.Main
import Cadence.Proofs.Command.Printing
import Cadence.Proofs.Frequency.Comparison

/-!
# Sorting frequencies

A stable sort puts frequencies in order, and keeps the order of those that compare equal, as far as
their comparison is transitive (`Command.run_sort`).  It need not be, because predicates, and scopes
that only one side has, give no signal (`Frequency.TransitiveOn`).  Where it is not, the sort may
give up, and the frequencies can be given in an order for which no arrangement at all puts the
lesser ones first and leaves the others where they are (`Command.exists_not_isSorted`).
-/

namespace Cadence

namespace Command

open Cadence.Text (Bytes)

/-! ## Order -/

variable {reverse : Bool} {f g x y z : Frequency} {fs rest : List Frequency}
  {order : List (Frequency × Nat)}

/-- A frequency, with the position at which it was given, may stand before another: the other does
not count for less (or for more, the other way round), and if they compare equal it was given
earlier. -/
def MayStandBefore (reverse : Bool) (p q : Frequency × Nat) : Prop :=
  q.1.compare p.1 ≠ (if reverse then .gt else .lt) ∧ (p.1.compare q.1 = .eq → p.2 < q.2)

/-- Frequencies, with the positions at which they were given, are in order. -/
def IsSorted (reverse : Bool) (order : List (Frequency × Nat)) : Prop :=
  order.Pairwise (MayStandBefore reverse)

theorem comesBefore_eq_false_iff_ne :
    comesBefore reverse f g = false ↔ f.compare g ≠ (if reverse then .gt else .lt) :=
  beq_eq_false_iff_ne

theorem comesBefore_eq_false_iff :
    comesBefore reverse f g = false ↔
      (if reverse then f.compare g else g.compare f).isLE = true := by
  rw [comesBefore_eq_false_iff_ne, ← Frequency.swap_compare f g]
  cases reverse <;> cases f.compare g <;> simp

theorem comesBefore_asymm (h : comesBefore reverse f g = true) :
    comesBefore reverse g f = false := by
  rw [comesBefore, beq_iff_eq] at h
  rw [comesBefore_eq_false_iff_ne, ← Frequency.swap_compare f g, h]
  cases reverse <;> simp

theorem compare_eq_of_not_comesBefore (hfg : comesBefore reverse f g = false)
    (hgf : comesBefore reverse g f = false) : f.compare g = .eq := by
  rw [comesBefore_eq_false_iff_ne] at hfg hgf
  rw [← Frequency.swap_compare f g] at hgf
  cases h : f.compare g with
  | eq => rfl
  | lt => cases reverse <;> simp [h] at hfg hgf
  | gt => cases reverse <;> simp [h] at hfg hgf

/-- Where the comparison is transitive, a sort has an order to go by. -/
theorem isOrderOn_comesBefore (reverse : Bool) (hfs : Frequency.TransitiveOn fs) :
    IsOrderOn (comesBefore reverse) fs where
  asymm _ _ _ _ := comesBefore_asymm
  trans f hf g hg x hx hfg hgx := by
    rw [comesBefore_eq_false_iff] at hgx hfg ⊢
    cases reverse with
    | false => exact hfs x hx g hg f hf hgx hfg
    | true => exact hfs f hf g hg x hx hfg hgx

theorem MayPrecede.mayStandBefore {p q : Frequency × Nat}
    (h : MayPrecede (comesBefore reverse) p q) : MayStandBefore reverse p q := by
  obtain ⟨hqp, hpq⟩ := h
  refine ⟨comesBefore_eq_false_iff_ne.mp hqp, fun heq => hpq.resolve_left ?_⟩
  rw [Bool.not_eq_true, comesBefore_eq_false_iff_ne, heq]
  cases reverse <;> simp

/-! ## Where the comparison is not transitive -/

/-- Two elements of which the second may not stand before the first stand the other way round. -/
theorem lt_of_pairwise {α : Type} {R : α → α → Prop} {l : List α} (hl : l.Pairwise R) {i j : Nat}
    (hi : i < l.length) (hj : j < l.length) (hne : l[i] ≠ l[j]) (hji : ¬R l[j] l[i]) : i < j := by
  rcases Nat.lt_trichotomy i j with h | rfl | h
  · exact h
  · exact absurd rfl hne
  · exact absurd (List.pairwise_iff_getElem.mp hl j i hj hi h) hji

/-- A first frequency has to stand before a second, and the second before a third, as they were
given that way round and do not count for more; but the third has to stand before the first. -/
theorem not_isSorted_of_cycle (hxy : comesBefore reverse y x = false)
    (hyz : comesBefore reverse z y = false) (hzx : comesBefore reverse z x = true)
    (hperm : order.Perm (x :: y :: z :: rest).zipIdx) : ¬IsSorted reverse order := by
  intro hsorted
  have hat {p : Frequency × Nat} (hp : p ∈ (x :: y :: z :: rest).zipIdx) :
      ∃ i, ∃ hi : i < order.length, order[i] = p :=
    List.getElem_of_mem (hperm.mem_iff.mpr hp)
  -- What is given later may not stand before what it does not come before.
  have hlater {p q : Frequency × Nat} (hqp : comesBefore reverse q.1 p.1 = false)
      (hlt : p.2 < q.2) : ¬MayStandBefore reverse q p := by
    rintro ⟨hpq, hearlier⟩
    have heq := compare_eq_of_not_comesBefore hqp (comesBefore_eq_false_iff_ne.mpr hpq)
    exact Nat.lt_asymm hlt (hearlier heq)
  obtain ⟨i, hi, hxi⟩ := hat (p := (x, 0)) (by simp)
  obtain ⟨j, hj, hyj⟩ := hat (p := (y, 1)) (by simp)
  obtain ⟨k, hk, hzk⟩ := hat (p := (z, 2)) (by simp)
  have hij : i < j := lt_of_pairwise hsorted hi hj (by simp [hxi, hyj])
    (by rw [hxi, hyj]; exact hlater hxy Nat.zero_lt_one)
  have hjk : j < k := lt_of_pairwise hsorted hj hk (by simp [hyj, hzk])
    (by rw [hyj, hzk]; exact hlater hyz Nat.one_lt_two)
  have hki : k < i := lt_of_pairwise hsorted hk hi (by simp [hxi, hzk])
    (by rw [hxi, hzk]; exact fun h => h.1 (beq_iff_eq.mp hzx))
  omega

theorem exists_perm_cons {α : Type} {a : α} {l : List α} (h : a ∈ l) :
    ∃ rest, l.Perm (a :: rest) := by
  obtain ⟨before, after, rfl⟩ := List.append_of_mem h
  exact ⟨before ++ after, List.perm_middle⟩

/-- Three different elements can be taken to the front. -/
theorem exists_perm_cons_cons_cons {α : Type} {a b c : α} {l : List α} (ha : a ∈ l) (hb : b ∈ l)
    (hc : c ∈ l) (hab : a ≠ b) (hac : a ≠ c) (hbc : b ≠ c) :
    ∃ rest, (a :: b :: c :: rest).Perm l := by
  obtain ⟨l₁, hl₁⟩ := exists_perm_cons ha
  have hb₁ : b ∈ l₁ := (List.mem_cons.mp (hl₁.mem_iff.mp hb)).resolve_left hab.symm
  have hc₁ : c ∈ l₁ := (List.mem_cons.mp (hl₁.mem_iff.mp hc)).resolve_left hac.symm
  obtain ⟨l₂, hl₂⟩ := exists_perm_cons hb₁
  have hc₂ : c ∈ l₂ := (List.mem_cons.mp (hl₂.mem_iff.mp hc₁)).resolve_left hbc.symm
  obtain ⟨l₃, hl₃⟩ := exists_perm_cons hc₂
  exact ⟨l₃, (hl₁.trans ((hl₂.trans (hl₃.cons b)).cons a)).symm⟩

/-- Unless the comparison is transitive on some frequencies, they can be given in an order for which
no arrangement of them is in order. -/
theorem exists_not_isSorted (reverse : Bool) (hfs : ¬Frequency.TransitiveOn fs) :
    ∃ other : List Frequency, other.Perm fs ∧
      ∀ order, order.Perm other.zipIdx → ¬IsSorted reverse order := by
  simp only [Frequency.TransitiveOn, not_forall] at hfs
  obtain ⟨f, hf, g, hg, h, hh, hfg, hgh, hfh⟩ := hfs
  have hne₁ : f ≠ g := fun heq => hfh (heq ▸ hgh)
  have hne₂ : f ≠ h := fun heq => hfh (by rw [← heq, f.compare_self]; rfl)
  have hne₃ : g ≠ h := fun heq => hfh (heq ▸ hfg)
  have hback {reverse : Bool} {x z : Frequency}
      (hzx : ¬(if reverse then z.compare x else x.compare z).isLE = true) :
      comesBefore reverse z x = true := by
    rw [← comesBefore_eq_false_iff] at hzx
    exact (Bool.not_eq_false _).mp hzx
  cases reverse with
  | false =>
      obtain ⟨rest, hrest⟩ := exists_perm_cons_cons_cons hf hg hh hne₁ hne₂ hne₃
      exact ⟨f :: g :: h :: rest, hrest, fun order => not_isSorted_of_cycle
        (comesBefore_eq_false_iff.mpr hfg) (comesBefore_eq_false_iff.mpr hgh) (hback hfh)⟩
  | true =>
      obtain ⟨rest, hrest⟩ := exists_perm_cons_cons_cons hh hg hf hne₃.symm hne₂.symm hne₁.symm
      exact ⟨h :: g :: f :: rest, hrest, fun order => not_isSorted_of_cycle
        (comesBefore_eq_false_iff.mpr hgh) (comesBefore_eq_false_iff.mpr hfg) (hback hfh)⟩

/-! ## The command -/

section Run

variable {setting : Setting} {words arguments : List Bytes}

/-- What is sorted is printed once all of it is read, and nothing is printed if that fails. -/
theorem run_sort_cases (sort : StableSort Frequency)
    (hplan : (plan setting.now words).result = .ok (.sort reverse arguments))
    (hread : (collectInputs inputFrequency setting.input arguments).result = .ok fs) :
    (∀ sorted, sort.sorted? (comesBefore reverse) fs = some sorted →
      (run setting words sort).result = .ok () ∧
        printed (run setting words sort).entries = sorted.map Frequency.text) ∧
      (sort.sorted? (comesBefore reverse) fs = none →
        (run setting words sort).result = .error ⟨[], .noOrder⟩ ∧
          printed (run setting words sort).entries = []) := by
  obtain ⟨hresult, hprinted⟩ := run_of_plan hplan sort
  have hsilent : Silent (collectInputs inputFrequency setting.input arguments) :=
    silent_collectInputs silent_inputFrequency setting.input arguments
  obtain ⟨htask, htaskPrinted⟩ := hsilent.bind_of_ok
    (f := fun frequencies => do
      let sorted ← sortFrequencies sort reverse frequencies
      sorted.forM (printFrequency false))
    hread
  rw [hresult, hprinted]
  refine ⟨fun sorted hsorted => ?_, fun hnone => ?_⟩
  · have hsort : sortFrequencies sort reverse fs = pure sorted := by rw [sortFrequencies, hsorted]
    obtain ⟨hforM, hlines⟩ := forM_printFrequency false sorted
    rw [hsort, pure_bind] at htask htaskPrinted
    exact ⟨htask.trans hforM, htaskPrinted.trans hlines⟩
  · have hsort : sortFrequencies sort reverse fs = Run.fail ⟨[], .noOrder⟩ := by
      rw [sortFrequencies, hnone]
    rw [hsort] at htask htaskPrinted
    exact ⟨htask, htaskPrinted⟩

/-- A command line that asks for sorting prints the notations of the frequencies that it is given.
If the comparison is transitive on them, it succeeds, they are in order, and any stable sort gives
the same.  Otherwise they come in an arrangement that depends on the sort, which may also give up
before anything is printed; and they can be given in an order for which no arrangement is in
order. -/
theorem run_sort (sort : StableSort Frequency)
    (hplan : (plan setting.now words).result = .ok (.sort reverse arguments))
    (hread : (collectInputs inputFrequency setting.input arguments).result = .ok fs) :
    (Frequency.TransitiveOn fs →
      (run setting words sort).result = .ok () ∧
        ∃ order : List (Frequency × Nat), order.Perm fs.zipIdx ∧
          printed (run setting words sort).entries = order.map (fun p => p.1.text) ∧
          printed (run setting words).entries = order.map (fun p => p.1.text) ∧
          IsSorted reverse order) ∧
      (¬Frequency.TransitiveOn fs →
        ((run setting words sort).result = .ok () ∧
            (∃ sorted : List Frequency, sorted.Perm fs ∧
              printed (run setting words sort).entries = sorted.map Frequency.text) ∨
          (run setting words sort).result = .error ⟨[], .noOrder⟩ ∧
            printed (run setting words sort).entries = []) ∧
          ∃ other : List Frequency, other.Perm fs ∧
            ∀ order, order.Perm other.zipIdx → ¬IsSorted reverse order) := by
  obtain ⟨hsome, hnone⟩ := run_sort_cases sort hplan hread
  refine ⟨fun hfs => ?_, fun hfs => ⟨?_, exists_not_isSorted reverse hfs⟩⟩
  · have hcomes := isOrderOn_comesBefore reverse hfs
    obtain ⟨order, hperm, horder, hsorted⟩ := sort.stable hcomes
    have hinsertion : some (sortedBy (comesBefore reverse) fs) = some (order.map Prod.fst) :=
      (sort.sorted?_eq hcomes).symm.trans hsorted
    obtain ⟨hresult, hlines⟩ := hsome _ hsorted
    obtain ⟨-, hlines'⟩ := (run_sort_cases .insertion hplan hread).1 _ hinsertion
    rw [List.map_map] at hlines hlines'
    exact ⟨hresult, order, hperm, hlines, hlines', horder.imp MayPrecede.mayStandBefore⟩
  · cases hsorted : sort.sorted? (comesBefore reverse) fs with
    | some sorted =>
        obtain ⟨hresult, hlines⟩ := hsome sorted hsorted
        exact .inl ⟨hresult, sorted, sort.perm hsorted, hlines⟩
    | none => exact .inr (hnone hsorted)

end Run

/-- A user without a zone, nothing on standard input, and the first instant of 1970. -/
def plainSetting : Setting := ⟨.atInstant .unknown Main.unixEpochInstant, [], false⟩

/-- A rule on weeks counts for more than one on days, whatever predicate it names. -/
def weeksArguments : List Bytes :=
  ["F2D", "F(odd)W", "FT10H", "F1D", "F(even)W"].map Text.Utf8.encode

/-- A predicate makes no difference to either number. -/
def mixedArguments : List Bytes := ["F2D", "F(odd)D", "F1D"].map Text.Utf8.encode

/-- The frequencies that are read from some arguments. -/
def frequenciesOf (arguments : List Bytes) : List Frequency :=
  (collectInputs inputFrequency [] arguments).result.toOption.getD []

theorem run_sort_weeks :
    (plan plainSetting.now ((["sort", "-r"].map Text.Utf8.encode) ++ weeksArguments)).result =
        .ok (.sort true weeksArguments) ∧
      (collectInputs inputFrequency plainSetting.input weeksArguments).result =
        .ok (frequenciesOf weeksArguments) ∧
      Frequency.TransitiveOn (frequenciesOf weeksArguments) ∧
      (run plainSetting ((["sort", "-r"].map Text.Utf8.encode) ++ weeksArguments)).result = .ok () ∧
      ∃ order : List (Frequency × Nat), order.Perm (frequenciesOf weeksArguments).zipIdx ∧
        ["F(odd)W", "F(even)W", "F2D", "F1D", "FT10H"] = order.map (fun p => p.1.text) ∧
        IsSorted true order := by
  have hplan : (plan plainSetting.now
      ((["sort", "-r"].map Text.Utf8.encode) ++ weeksArguments)).result =
        .ok (.sort true weeksArguments) := by
    with_unfolding_all rfl
  have hread : (collectInputs inputFrequency plainSetting.input weeksArguments).result =
      .ok (frequenciesOf weeksArguments) := by
    with_unfolding_all rfl
  have hnumbers : ∀ f ∈ frequenciesOf weeksArguments, ∀ g ∈ frequenciesOf weeksArguments,
      ∀ unit ∈ TimeUnit.all, f.rules.constrains unit = true → g.rules.constrains unit = true →
        ∀ scope ∈ TimeUnit.all,
          (f.rules.number? unit scope).isSome = (g.rules.number? unit scope).isSome := by
    decide +kernel
  have htransitive : Frequency.TransitiveOn (frequenciesOf weeksArguments) :=
    Frequency.transitiveOn_of_commensurable fun f hf g hg unit hfunit hgunit scope =>
      hnumbers f hf g hg unit unit.mem_all hfunit hgunit scope scope.mem_all
  obtain ⟨hresult, order, hperm, hprinted, -, hsorted⟩ :=
    (run_sort .insertion hplan hread).1 htransitive
  have hlines : printed (run plainSetting
      ((["sort", "-r"].map Text.Utf8.encode) ++ weeksArguments)).entries =
        ["F(odd)W", "F(even)W", "F2D", "F1D", "FT10H"] := by
    decide +kernel
  exact ⟨hplan, hread, htransitive, hresult, order, hperm, hlines.symm.trans hprinted, hsorted⟩

/-- The third frequency counts for less than the first, but stands behind it, because the second one
compares equal to both.  No arrangement of the three is in order, so no sort could print one. -/
theorem sort_mixed_unsorted :
    (plan plainSetting.now (Text.Utf8.encode "sort" :: mixedArguments)).result =
        .ok (.sort false mixedArguments) ∧
      (collectInputs inputFrequency plainSetting.input mixedArguments).result =
        .ok (frequenciesOf mixedArguments) ∧
      (∃ x y z, frequenciesOf mixedArguments = [x, y, z] ∧
        z.compare x = .lt ∧ x.compare y = .eq ∧ y.compare z = .eq) ∧
      ¬Frequency.TransitiveOn (frequenciesOf mixedArguments) ∧
      printed (run plainSetting (Text.Utf8.encode "sort" :: mixedArguments)).entries =
        ["F2D", "F(odd)D", "F1D"] ∧
      ∀ sort : StableSort Frequency,
        ¬∃ order : List (Frequency × Nat), order.Perm (frequenciesOf mixedArguments).zipIdx ∧
          printed (run plainSetting (Text.Utf8.encode "sort" :: mixedArguments) sort).entries =
            order.map (fun p => p.1.text) ∧
          IsSorted false order := by
  have hcycle : ∃ x y z, frequenciesOf mixedArguments = [x, y, z] ∧
      z.compare x = .lt ∧ x.compare y = .eq ∧ y.compare z = .eq := by
    refine ⟨(frequenciesOf mixedArguments).get ⟨0, by decide +kernel⟩,
      (frequenciesOf mixedArguments).get ⟨1, by decide +kernel⟩,
      (frequenciesOf mixedArguments).get ⟨2, by decide +kernel⟩, by with_unfolding_all rfl,
      by decide +kernel, by decide +kernel, by decide +kernel⟩
  refine ⟨by with_unfolding_all rfl, by with_unfolding_all rfl, hcycle, by decide +kernel,
    by decide +kernel, ?_⟩
  rintro sort ⟨order, hperm, -, hsorted⟩
  obtain ⟨x, y, z, hfs, hzx, hxy, hyz⟩ := hcycle
  rw [hfs] at hperm
  refine not_isSorted_of_cycle ?_ ?_ ?_ hperm hsorted
  · rw [comesBefore_eq_false_iff_ne, ← Frequency.swap_compare x y, hxy]
    simp
  · rw [comesBefore_eq_false_iff_ne, ← Frequency.swap_compare y z, hyz]
    simp
  · exact beq_iff_eq.mpr hzx

end Command

end Cadence

/-!
# Stable sorting

A stable sort is known by what it promises (`Command.StableSort`).  Where "comes before" is an order
on the elements, it puts them in order and keeps the order of those of which none comes before the
other, and there is only one way to do so (`Command.StableSort.sorted?_eq`).  Where it is no order,
any arrangement may come out, and a sort may also notice that and give up.  Inserting the elements
one after the other is such a sort (`Command.StableSort.insertion`).
-/

namespace Cadence.Command

variable {α β : Type} {r : α → α → Bool} {elements : List α} {p : α × Nat}
  {items sorted : List (α × Nat)}

/-! ## Promises -/

/-- Whether "comes before" is an order on some elements: of two at most one comes before the other,
and not to come before is transitive. -/
structure IsOrderOn (r : α → α → Bool) (elements : List α) : Prop where
  asymm : ∀ a ∈ elements, ∀ b ∈ elements, r a b = true → r b a = false
  trans : ∀ a ∈ elements, ∀ b ∈ elements, ∀ c ∈ elements,
    r a b = false → r b c = false → r a c = false

/-- An element, with the position at which it was given, may stand before another: the other does
not come before it, and if it does not come before the other either, it was given earlier. -/
def MayPrecede (r : α → α → Bool) (p q : α × Nat) : Prop :=
  r q.1 p.1 = false ∧ (r p.1 q.1 = true ∨ p.2 < q.2)

theorem MayPrecede.asymm {p q : α × Nat} (hpq : MayPrecede r p q) : ¬MayPrecede r q p := by
  intro hqp
  have hlt : p.2 < q.2 := hpq.2.resolve_left (by simp [hqp.1])
  have hgt : q.2 < p.2 := hqp.2.resolve_left (by simp [hpq.1])
  exact Nat.lt_asymm hlt hgt

/-- A stable sort.  It loses no element, and it can only give up if the relation that it is given is
no order on the elements. -/
structure StableSort (α : Type) where
  /-- Sorts elements, unless it gives up. -/
  sorted? : (α → α → Bool) → List α → Option (List α)
  perm : ∀ {r elements sorted}, sorted? r elements = some sorted → sorted.Perm elements
  stable : ∀ {r elements}, IsOrderOn r elements →
    ∃ order : List (α × Nat), order.Perm elements.zipIdx ∧ order.Pairwise (MayPrecede r) ∧
      sorted? r elements = some (order.map Prod.fst)

/-! ## Insertion -/

/-- Puts an element into a list, which is in the opposite order, behind all elements that it does
not come before. -/
def insertBackwards (comesBefore : α → α → Bool) (a : α) : List α → List α
  | [] => [a]
  | b :: rest => if comesBefore a b then b :: insertBackwards comesBefore a rest else a :: b :: rest

/-- Sorts a list by inserting its elements one after the other. -/
def sortedBy (comesBefore : α → α → Bool) (items : List α) : List α :=
  (items.foldl (fun sorted a => insertBackwards comesBefore a sorted) []).reverse

theorem insertBackwards_perm (comesBefore : α → α → Bool) (a : α) (items : List α) :
    (insertBackwards comesBefore a items).Perm (a :: items) := by
  induction items with
  | nil => exact .refl _
  | cons b rest ih =>
      simp only [insertBackwards]
      split
      · exact (ih.cons b).trans (.swap a b rest)
      · exact .refl _

theorem foldl_insertBackwards_perm (comesBefore : α → α → Bool) (items sorted : List α) :
    (items.foldl (fun sorted a => insertBackwards comesBefore a sorted) sorted).Perm
      (items ++ sorted) := by
  induction items generalizing sorted with
  | nil => exact .refl _
  | cons a rest ih =>
      have hstep := (insertBackwards_perm comesBefore a sorted).append_left rest
      exact (ih (insertBackwards comesBefore a sorted)).trans (hstep.trans List.perm_middle)

/-- Sorting keeps every element as often as it occurs. -/
theorem sortedBy_perm (comesBefore : α → α → Bool) (items : List α) :
    (sortedBy comesBefore items).Perm items := by
  have hfold := foldl_insertBackwards_perm comesBefore items []
  rw [List.append_nil] at hfold
  exact (List.reverse_perm _).trans hfold

theorem insertBackwards_map (f : β → α) (b : β) (sorted : List β) :
    insertBackwards r (f b) (sorted.map f) =
      (insertBackwards (fun b c => r (f b) (f c)) b sorted).map f := by
  induction sorted with
  | nil => rfl
  | cons c rest ih =>
      simp only [List.map_cons, insertBackwards]
      split
      · rw [ih, List.map_cons]
      · rfl

/-- Sorting looks at elements only through the relation. -/
theorem sortedBy_map (f : β → α) (items : List β) :
    sortedBy r (items.map f) = (sortedBy (fun b c => r (f b) (f c)) items).map f := by
  have hfold : ∀ sorted : List β,
      (items.map f).foldl (fun sorted a => insertBackwards r a sorted) (sorted.map f) =
        (items.foldl (fun sorted b => insertBackwards (fun b c => r (f b) (f c)) b sorted)
          sorted).map f := by
    induction items with
    | nil => exact fun sorted => rfl
    | cons b items ih =>
        intro sorted
        rw [List.map_cons, List.foldl_cons, List.foldl_cons, insertBackwards_map, ih]
  rw [sortedBy, sortedBy, List.map_reverse]
  exact congrArg List.reverse (hfold [])

/-- Inserting an element that was given after all others keeps them in order. -/
theorem pairwise_insertBackwards (horder : IsOrderOn r elements) (hp : p.1 ∈ elements)
    (hmem : ∀ q ∈ sorted, q.1 ∈ elements) (hearlier : ∀ q ∈ sorted, q.2 < p.2)
    (hsorted : sorted.Pairwise fun q s => MayPrecede r s q) :
    (insertBackwards (fun p q => r p.1 q.1) p sorted).Pairwise fun q s => MayPrecede r s q := by
  induction sorted with
  | nil => exact List.pairwise_singleton _ p
  | cons q rest ih =>
      obtain ⟨hq, hrest⟩ := List.pairwise_cons.mp hsorted
      obtain ⟨hqmem, hrestMem⟩ := List.forall_mem_cons.mp hmem
      obtain ⟨-, hrestEarlier⟩ := List.forall_mem_cons.mp hearlier
      simp only [insertBackwards]
      split
      · rename_i hpq
        refine List.pairwise_cons.mpr ⟨fun s hs => ?_, ih hrestMem hrestEarlier hrest⟩
        rcases List.mem_cons.mp ((insertBackwards_perm _ p rest).mem_iff.mp hs) with rfl | hs
        · exact ⟨horder.asymm _ hp _ hqmem hpq, .inl hpq⟩
        · exact hq s hs
      · -- The new element stands behind this one, and so behind all before it.
        rename_i hpq
        rw [Bool.not_eq_true] at hpq
        refine List.pairwise_cons.mpr ⟨fun s hs => ?_, hsorted⟩
        refine ⟨?_, .inr (hearlier s hs)⟩
        rcases List.mem_cons.mp hs with rfl | hsrest
        · exact hpq
        · exact horder.trans _ hp _ hqmem _ (hmem s hs) hpq (hq s hsrest).1

theorem pairwise_foldl_insertBackwards (horder : IsOrderOn r elements)
    (hmem : ∀ p ∈ items ++ sorted, p.1 ∈ elements) (hitems : items.Pairwise fun p q => p.2 < q.2)
    (hearlier : ∀ p ∈ items, ∀ q ∈ sorted, q.2 < p.2)
    (hsorted : sorted.Pairwise fun q s => MayPrecede r s q) :
    (items.foldl (fun sorted p => insertBackwards (fun p q => r p.1 q.1) p sorted)
      sorted).Pairwise fun q s => MayPrecede r s q := by
  induction items generalizing sorted with
  | nil => exact hsorted
  | cons p rest ih =>
      obtain ⟨hp, hrest⟩ := List.pairwise_cons.mp hitems
      obtain ⟨hpmem, hothers⟩ := List.forall_mem_cons.mp hmem
      have hinserted {q : α × Nat} :
          q ∈ insertBackwards (fun p q => r p.1 q.1) p sorted ↔ q = p ∨ q ∈ sorted := by
        rw [(insertBackwards_perm _ p sorted).mem_iff, List.mem_cons]
      refine ih (fun q hq => ?_) hrest (fun q hq s hs => ?_) (pairwise_insertBackwards horder hpmem
        (fun q hq => hothers q (List.mem_append_right _ hq)) (hearlier p List.mem_cons_self) hsorted)
      · rcases List.mem_append.mp hq with hq | hq
        · exact hothers q (List.mem_append_left _ hq)
        · rcases hinserted.mp hq with rfl | hq
          · exact hpmem
          · exact hothers q (List.mem_append_right _ hq)
      · rcases hinserted.mp hs with rfl | hs
        · exact hp q hq
        · exact hearlier q (List.mem_cons_of_mem _ hq) s hs

/-- Insertion puts elements in order and keeps the order that they were given in among those of
which none comes before the other. -/
theorem exists_order_sortedBy (horder : IsOrderOn r elements) :
    ∃ order : List (α × Nat), order.Perm elements.zipIdx ∧ order.Pairwise (MayPrecede r) ∧
      sortedBy r elements = order.map Prod.fst := by
  refine ⟨sortedBy (fun p q => r p.1 q.1) elements.zipIdx, sortedBy_perm _ _, ?_, ?_⟩
  · have hpositions : elements.zipIdx.Pairwise fun p q => p.2 < q.2 := by
      rw [← List.pairwise_map (f := Prod.snd), List.zipIdx_map_snd]
      exact List.pairwise_lt_range'
    rw [sortedBy, List.pairwise_reverse]
    refine pairwise_foldl_insertBackwards horder (fun p hp => ?_) hpositions (by simp) .nil
    rw [List.append_nil] at hp
    exact List.fst_mem_of_mem_zipIdx hp
  · rw [← sortedBy_map, List.zipIdx_map_fst]

namespace StableSort

/-- Insertion never gives up. -/
def insertion : StableSort α where
  sorted? r elements := some (sortedBy r elements)
  perm h := by
    cases h
    exact sortedBy_perm _ _
  stable horder := by
    obtain ⟨order, hperm, hsorted, heq⟩ := exists_order_sortedBy horder
    exact ⟨order, hperm, hsorted, congrArg some heq⟩

/-- Where "comes before" is an order, it makes no difference which stable sort is used. -/
theorem sorted?_eq (sort : StableSort α) (horder : IsOrderOn r elements) :
    sort.sorted? r elements = some (sortedBy r elements) := by
  obtain ⟨order, hperm, hsorted, hsort⟩ := sort.stable horder
  obtain ⟨order', hperm', hsorted', hinsertion⟩ := exists_order_sortedBy horder
  have heq : order = order' := List.Perm.eq_of_pairwise
    (fun p q _ _ hpq hqp => absurd hqp hpq.asymm) hsorted hsorted' (hperm.trans hperm'.symm)
  rw [hsort, hinsertion, heq]

end StableSort

end Cadence.Command

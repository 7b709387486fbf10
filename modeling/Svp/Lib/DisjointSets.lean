import Mathlib

/-!
# Disjoint sets

A union-find forest over the naturals: every element has a parent no greater than
itself, and the elements of one class have one root. `Joins parent link` says that
the classes are those that links lead through.

Halving a path keeps every root (`rootOf_halve`). Hanging the greater of two roots
on the smaller joins two classes, as one more link does (`Joins.union`).
-/

namespace Svp.Lib.DisjointSets

open Relation (EqvGen)

/-- No parent is greater than its child. -/
def Forest (parent : Nat → Nat) : Prop := ∀ i, parent i ≤ i

/-- The root above an element. A chain is no longer than the element is great. -/
def rootOf (parent : Nat → Nat) (i : Nat) : Nat := parent^[i] i

variable {parent : Nat → Nat} {link link' : Nat → Nat → Prop}

/-! ## Roots -/

theorem Forest.isRoot_iterate (forest : Forest parent) {n i : Nat} (le : i ≤ n) :
    parent (parent^[n] i) = parent^[n] i := by
  induction n generalizing i with
  | zero => exact Nat.le_antisymm (forest i) ((Nat.le_zero.mp le).trans_le (Nat.zero_le _))
  | succ n ih =>
    rw [Function.iterate_succ_apply]
    rcases (forest i).eq_or_lt with isRoot | lt
    · rw [isRoot, Function.iterate_fixed isRoot]
      exact isRoot
    · exact ih (Nat.le_of_lt_succ (lt.trans_le le))

theorem Forest.parent_rootOf (forest : Forest parent) (i : Nat) :
    parent (rootOf parent i) = rootOf parent i := forest.isRoot_iterate le_rfl

theorem rootOf_of_isRoot {r : Nat} (isRoot : parent r = r) : rootOf parent r = r :=
  Function.iterate_fixed isRoot r

theorem Forest.rootOf_rootOf (forest : Forest parent) (i : Nat) :
    rootOf parent (rootOf parent i) = rootOf parent i := rootOf_of_isRoot (forest.parent_rootOf i)

/-- Whatever follows the parents and keeps the roots finds the roots. -/
theorem rootOf_unique {f : Nat → Nat} (forest : Forest parent) (follows : ∀ i, f (parent i) = f i)
    (keeps : ∀ i, parent i = i → f i = i) (i : Nat) : rootOf parent i = f i := by
  have along : ∀ n, f (parent^[n] i) = f i := fun n => by
    induction n with
    | zero => rfl
    | succ n ih => rw [Function.iterate_succ_apply', follows, ih]
  rw [← along i]
  exact (keeps _ (forest.parent_rootOf i)).symm

theorem Forest.rootOf_parent (forest : Forest parent) (i : Nat) :
    rootOf parent (parent i) = rootOf parent i := by
  rcases (forest i).eq_or_lt with isRoot | lt
  · rw [isRoot]
  · have settled : ∀ n, parent i ≤ n → parent^[n] (parent i) = rootOf parent (parent i) := by
      intro n le
      induction le with
      | refl => rfl
      | step le ih => rw [Function.iterate_succ_apply', forest.isRoot_iterate le, ih]
    rw [← settled i lt.le, ← Function.iterate_succ_apply, Function.iterate_succ_apply']
    exact forest.parent_rootOf i

/-! ## Path halving -/

theorem Forest.halve (forest : Forest parent) (i : Nat) :
    Forest (Function.update parent i (parent (parent i))) := by
  intro j
  rw [Function.update_apply]
  split
  · next same =>
    rw [same]
    exact (forest _).trans (forest i)
  · exact forest j

theorem rootOf_halve (forest : Forest parent) (i : Nat) :
    rootOf (Function.update parent i (parent (parent i))) = rootOf parent := by
  funext j
  refine rootOf_unique (forest.halve i) (fun j => ?_) (fun j isRoot => ?_) j
  · rw [Function.update_apply]
    split
    · next same => rw [forest.rootOf_parent, forest.rootOf_parent, same]
    · exact forest.rootOf_parent j
  · rw [Function.update_apply] at isRoot
    split at isRoot
    · next same =>
      subst same
      -- a grandparent can only be the element itself when the parent is
      refine rootOf_of_isRoot (le_antisymm (forest j) ?_)
      exact isRoot.symm.trans_le (forest (parent j))
    · exact rootOf_of_isRoot isRoot

/-! ## Classes -/

/-- Two elements have the same root exactly when links lead from one to the other. -/
def Joins (parent : Nat → Nat) (link : Nat → Nat → Prop) : Prop :=
  ∀ i j, rootOf parent i = rootOf parent j ↔ EqvGen link i j

/-- Relations that lead through each other make the same classes. -/
theorem eqvGen_of (through : ∀ i j, link i j → EqvGen link' i j) {i j : Nat} (h : EqvGen link i j) :
    EqvGen link' i j := by
  induction h with
  | rel i j step => exact through i j step
  | refl i => exact .refl i
  | symm i j _ ih => exact .symm i j ih
  | trans i j k _ _ ih ih' => exact .trans i j k ih ih'

theorem Joins.congr (h : Joins parent link) (there : ∀ i j, link i j → EqvGen link' i j)
    (back : ∀ i j, link' i j → EqvGen link i j) : Joins parent link' := fun i j =>
  (h i j).trans ⟨eqvGen_of there, eqvGen_of back⟩

theorem Joins.rootOf (h : Joins parent link) (forest : Forest parent) (i : Nat) :
    EqvGen link i (rootOf parent i) := (h i _).mp (forest.rootOf_rootOf i).symm

/-- A forest joins every element to its parent. -/
theorem joins_parent (forest : Forest parent) : Joins parent fun i j => parent i = j := by
  intro i j
  have up : ∀ i n, EqvGen (fun i j => parent i = j) i (parent^[n] i) := fun i n => by
    induction n with
    | zero => exact .refl i
    | succ n ih =>
      rw [Function.iterate_succ_apply']
      exact .trans _ _ _ ih (.rel _ _ rfl)
  constructor
  · intro same
    refine .trans _ _ _ (up i i) (.symm _ _ ?_)
    have there := up j j
    rw [show parent^[j] j = parent^[i] i from same.symm] at there
    exact there
  · intro h
    induction h with
    | rel i j step => rw [← step, forest.rootOf_parent]
    | refl i => rfl
    | symm i j _ ih => exact ih.symm
    | trans i j k _ _ ih ih' => exact ih.trans ih'

theorem Forest.union (forest : Forest parent) {low high : Nat} (le : low ≤ high) :
    Forest (Function.update parent high low) := fun j => by
  rw [Function.update_apply]
  split
  · next same => exact le.trans same.ge
  · exact forest j

/-- The root of an element after two roots are joined. -/
theorem rootOf_union (forest : Forest parent) {low high : Nat} (le : low ≤ high)
    (isLow : parent low = low) (isHigh : parent high = high) (i : Nat) :
    rootOf (Function.update parent high low) i =
      if rootOf parent i = high then low else rootOf parent i := by
  refine @rootOf_unique _ (fun i => if rootOf parent i = high then low else rootOf parent i)
    (forest.union le) (fun j => ?_) (fun j isRoot => ?_) i
  · rw [Function.update_apply]
    split
    · next same =>
      rw [same, rootOf_of_isRoot isLow, rootOf_of_isRoot isHigh, if_pos rfl]
      split <;> rfl
    · rw [forest.rootOf_parent]
  · rw [Function.update_apply] at isRoot
    split at isRoot
    · next same =>
      rw [same, rootOf_of_isRoot isHigh, if_pos rfl, ← same, isRoot]
    · next other =>
      rw [rootOf_of_isRoot isRoot, if_neg other]

/-- Joining the roots of two elements is one more link. -/
theorem Joins.union (h : Joins parent link) (forest : Forest parent) (x y : Nat) :
    let a := DisjointSets.rootOf parent x
    let b := DisjointSets.rootOf parent y
    Joins (Function.update parent (max a b) (min a b)) fun i j => link i j ∨ i = x ∧ j = y := by
  intro a b
  have old : ∀ {i j}, EqvGen link i j → EqvGen (fun i j => link i j ∨ i = x ∧ j = y) i j :=
    eqvGen_of fun i j step => .rel i j (.inl step)
  have new := rootOf_union forest (min_le_max : min a b ≤ max a b)
    (by rcases min_choice a b with e | e <;> rw [e] <;> exact forest.parent_rootOf _)
    (by rcases max_choice a b with e | e <;> rw [e] <;> exact forest.parent_rootOf _)
  have ends : EqvGen (fun i j => link i j ∨ i = x ∧ j = y) a b :=
    .trans _ _ _ (.symm _ _ (old (h.rootOf forest x)))
      (.trans _ _ _ (.rel x y (.inr ⟨rfl, rfl⟩)) (old (h.rootOf forest y)))
  have across : EqvGen (fun i j => link i j ∨ i = x ∧ j = y) (max a b) (min a b) := by
    rcases le_total a b with le | le
    · rw [max_eq_right le, min_eq_left le]
      exact .symm _ _ ends
    · rw [max_eq_left le, min_eq_right le]
      exact ends
  have toRoot : ∀ i, EqvGen (fun i j => link i j ∨ i = x ∧ j = y) i
      (DisjointSets.rootOf (Function.update parent (max a b) (min a b)) i) := fun i => by
    have there := old (h.rootOf forest i)
    rw [new]
    split
    · next high => exact .trans _ _ _ there (high ▸ across)
    · exact there
  have low : ∀ r, r = a ∨ r = b → (if r = max a b then min a b else r) = min a b := by
    rintro r (rfl | rfl)
    · rcases le_total a b with le | le
      · rw [min_eq_left le, ite_eq_right_iff]
        exact fun _ => rfl
      · rw [max_eq_left le, if_pos rfl]
    · rcases le_total a b with le | le
      · rw [max_eq_right le, if_pos rfl]
      · rw [min_eq_right le, ite_eq_right_iff]
        exact fun _ => rfl
  intro i j
  constructor
  · intro same
    exact .trans _ _ _ (toRoot i) (same ▸ .symm _ _ (toRoot j))
  · intro joined
    induction joined with
    | rel i j step =>
      rw [new, new]
      rcases step with step | ⟨rfl, rfl⟩
      · rw [(h i j).mpr (.rel i j step)]
      · rw [low _ (.inl rfl), low _ (.inr rfl)]
    | refl i => rfl
    | symm i j _ ih => exact ih.symm
    | trans i j k _ _ ih ih' => exact ih.trans ih'

end Svp.Lib.DisjointSets

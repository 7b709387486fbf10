import Mathlib

/-!
# Best paths

A path picks one of `width` states at every position, earns `emit` there and pays `link`
between neighbours. `bestAbove` scans for the largest value above a floor. A `BestTable`
holds a total and a back pointer for every state: the path read back from a state has
that total (`BestTable.total_walkBack`), and no path to the state does better
(`BestTable.total_le`).
-/

namespace Svp.Lib

section Scan

variable {α : Type} [LinearOrder α]

/-- The first of the largest values above the floor. -/
def bestAbove (floor : α) (f : Nat → α) (width : Nat) : α × Option Nat :=
  (List.range width).foldl
    (fun best i => if best.1 < f i then (f i, some i) else best) (floor, none)

theorem bestAbove_succ (floor : α) (f : Nat → α) (width : Nat) :
    bestAbove floor f (width + 1) =
      if (bestAbove floor f width).1 < f width then (f width, some width)
      else bestAbove floor f width := by
  rw [bestAbove, List.range_succ, List.foldl_append]
  rfl

theorem bestAbove_cases (floor : α) (f : Nat → α) (width : Nat) :
    (bestAbove floor f width = (floor, none) ∧ ∀ i < width, f i ≤ floor) ∨
      ∃ k < width, bestAbove floor f width = (f k, some k) ∧ floor < f k ∧
        ∀ i < width, f i ≤ f k := by
  induction width with
  | zero => exact .inl ⟨rfl, nofun⟩
  | succ width ih =>
    rw [bestAbove_succ]
    obtain ⟨scan, least⟩ | ⟨k, inside, scan, above, largest⟩ := ih
    · rw [scan]
      split
      · next more =>
        refine .inr ⟨width, width.lt_succ_self, rfl, more, fun i hi => ?_⟩
        obtain before | rfl := Nat.lt_succ_iff_lt_or_eq.mp hi
        · exact (least i before).trans more.le
        · exact le_rfl
      · next notMore =>
        refine .inl ⟨rfl, fun i hi => ?_⟩
        obtain before | rfl := Nat.lt_succ_iff_lt_or_eq.mp hi
        · exact least i before
        · exact not_lt.mp notMore
    · rw [scan]
      right
      split
      · next more =>
        refine ⟨width, width.lt_succ_self, rfl, above.trans more, fun i hi => ?_⟩
        obtain before | rfl := Nat.lt_succ_iff_lt_or_eq.mp hi
        · exact (largest i before).trans more.le
        · exact le_rfl
      · next notMore =>
        refine ⟨k, inside.trans width.lt_succ_self, rfl, above, fun i hi => ?_⟩
        obtain before | rfl := Nat.lt_succ_iff_lt_or_eq.mp hi
        · exact largest i before
        · exact not_lt.mp notMore

/-- A value above the floor is enough for the scan to find the largest. -/
theorem bestAbove_some {floor : α} {f : Nat → α} {width i : Nat} (inside : i < width)
    (above : floor < f i) :
    ∃ k < width, bestAbove floor f width = (f k, some k) ∧ ∀ j < width, f j ≤ f k := by
  obtain ⟨-, least⟩ | ⟨k, kInside, scan, -, largest⟩ := bestAbove_cases floor f width
  · exact absurd above (least i inside).not_gt
  · exact ⟨k, kInside, scan, largest⟩

end Scan

structure Trellis (α : Type) where
  width : Nat
  emit : Nat → Nat → α
  /-- What a path pays from a state at a position to a state at the next one. -/
  link : Nat → Nat → Nat → α

section Walk

/-- The states read back from `state` at `last`. -/
def walkBack (back : Nat → Nat → Nat) : (last state i : Nat) → Nat
  | 0, state, _ => state
  | last + 1, state, i =>
    if i = last + 1 then state else walkBack back last (back (last + 1) state) i

variable {back : Nat → Nat → Nat}

@[simp] theorem walkBack_last (last state : Nat) : walkBack back last state last = state := by
  cases last with
  | zero => rfl
  | succ last => exact if_pos rfl

theorem walkBack_before {last state i : Nat} (before : i ≤ last) :
    walkBack back (last + 1) state i = walkBack back last (back (last + 1) state) i :=
  if_neg (Nat.lt_succ_of_le before).ne

end Walk

namespace Trellis

variable {α : Type} [AddCommGroup α] (t : Trellis α)

/-- What a path has earned up to a position. -/
def total (path : Nat → Nat) : Nat → α
  | 0 => t.emit 0 (path 0)
  | i + 1 => total path i - t.link i (path i) (path (i + 1)) + t.emit (i + 1) (path (i + 1))

theorem total_congr {path other : Nat → Nat} {i : Nat} (same : ∀ j ≤ i, path j = other j) :
    t.total path i = t.total other i := by
  induction i with
  | zero => rw [total, total, same 0 le_rfl]
  | succ i ih =>
    rw [total, total, ih fun j hj => same j (hj.trans i.le_succ), same i i.le_succ,
      same (i + 1) le_rfl]

theorem total_eq_sum (path : Nat → Nat) (last : Nat) :
    t.total path last = ∑ i ∈ Finset.range (last + 1), t.emit i (path i) -
      ∑ i ∈ Finset.range last, t.link i (path i) (path (i + 1)) := by
  induction last with
  | zero => simp [total]
  | succ last ih =>
    rw [total, ih, Finset.sum_range_succ _ (last + 1),
      Finset.sum_range_succ fun i => t.link i (path i) (path (i + 1))]
    abel

end Trellis

/-- A table of totals whose back pointers choose the best state before. -/
structure BestTable {α : Type} [AddCommGroup α] [LinearOrder α] (t : Trellis α) (last : Nat)
    (value : Nat → Nat → α) (back : Nat → Nat → Nat) : Prop where
  first : ∀ s < t.width, value 0 s = t.emit 0 s
  back_lt : ∀ i < last, ∀ s < t.width, back (i + 1) s < t.width
  reached : ∀ i < last, ∀ s < t.width, value (i + 1) s =
    value i (back (i + 1) s) - t.link i (back (i + 1) s) s + t.emit (i + 1) s
  largest : ∀ i < last, ∀ s < t.width, ∀ q < t.width,
    value i q - t.link i q s ≤ value i (back (i + 1) s) - t.link i (back (i + 1) s) s

namespace BestTable

variable {α : Type} [AddCommGroup α] [LinearOrder α] {t : Trellis α} {last : Nat}
  {value : Nat → Nat → α} {back : Nat → Nat → Nat}

theorem walkBack_lt (table : BestTable t last value back) {i s j : Nat} (before : i ≤ last)
    (inside : s < t.width) : walkBack back i s j < t.width := by
  induction i generalizing s with
  | zero => exact inside
  | succ i ih =>
    rw [walkBack]
    split
    · exact inside
    · exact ih (i.le_succ.trans before) (table.back_lt i before s inside)

/-- The path read back from a state earns its entry. -/
theorem total_walkBack (table : BestTable t last value back) {i s : Nat} (before : i ≤ last)
    (inside : s < t.width) : t.total (walkBack back i s) i = value i s := by
  induction i generalizing s with
  | zero => exact (table.first s inside).symm
  | succ i ih =>
    have chosen := table.back_lt i before s inside
    have earlier : t.total (walkBack back (i + 1) s) i = value i (back (i + 1) s) := by
      rw [t.total_congr fun j hj => walkBack_before hj]
      exact ih (i.le_succ.trans before) chosen
    rw [Trellis.total, earlier, walkBack_last, walkBack_before le_rfl, walkBack_last,
      table.reached i before s inside]

variable [IsOrderedAddMonoid α]

/-- No path to a state earns more than its entry. -/
theorem total_le (table : BestTable t last value back) {path : Nat → Nat} {i : Nat}
    (before : i ≤ last) (inside : ∀ j ≤ i, path j < t.width) :
    t.total path i ≤ value i (path i) := by
  induction i with
  | zero => exact (table.first _ (inside 0 le_rfl)).ge
  | succ i ih =>
    have earlier := ih (i.le_succ.trans before) fun j hj => inside j (hj.trans i.le_succ)
    have state := inside (i + 1) le_rfl
    rw [Trellis.total, table.reached i before _ state]
    have step := table.largest i before _ state _ (inside i i.le_succ)
    exact add_le_add_left ((sub_le_sub_right earlier _).trans step) _

/-- The path read back from a state with a largest entry is a best one. -/
theorem best (table : BestTable t last value back) {s : Nat} (inside : s < t.width)
    (largest : ∀ q < t.width, value last q ≤ value last s) {path : Nat → Nat}
    (valid : ∀ j ≤ last, path j < t.width) :
    t.total path last ≤ t.total (walkBack back last s) last := by
  rw [table.total_walkBack le_rfl inside]
  exact (table.total_le le_rfl valid).trans (largest _ (valid last le_rfl))

end BestTable

end Svp.Lib

import Svp.Lib.BestPath

/-!
# Best walks

A walk starts in a start state and follows moves; it earns `emit` at every position. A
`WalkTable` holds a value and a back pointer for every state, also for states no walk
has reached yet. Where what stands in for a start elsewhere cannot be made up for, the
walk read back from a best final state is a best walk (`WalkTable.best`).
-/

namespace Svp.Lib

structure MoveGraph (α : Type) where
  width : Nat
  emit : Nat → Nat → α
  start : Nat → Prop
  move : Nat → Nat → Prop
  start_lt : ∀ s, start s → s < width
  move_lt : ∀ q s, move q s → s < width

namespace MoveGraph

variable {α : Type}

structure IsWalk (g : MoveGraph α) (last : Nat) (path : Nat → Nat) : Prop where
  starts : g.start (path 0)
  moves : ∀ i < last, g.move (path i) (path (i + 1))

theorem IsWalk.lt {g : MoveGraph α} {last : Nat} {path : Nat → Nat} (walk : g.IsWalk last path)
    {i : Nat} (before : i ≤ last) : path i < g.width := by
  cases i with
  | zero => exact g.start_lt _ walk.starts
  | succ i => exact g.move_lt _ _ (walk.moves i before)

theorem IsWalk.shorter {g : MoveGraph α} {last earlier : Nat} {path : Nat → Nat}
    (walk : g.IsWalk last path) (before : earlier ≤ last) : g.IsWalk earlier path :=
  ⟨walk.starts, fun i hi => walk.moves i (hi.trans_le before)⟩

/-- A walk goes on by any move. -/
theorem IsWalk.extend {g : MoveGraph α} {last s : Nat} {path : Nat → Nat}
    (walk : g.IsWalk last path) (step : g.move (path last) s) :
    g.IsWalk (last + 1) (Function.update path (last + 1) s) := by
  refine ⟨?_, fun i hi => ?_⟩
  · rw [Function.update_of_ne last.succ_ne_zero.symm]
    exact walk.starts
  · rw [Function.update_of_ne hi.ne]
    obtain before | rfl := Nat.lt_succ_iff_lt_or_eq.mp hi
    · rw [Function.update_of_ne (Nat.succ_lt_succ before).ne]
      exact walk.moves i before
    · rw [Function.update_self]
      exact step

variable [AddCommMonoid α]

/-- What a path earns. -/
def total (g : MoveGraph α) (path : Nat → Nat) (last : Nat) : α :=
  ∑ i ∈ Finset.range (last + 1), g.emit i (path i)

theorem total_succ (g : MoveGraph α) (path : Nat → Nat) (last : Nat) :
    g.total path (last + 1) = g.total path last + g.emit (last + 1) (path (last + 1)) :=
  Finset.sum_range_succ _ _

/-- What a path earns after its first position. -/
def later (g : MoveGraph α) (path : Nat → Nat) (last : Nat) : α :=
  ∑ i ∈ Finset.range last, g.emit (i + 1) (path (i + 1))

theorem later_succ (g : MoveGraph α) (path : Nat → Nat) (last : Nat) :
    g.later path (last + 1) = g.later path last + g.emit (last + 1) (path (last + 1)) :=
  Finset.sum_range_succ _ _

theorem total_eq_later (g : MoveGraph α) (path : Nat → Nat) (last : Nat) :
    g.total path last = g.emit 0 (path 0) + g.later path last := by
  rw [total, Finset.sum_range_succ', add_comm, later]

end MoveGraph

/-- A table whose back pointers choose the best state a move leads from. -/
structure WalkTable {α : Type} [AddCommMonoid α] [LinearOrder α] (g : MoveGraph α) (last : Nat)
    (value : Nat → Nat → α) (back : Nat → Nat → Nat) : Prop where
  first : ∀ s, g.start s → value 0 s = g.emit 0 s
  back_lt : ∀ i < last, ∀ s < g.width, back (i + 1) s < g.width
  back_move : ∀ i < last, ∀ s < g.width, g.move (back (i + 1) s) s
  reached : ∀ i < last, ∀ s < g.width,
    value (i + 1) s = value i (back (i + 1) s) + g.emit (i + 1) s
  largest : ∀ i < last, ∀ s q, g.move q s → value i q ≤ value i (back (i + 1) s)

namespace WalkTable

variable {α : Type} [AddCommMonoid α] [LinearOrder α] {g : MoveGraph α} {last : Nat}
  {value : Nat → Nat → α} {back : Nat → Nat → Nat}

theorem walkBack_lt (table : WalkTable g last value back) {i s j : Nat} (before : i ≤ last)
    (inside : s < g.width) : walkBack back i s j < g.width := by
  induction i generalizing s with
  | zero => exact inside
  | succ i ih =>
    rw [walkBack]
    split
    · exact inside
    · exact ih (i.le_succ.trans before) (table.back_lt i before s inside)

/-- The states read back follow moves. -/
theorem move_walkBack (table : WalkTable g last value back) {i s j : Nat} (before : i ≤ last)
    (inside : s < g.width) (early : j < i) :
    g.move (walkBack back i s j) (walkBack back i s (j + 1)) := by
  induction i generalizing s with
  | zero => exact absurd early j.not_lt_zero
  | succ i ih =>
    rw [walkBack_before (Nat.le_of_lt_succ early)]
    obtain earlier | rfl := Nat.lt_succ_iff_lt_or_eq.mp early
    · rw [walkBack_before earlier]
      exact ih (i.le_succ.trans before) (table.back_lt i before s inside) earlier
    · rw [walkBack_last, walkBack_last]
      exact table.back_move j before s inside

/-- An entry is the value its path starts from and what the path earns after that. -/
theorem value_eq (table : WalkTable g last value back) {i s : Nat} (before : i ≤ last)
    (inside : s < g.width) :
    value i s = value 0 (walkBack back i s 0) + g.later (walkBack back i s) i := by
  induction i generalizing s with
  | zero => simp [walkBack, MoveGraph.later]
  | succ i ih =>
    have same : g.later (walkBack back (i + 1) s) i =
        g.later (walkBack back i (back (i + 1) s)) i :=
      Finset.sum_congr rfl fun j hj => by
        rw [walkBack_before (Finset.mem_range.mp hj)]
    rw [table.reached i before s inside, ih (i.le_succ.trans before) (table.back_lt i before s inside),
      walkBack_before i.zero_le, g.later_succ, same, walkBack_last, add_assoc]

/-- A walk read back from a state earns its entry. -/
theorem total_walkBack (table : WalkTable g last value back) {i s : Nat} (before : i ≤ last)
    (inside : s < g.width) (starts : g.start (walkBack back i s 0)) :
    g.total (walkBack back i s) i = value i s := by
  rw [table.value_eq before inside, table.first _ starts, MoveGraph.total_eq_later]

variable [IsOrderedAddMonoid α]

/-- No walk to a state earns more than its entry. -/
theorem total_le (table : WalkTable g last value back) {path : Nat → Nat} {i : Nat}
    (before : i ≤ last) (walk : g.IsWalk i path) : g.total path i ≤ value i (path i) := by
  induction i with
  | zero =>
    rw [table.first _ walk.starts, MoveGraph.total, Finset.sum_range_one]
  | succ i ih =>
    have step := walk.moves i i.lt_succ_self
    rw [MoveGraph.total_succ, table.reached i before _ (walk.lt le_rfl)]
    have earlier := ih (i.le_succ.trans before) (walk.shorter i.le_succ)
    exact add_le_add_left (earlier.trans (table.largest i before _ _ step)) _

/-- The path read back from a best final state is a best walk, where no walk is beaten
by what starts outside the start states. -/
theorem best (table : WalkTable g last value back) {final : Nat → Prop} {s : Nat}
    (inside : s < g.width) (largest : ∀ q, final q → q < g.width → value last q ≤ value last s)
    (apart : ∀ q < g.width, ¬g.start q → ∀ path other, g.IsWalk last path →
      (∀ i, other i < g.width) → value 0 q + g.later other last < g.total path last)
    {path : Nat → Nat} (walk : g.IsWalk last path) (ends : final (path last)) :
    g.IsWalk last (walkBack back last s) ∧
      g.total path last ≤ g.total (walkBack back last s) last := by
  have bound : g.total path last ≤ value last s :=
    (table.total_le le_rfl walk).trans (largest _ ends (walk.lt le_rfl))
  have starts : g.start (walkBack back last s 0) := by
    by_contra outside
    have beaten := apart _ (table.walkBack_lt le_rfl inside) outside path (walkBack back last s) walk
      fun _ => table.walkBack_lt le_rfl inside
    rw [← table.value_eq le_rfl inside] at beaten
    exact beaten.not_ge bound
  refine ⟨⟨starts, fun i before => table.move_walkBack le_rfl inside before⟩, ?_⟩
  rw [table.total_walkBack le_rfl inside starts]
  exact bound

end WalkTable

end Svp.Lib

import Mathlib

/-!
# Lower envelopes

Curves `f p`, numbered by `p`, that cross their predecessors once: from `cross q p` on the
later curve `q` is below `p`, before it above. An `Envelope` of the first `count` curves is
a stack of curves and of bounds between them, each curve lowest between its two bounds.
A new curve pops those whose segments it beats (`Envelope.beats_pop`) and is pushed on the
rest (`Envelope.push`).
-/

namespace Svp.Lib

/-- A point or one of the two ends. -/
abbrev Bound (α : Type) := WithBot (WithTop α)

variable {α β : Type} [LinearOrder α] [LinearOrder β]

/-- Later curves cross earlier ones once, from above. -/
structure SingleCrossing (f : Nat → α → β) (cross : Nat → Nat → α) : Prop where
  below_iff : ∀ {p q : Nat} {x : α}, p < q → (f q x ≤ f p x ↔ cross q p ≤ x)
  above_iff : ∀ {p q : Nat} {x : α}, p < q → (f p x ≤ f q x ↔ x ≤ cross q p)

/-- The curves `hull 0` to `hull k` are lowest, each from its bound to the next. -/
structure Envelope (f : Nat → α → β) (count : Nat) (hull : Nat → Nat) (bound : Nat → Bound α)
    (k : Nat) : Prop where
  size : k < count
  hull_lt : ∀ j ≤ k, hull j < count
  first : bound 0 = ⊥
  last : bound (k + 1) = ⊤
  increasing : ∀ j ≤ k, bound j < bound (j + 1)
  lowest : ∀ j ≤ k, ∀ x : α, bound j ≤ (x : Bound α) → (x : Bound α) ≤ bound (j + 1) →
    ∀ p < count, f (hull j) x ≤ f p x

/-- From `b` on the curve `q` is below all earlier ones. -/
def BeatsFrom (f : Nat → α → β) (q : Nat) (b : Bound α) : Prop :=
  ∀ x : α, b ≤ (x : Bound α) → ∀ p < q, f q x ≤ f p x

theorem beatsFrom_top (f : Nat → α → β) (q : Nat) : BeatsFrom f q ⊤ := by
  intro x above
  exact absurd (WithBot.coe_le_coe.mp above) (WithTop.coe_lt_top x).not_ge

namespace Envelope

variable {f : Nat → α → β} {cross : Nat → Nat → α} {q k : Nat} {hull : Nat → Nat}
  {bound : Nat → Bound α}

theorem one {f : Nat → α → β} {hull : Nat → Nat} {bound : Nat → Bound α} (curve : hull 0 = 0)
    (first : bound 0 = ⊥) (last : bound 1 = ⊤) : Envelope f 1 hull bound 0 where
  size := zero_lt_one
  hull_lt j within := by rw [Nat.le_zero.mp within, curve]; exact zero_lt_one
  first := first
  last := last
  increasing j within := by
    rw [Nat.le_zero.mp within, first, last]
    exact bot_lt_top
  lowest j within x _ _ p only := by rw [Nat.le_zero.mp within, curve, Nat.lt_one_iff.mp only]

theorem bound_mono (env : Envelope f q hull bound k) {i j : Nat} (le : i ≤ j)
    (within : j ≤ k + 1) : bound i ≤ bound j := by
  induction j, le using Nat.le_induction with
  | base => exact le_rfl
  | succ j _ ih =>
    have step := env.increasing j (Nat.le_of_succ_le_succ within)
    exact (ih (j.le_succ.trans within)).trans step.le

/-- A segment whose start is not before the crossing is beaten as a whole. -/
theorem beats_pop (single : SingleCrossing f cross) (env : Envelope f q hull bound k) {j : Nat}
    (within : j ≤ k) (beats : BeatsFrom f q (bound (j + 1)))
    (popped : (cross q (hull j) : Bound α) ≤ bound j) : BeatsFrom f q (bound j) := by
  intro x from_ p earlier
  rcases le_total (x : Bound α) (bound (j + 1)) with inside | beyond
  · have crossed : cross q (hull j) ≤ x :=
      WithTop.coe_le_coe.mp (WithBot.coe_le_coe.mp (popped.trans from_))
    have below := (single.below_iff (env.hull_lt j within)).mpr crossed
    exact below.trans (env.lowest j within x from_ inside p earlier)
  · exact beats x beyond p earlier

/-- The first segment is never popped. -/
theorem not_popped_first (env : Envelope f q hull bound k) (s : α) : ¬ (s : Bound α) ≤ bound 0 := by
  rw [env.first, le_bot_iff]
  exact WithBot.coe_ne_bot

theorem push (single : SingleCrossing f cross) (env : Envelope f q hull bound k) {j : Nat}
    (within : j ≤ k) (beats : BeatsFrom f q (bound (j + 1)))
    (kept : bound j < (cross q (hull j) : Bound α)) {hull' : Nat → Nat} {bound' : Nat → Bound α}
    (hulls : ∀ i ≤ j, hull' i = hull i) (curve : hull' (j + 1) = q)
    (bounds : ∀ i ≤ j, bound' i = bound i) (start : bound' (j + 1) = (cross q (hull j) : Bound α))
    (last : bound' (j + 1 + 1) = ⊤) : Envelope f (q + 1) hull' bound' (j + 1) := by
  have top := env.hull_lt j within
  have start_le : ∀ {x : α}, bound' (j + 1) ≤ (x : Bound α) ↔ cross q (hull j) ≤ x := by
    intro x
    rw [start]
    exact WithBot.coe_le_coe.trans WithTop.coe_le_coe
  have le_start : ∀ {x : α}, (x : Bound α) ≤ bound' (j + 1) ↔ x ≤ cross q (hull j) := by
    intro x
    rw [start]
    exact WithBot.coe_le_coe.trans WithTop.coe_le_coe
  have later : ∀ {i : Nat}, i ≤ j + 1 → i = j + 1 ∨ i ≤ j := fun le =>
    (Nat.le_succ_iff.mp le).symm
  refine ⟨Nat.succ_lt_succ (within.trans_lt env.size), ?_, ?_, last, ?_, ?_⟩
  · intro i le
    obtain rfl | le := later le
    · rw [curve]
      exact q.lt_succ_self
    · rw [hulls i le]
      exact (env.hull_lt i (le.trans within)).trans q.lt_succ_self
  · rw [bounds 0 j.zero_le, env.first]
  · intro i le
    obtain rfl | le := later le
    · rw [start, last]
      exact WithBot.coe_lt_coe.mpr (WithTop.coe_lt_top _)
    · obtain rfl | before := eq_or_lt_of_le le
      · rw [bounds i le, start]
        exact kept
      · rw [bounds i le, bounds (i + 1) before]
        exact env.increasing i (le.trans within)
  · intro i le x from_ to_ p earlier
    obtain rfl | le := later le
    · rw [curve]
      obtain before | rfl := Nat.lt_succ_iff_lt_or_eq.mp earlier
      · rcases le_total (x : Bound α) (bound (j + 1)) with inside | beyond
        · have after : bound j ≤ (x : Bound α) := by
            rw [start] at from_
            exact kept.le.trans from_
          have crossed := (single.below_iff top).mpr (start_le.mp from_)
          exact crossed.trans (env.lowest j within x after inside p before)
        · exact beats x beyond p before
      · exact le_rfl
    · rw [hulls i le]
      rw [bounds i le] at from_
      -- up to the crossing the old top is below the new curve, and `hull i` below that
      have beneath : f (hull i) x ≤ f q x := by
        obtain rfl | before := eq_or_lt_of_le le
        · exact (single.above_iff top).mpr (le_start.mp to_)
        · rw [bounds (i + 1) before] at to_
          have reach := (to_.trans (env.bound_mono before (within.trans k.le_succ))).trans kept.le
          rw [← start] at reach
          have lower := env.lowest i (le.trans within) x from_ to_ (hull j) top
          exact lower.trans ((single.above_iff top).mpr (le_start.mp reach))
      obtain before | rfl := Nat.lt_succ_iff_lt_or_eq.mp earlier
      · rcases le_total (x : Bound α) (bound (i + 1)) with inside | beyond
        · exact env.lowest i (le.trans within) x from_ inside p before
        · obtain rfl | lower := eq_or_lt_of_le le
          · exact beneath.trans (beats x beyond p before)
          · rw [bounds (i + 1) lower] at to_
            exact env.lowest i (le.trans within) x from_ to_ p before
      · exact beneath

end Envelope

end Svp.Lib

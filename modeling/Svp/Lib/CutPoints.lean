import Mathlib

/-!
# Cut points of a segment

Cut points spaced by two passes over the list: `raise` moves each point up to a gap
behind the one before, `lower` moves them down from the last one. The spans between
neighbours tile the segment, so a position lies in one of them only.
-/

namespace Svp.Lib

section Passes

variable {ι : Type*} [AddCommGroup ι] [LinearOrder ι] (gap : ι)

/-- Neighbours are at least `gap` apart. -/
def Spaced {ι : Type*} [Add ι] [LE ι] (gap : ι) (points : List ι) : Prop :=
  points.IsChain fun x y => x + gap ≤ y

def raise (before : ι) : List ι → List ι
  | [] => []
  | point :: rest => max point (before + gap) :: raise (max point (before + gap)) rest

/-- The first of `points ++ [last]` when they are lowered. -/
def lowerHead (last : ι) : List ι → ι
  | [] => last
  | point :: rest => min point (lowerHead last rest - gap)

def lower (last : ι) : List ι → List ι
  | [] => [last]
  | point :: rest => lowerHead gap last (point :: rest) :: lower last rest

@[simp] theorem length_raise (before : ι) (points : List ι) :
    (raise gap before points).length = points.length := by
  induction points generalizing before with
  | nil => rfl
  | cons point rest ih => rw [raise, List.length_cons, List.length_cons, ih]

@[simp] theorem length_lower (last : ι) (points : List ι) :
    (lower gap last points).length = points.length + 1 := by
  induction points with
  | nil => rfl
  | cons point rest ih => rw [lower, List.length_cons, List.length_cons, ih]

theorem spaced_raise (before : ι) (points : List ι) :
    Spaced gap (before :: raise gap before points) := by
  induction points generalizing before with
  | nil => exact .singleton before
  | cons point rest ih => exact .cons_cons (le_max_right _ _) (ih _)

theorem getLast_raise (before : ι) (points : List ι) (last : ι) :
    last ≤ (before :: raise gap before (points ++ [last])).getLast (List.cons_ne_nil _ _) := by
  induction points generalizing before with
  | nil => exact le_max_left _ _
  | cons point rest ih => exact ih (max point (before + gap))

theorem head_lower (last : ι) (points : List ι) :
    ∃ rest, lower gap last points = lowerHead gap last points :: rest := by
  cases points with
  | nil => exact ⟨[], rfl⟩
  | cons point rest => exact ⟨lower gap last rest, rfl⟩

theorem getLast?_lower (last : ι) (points : List ι) :
    (lower gap last points).getLast? = some last := by
  induction points with
  | nil => rfl
  | cons point rest ih =>
    obtain ⟨after, split⟩ := head_lower gap last rest
    rw [lower, split, List.getLast?_cons_cons, ← split, ih]

variable [IsOrderedAddMonoid ι]

theorem spaced_lower (last : ι) (points : List ι) : Spaced gap (lower gap last points) := by
  induction points with
  | nil => exact .singleton last
  | cons point rest ih =>
    obtain ⟨after, split⟩ := head_lower gap last rest
    rw [lower, split]
    rw [split] at ih
    refine .cons_cons ?_ ih
    have below : lowerHead gap last (point :: rest) ≤ lowerHead gap last rest - gap :=
      min_le_right _ _
    exact le_sub_iff_add_le.mp below

variable {gap}

/-- Points with room enough before the last one are not lowered past the first. -/
theorem le_lowerHead {first last : ι} {points : List ι} (spaced : Spaced gap points)
    (starts : ∀ point ∈ points.head?, first ≤ point) (room : first + points.length • gap ≤ last) :
    first ≤ lowerHead gap last points := by
  induction points generalizing first with
  | nil => simpa [lowerHead] using room
  | cons point rest ih =>
    have at_ : first ≤ point := starts point rfl
    have next : first + gap ≤ lowerHead gap last rest := by
      refine ih spaced.tail (fun after mem => ?_) ?_
      · cases rest with
        | nil => cases mem
        | cons head tail =>
          cases mem
          exact (add_le_add_left at_ gap).trans (List.isChain_cons_cons.mp spaced).1
      · rw [List.length_cons, succ_nsmul'] at room
        rwa [add_assoc]
    exact le_min at_ (le_sub_iff_add_le.mpr next)

end Passes

/-- The spans between neighbours. -/
def spans {ι : Type*} (points : List ι) : List (ι × ι) := points.zip points.tail

section Tiles

variable {α ι : Type*} [LinearOrder ι]

/-- The items are laid end to end from `first` to `last`, none reversed. -/
def Tiles (start stop : α → ι) : ι → List α → ι → Prop
  | first, [], last => first = last
  | first, item :: rest, last =>
    start item = first ∧ start item ≤ stop item ∧ Tiles start stop (stop item) rest last

theorem Spaced.mem_spans [Add ι] {gap : ι} {points : List ι} (spaced : Spaced gap points)
    {span : ι × ι} (mem : span ∈ spans points) : span.1 + gap ≤ span.2 := by
  induction points with
  | nil => cases mem
  | cons point rest ih =>
    cases rest with
    | nil => cases mem
    | cons next rest =>
      rcases List.mem_cons.mp mem with rfl | mem
      · exact (List.isChain_cons_cons.mp spaced).1
      · exact ih spaced.tail mem

theorem tiles_map {start stop : α → ι} {first last : ι} {items : List α} :
    Tiles Prod.fst Prod.snd first (items.map fun item => (start item, stop item)) last ↔
      Tiles start stop first items last := by
  induction items generalizing first with
  | nil => exact .rfl
  | cons item rest ih => exact and_congr_right' (and_congr_right' ih)

theorem tiles_spans {first last : ι} {points : List ι} (sorted : points.IsChain (· ≤ ·))
    (starts : points.head? = some first) (ends : points.getLast? = some last) :
    Tiles Prod.fst Prod.snd first (spans points) last := by
  induction points generalizing first with
  | nil => cases starts
  | cons point rest ih =>
    cases starts
    cases rest with
    | nil => exact Option.some.inj ends
    | cons next rest =>
      obtain ⟨le, sorted⟩ := List.isChain_cons_cons.mp sorted
      exact ⟨rfl, le, ih sorted rfl (by rwa [List.getLast?_cons_cons] at ends)⟩

variable {start stop : α → ι} {first last : ι} {items : List α}

theorem Tiles.le (tiles : Tiles start stop first items last) : first ≤ last := by
  induction items generalizing first with
  | nil => exact tiles.le
  | cons item rest ih =>
    obtain ⟨rfl, forward, tiles⟩ := tiles
    exact forward.trans (ih tiles)

theorem Tiles.mem (tiles : Tiles start stop first items last) {item : α} (mem : item ∈ items) :
    first ≤ start item ∧ stop item ≤ last := by
  induction items generalizing first with
  | nil => cases mem
  | cons head rest ih =>
    obtain ⟨rfl, forward, tiles⟩ := tiles
    rcases List.mem_cons.mp mem with rfl | mem
    · exact ⟨le_rfl, tiles.le⟩
    · exact ⟨forward.trans (ih tiles mem).1, (ih tiles mem).2⟩

/-- Items that are not empty start one after the other. -/
theorem Tiles.sorted (tiles : Tiles start stop first items last)
    (some_ : ∀ item ∈ items, start item < stop item) :
    (items.map start).Pairwise (· < ·) := by
  induction items generalizing first with
  | nil => exact .nil
  | cons head rest ih =>
    obtain ⟨-, -, tiles⟩ := tiles
    refine List.pairwise_cons.mpr ⟨?_, ih tiles fun item mem => some_ item (.tail _ mem)⟩
    intro later mem
    obtain ⟨item, among, rfl⟩ := List.mem_map.mp mem
    exact (some_ head List.mem_cons_self).trans_le (tiles.mem among).1

/-- A position inside an item is inside no other. -/
theorem Tiles.filter_eq (tiles : Tiles start stop first items last) {item : α} (mem : item ∈ items)
    {position : ι} (inside : start item ≤ position ∧ position < stop item) :
    items.filter (fun x => start x ≤ position ∧ position < stop x) = [item] := by
  induction items generalizing first with
  | nil => cases mem
  | cons head rest ih =>
    obtain ⟨rfl, -, tiles⟩ := tiles
    rcases List.mem_cons.mp mem with rfl | mem
    · rw [List.filter_cons_of_pos (by simpa using inside), List.filter_eq_nil_iff.mpr]
      intro later at_
      have behind := (tiles.mem at_).1
      simpa using fun starts => absurd (inside.2.trans_le behind) (not_lt.mpr starts)
    · have behind : stop head ≤ position := (tiles.mem mem).1.trans inside.1
      rw [List.filter_cons_of_neg (by simpa using fun _ => behind)]
      exact ih tiles mem

end Tiles

end Svp.Lib

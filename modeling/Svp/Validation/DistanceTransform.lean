import Svp.Lib.LowerEnvelope

/-!
# Boundary distances

`distanceTransform1d` is the lower envelope of the parabolas at the pixels of a line, and
`squaredDistanceTo` runs it over the columns and then the rows of a raster. Numbers are
exact. A read or write outside an array is `none`.
-/

namespace Svp.Validation

open Lib (Bound SingleCrossing Envelope BeatsFrom beatsFrom_top)

/-! ## The program -/

/-- An array write. -/
def write {α : Type} (xs : List α) (i : Nat) (x : α) : Option (List α) :=
  if i < xs.length then some (xs.set i x) else none

def parabolaIntersection (values : List ℚ) (q p : Nat) : Option ℚ := do
  let atQ ← values[q]?
  let atP ← values[p]?
  return ((atQ + q * q) - (atP + p * p)) / (2 * q - 2 * p)

structure Hull where
  hull : List Nat
  bounds : List (Bound ℚ)
  k : Nat

/-- The intersection with the top of the stack at `k`, and whether it pops it. -/
def testTop (values : List ℚ) (stack : Hull) (q k : Nat) : Option (ℚ × Bool) := do
  let top ← stack.hull[k]?
  let s ← parabolaIntersection values q top
  let bound ← stack.bounds[k]?
  return (s, decide ((s : Bound ℚ) ≤ bound))

/-- The `while` loop that pops, from `k` down; there is nothing below 0. -/
def popHull (values : List ℚ) (stack : Hull) (q : Nat) : Nat → Option (Nat × ℚ)
  | 0 => do
    let (s, pops) ← testTop values stack q 0
    if pops then none else return (0, s)
  | k + 1 => do
    let (s, pops) ← testTop values stack q (k + 1)
    if pops then popHull values stack q k else return (k + 1, s)

def pushParabola (values : List ℚ) (stack : Hull) (q : Nat) : Option Hull := do
  let (k, s) ← popHull values stack q stack.k
  let hull ← write stack.hull (k + 1) q
  let bounds ← write stack.bounds (k + 1) (s : Bound ℚ)
  let bounds ← write bounds (k + 2) ⊤
  return ⟨hull, bounds, k + 1⟩

/-- The stack of the first parabola. The other entries of the arrays are zero. -/
def firstHull (count : Nat) : Hull where
  hull := List.replicate count 0
  bounds := ⊥ :: ⊤ :: List.replicate (count - 1) ((0 : ℚ) : Bound ℚ)
  k := 0

def lowerHull (values : List ℚ) : Option Hull :=
  (List.range' 1 (values.length - 1)).foldlM (pushParabola values) (firstHull values.length)

/-- The `while` loop over `bounds[k + 1]` and what follows. -/
def advance (q : ℚ) : List (Bound ℚ) → Nat → Option Nat
  | [], _ => none
  | bound :: later, k => if bound < (q : Bound ℚ) then advance q later (k + 1) else some k

def outputAt (values : List ℚ) (stack : Hull) (state : Nat × List ℚ) (q : Nat) :
    Option (Nat × List ℚ) := do
  let k ← advance q (stack.bounds.drop (state.1 + 1)) state.1
  let p ← stack.hull[k]?
  let atP ← values[p]?
  let delta : ℚ := q - p
  return (k, state.2 ++ [delta * delta + atP])

def distanceTransform1d (values : List ℚ) : Option (List ℚ) :=
  if values.length = 0 then some values
  else do
    let stack ← lowerHull values
    let (_, output) ← (List.range values.length).foldlM (outputAt values stack) (0, [])
    return output

/-- The line of a field at those indices. -/
def gather (field : List ℚ) (index : Nat → Nat) (count : Nat) : Option (List ℚ) :=
  (List.range count).mapM fun i => field[index i]?

/-- The line written back. -/
def scatter (field values : List ℚ) (index : Nat → Nat) (count : Nat) : Option (List ℚ) :=
  (List.range count).foldlM (fun field i => do write field (index i) (← values[i]?)) field

/-- One line of the field replaced by its transform. -/
def transformLine (index : Nat → Nat) (count : Nat) (field : List ℚ) : Option (List ℚ) := do
  let line ← gather field index count
  let line ← distanceTransform1d line
  scatter field line index count

def squaredDistanceTo (seeds : List UInt8) (width height : Nat) : Option (List ℚ) := do
  let far : ℚ := 2 * (width * width + height * height) + 1
  let field := seeds.map fun seed => if seed ≠ 0 then 0 else far
  let field ← (List.range width).foldlM
    (fun field x => transformLine (fun y => y * width + x) height field) field
  (List.range height).foldlM
    (fun field y => transformLine (fun x => y * width + x) width field) field

/-! ## The envelope of a line -/

def parabola (values : List ℚ) (p : Nat) (x : ℚ) : ℚ := (x - p) ^ 2 + values.getD p 0

def crossing (values : List ℚ) (q p : Nat) : ℚ :=
  ((values.getD q 0 + q * q) - (values.getD p 0 + p * p)) / (2 * q - 2 * p)

def Hull.hullAt (stack : Hull) (j : Nat) : Nat := stack.hull.getD j 0

def Hull.boundAt (stack : Hull) (j : Nat) : Bound ℚ := stack.bounds.getD j ⊤

/-- The stack after the first `q` parabolas. -/
structure Hull.Covers (stack : Hull) (values : List ℚ) (q : Nat) : Prop where
  hull_length : stack.hull.length = values.length
  bounds_length : stack.bounds.length = values.length + 1
  envelope : Envelope (parabola values) q stack.hullAt stack.boundAt stack.k

section Line

variable {values : List ℚ} {stack : Hull} {q j k : Nat}

theorem parabola_crossing (values : List ℚ) :
    SingleCrossing (parabola values) (crossing values) := by
  have apart : ∀ {p q : Nat}, p < q → (0 : ℚ) < 2 * q - 2 * p := by
    intro p q before
    have : (p : ℚ) < q := Nat.cast_lt.mpr before
    linarith
  constructor
  · intro p q x before
    rw [crossing, div_le_iff₀ (apart before), parabola, parabola]
    constructor <;> intro <;> linarith
  · intro p q x before
    rw [crossing, le_div_iff₀ (apart before), parabola, parabola]
    constructor <;> intro <;> linarith

theorem getElem?_eq_getD {α : Type} {xs : List α} {i : Nat} (inside : i < xs.length) (d : α) :
    xs[i]? = some (xs.getD i d) := by
  rw [List.getElem?_eq_getElem inside, List.getD_eq_getElem _ _ inside]

theorem write_eq {α : Type} {xs : List α} {i : Nat} (inside : i < xs.length) (x : α) :
    write xs i x = some (xs.set i x) := if_pos inside

theorem getD_set {α : Type} {xs : List α} {i : Nat} (inside : i < xs.length) (x d : α) (j : Nat) :
    (xs.set i x).getD j d = if j = i then x else xs.getD j d := by
  rw [List.getD_eq_getElem?_getD, List.getD_eq_getElem?_getD, List.getElem?_set]
  split
  · next same => rw [if_pos same.symm, Option.getD_some]
  · next other => rw [if_neg fun same => other same.symm]

theorem parabolaIntersection_eq {p : Nat} (q_lt : q < values.length) (p_lt : p < values.length) :
    parabolaIntersection values q p = some (crossing values q p) := by
  rw [parabolaIntersection, getElem?_eq_getD q_lt 0, getElem?_eq_getD p_lt 0]
  rfl

theorem testTop_eq (covers : stack.Covers values q) (q_lt : q < values.length) (le : j ≤ stack.k) :
    testTop values stack q j = some (crossing values q (stack.hullAt j),
      decide ((crossing values q (stack.hullAt j) : Bound ℚ) ≤ stack.boundAt j)) := by
  have j_lt : j < values.length := (le.trans_lt covers.envelope.size).trans q_lt
  have top := (covers.envelope.hull_lt j le).trans q_lt
  rw [testTop, getElem?_eq_getD (by rwa [covers.hull_length]) 0]
  simp only [Option.bind_eq_bind, Option.bind_some]
  rw [show stack.hull.getD j 0 = stack.hullAt j from rfl, parabolaIntersection_eq q_lt top,
    getElem?_eq_getD (by rw [covers.bounds_length]; exact j_lt.trans (Nat.lt_succ_self _)) ⊤]
  rfl

/-- Popping stops at a segment that the new parabola enters from above. -/
theorem popHull_eq (covers : stack.Covers values q) (q_lt : q < values.length) (le : j ≤ stack.k)
    (beats : BeatsFrom (parabola values) q (stack.boundAt (j + 1))) :
    ∃ i ≤ j, popHull values stack q j = some (i, crossing values q (stack.hullAt i)) ∧
      BeatsFrom (parabola values) q (stack.boundAt (i + 1)) ∧
      stack.boundAt i < (crossing values q (stack.hullAt i) : Bound ℚ) := by
  induction j with
  | zero =>
    have stays := covers.envelope.not_popped_first (crossing values q (stack.hullAt 0))
    refine ⟨0, le_rfl, ?_, beats, not_le.mp stays⟩
    rw [popHull, testTop_eq covers q_lt le, decide_eq_false stays]
    rfl
  | succ j ih =>
    rw [popHull, testTop_eq covers q_lt le]
    by_cases pops : (crossing values q (stack.hullAt (j + 1)) : Bound ℚ) ≤ stack.boundAt (j + 1)
    · have further := covers.envelope.beats_pop (parabola_crossing values) le beats pops
      obtain ⟨i, below, popped, rest⟩ := ih (j.le_succ.trans le) further
      refine ⟨i, below.trans j.le_succ, ?_, rest⟩
      rw [decide_eq_true pops]
      exact popped
    · refine ⟨j + 1, le_rfl, ?_, beats, not_le.mp pops⟩
      rw [decide_eq_false pops]
      rfl

theorem pushParabola_covers (covers : stack.Covers values q) (q_lt : q < values.length) :
    ∃ stack', pushParabola values stack q = some stack' ∧ stack'.Covers values (q + 1) := by
  have none_after : BeatsFrom (parabola values) q (stack.boundAt (stack.k + 1)) := by
    rw [covers.envelope.last]
    exact beatsFrom_top _ q
  obtain ⟨i, le, popped, beats, kept⟩ := popHull_eq covers q_lt le_rfl none_after
  have i_lt : i + 1 < values.length := (Nat.succ_le_succ le).trans_lt
    ((Nat.succ_le_of_lt covers.envelope.size).trans_lt q_lt)
  have hull_lt : i + 1 < stack.hull.length := by rwa [covers.hull_length]
  have bounds_lt : i + 1 < stack.bounds.length := by
    rw [covers.bounds_length]
    exact i_lt.trans (Nat.lt_succ_self _)
  have next_lt : i + 2 < (stack.bounds.set (i + 1)
      (crossing values q (stack.hullAt i) : Bound ℚ)).length := by
    rw [List.length_set, covers.bounds_length]
    exact Nat.succ_lt_succ i_lt
  rw [pushParabola, popped]
  simp only [Option.bind_eq_bind, Option.bind_some, write_eq hull_lt, write_eq bounds_lt,
    write_eq next_lt]
  have hulls := getD_set hull_lt q 0
  have bounds := fun j => (getD_set next_lt ⊤ ⊤ j).trans
    (congrArg (ite (j = i + 2) ⊤) (getD_set bounds_lt _ ⊤ j))
  refine ⟨_, rfl, ?_, ?_, ?_⟩
  · rw [List.length_set, covers.hull_length]
  · rw [List.length_set, List.length_set, covers.bounds_length]
  · refine covers.envelope.push (parabola_crossing values) le beats kept
      (fun j le => ?_) ?_ (fun j le => ?_) ?_ ?_
    · exact (hulls j).trans (if_neg (Nat.lt_succ_of_le le).ne)
    · exact (hulls (i + 1)).trans (if_pos rfl)
    · refine (bounds j).trans ((if_neg ?_).trans (if_neg (Nat.lt_succ_of_le le).ne))
      exact (Nat.lt_succ_of_le (le.trans i.le_succ)).ne
    · exact (bounds (i + 1)).trans ((if_neg (Nat.lt_succ_self _).ne).trans (if_pos rfl))
    · exact (bounds (i + 2)).trans (if_pos rfl)

/-- The envelope of all parabolas is found, one push after the other. -/
theorem lowerHull_covers (filled : values.length ≠ 0) :
    ∃ stack, lowerHull values = some stack ∧ stack.Covers values values.length := by
  have run : ∀ n < values.length, ∃ stack,
      (List.range' 1 n).foldlM (pushParabola values) (firstHull values.length) = some stack ∧
        stack.Covers values (n + 1) := by
    intro n
    induction n with
    | zero =>
      intro _
      refine ⟨_, rfl, List.length_replicate, ?_, ?_⟩
      · rw [firstHull, List.length_cons, List.length_cons, List.length_replicate]
        exact congrArg (· + 1) (Nat.succ_pred filled)
      · refine Envelope.one ?_ rfl rfl
        rw [Hull.hullAt, firstHull, List.getD_replicate _ (Nat.pos_of_ne_zero filled)]
    | succ n ih =>
      intro within
      obtain ⟨stack, before, covers⟩ := ih (n.lt_succ_self.trans within)
      obtain ⟨stack', pushed, covers'⟩ := pushParabola_covers covers within
      refine ⟨stack', ?_, covers'⟩
      rw [List.range'_1_concat, List.foldlM_append, before, add_comm 1 n]
      exact (congrArg (· >>= _) pushed)
  have last : values.length - 1 + 1 = values.length := Nat.succ_pred filled
  obtain ⟨stack, done, covers⟩ := run (values.length - 1) (Nat.pred_lt filled)
  exact ⟨stack, done, last ▸ covers⟩

/-- The smallest value of the parabolas at `q`. -/
def Lowest (values : List ℚ) (q : Nat) (d : ℚ) : Prop :=
  IsLeast {d | ∃ (p : Nat) (v : ℚ), values[p]? = some v ∧ d = ((q : ℚ) - p) ^ 2 + v} d

theorem advance_step {x : ℚ} (covers : stack.Covers values values.length) (le : k ≤ stack.k) :
    advance x (stack.bounds.drop (k + 1)) k =
      if stack.boundAt (k + 1) < (x : Bound ℚ) then
        advance x (stack.bounds.drop (k + 1 + 1)) (k + 1)
      else some k := by
  have inside : k + 1 < stack.bounds.length := by
    rw [covers.bounds_length]
    exact Nat.succ_lt_succ (le.trans_lt covers.envelope.size)
  rw [List.drop_eq_getElem_cons inside, advance, Hull.boundAt, List.getD_eq_getElem _ _ inside]

/-- The scan stops at the segment of `x`. -/
theorem advance_eq {x : ℚ} (covers : stack.Covers values values.length) (le : k ≤ stack.k)
    (reached : stack.boundAt k ≤ (x : Bound ℚ)) :
    ∃ i ≤ stack.k, advance x (stack.bounds.drop (k + 1)) k = some i ∧
      stack.boundAt i ≤ (x : Bound ℚ) ∧ (x : Bound ℚ) ≤ stack.boundAt (i + 1) := by
  induction left : stack.k - k generalizing k with
  | zero =>
    obtain rfl : k = stack.k := le_antisymm le (Nat.sub_eq_zero_iff_le.mp left)
    have ends : ¬ stack.boundAt (stack.k + 1) < (x : Bound ℚ) := by
      rw [covers.envelope.last]
      exact not_top_lt
    exact ⟨stack.k, le_rfl, (advance_step covers le_rfl).trans (if_neg ends), reached,
      not_lt.mp ends⟩
  | succ left ih =>
    rw [advance_step covers le]
    split
    · next passed =>
      have fewer : stack.k - (k + 1) = _ := (Nat.sub_succ _ _).trans (congrArg Nat.pred left)
      exact ih (Nat.lt_of_sub_eq_succ left) passed.le fewer
    · next here => exact ⟨k, le, rfl, reached, not_lt.mp here⟩

theorem lowest_of_segment {i : Nat} (covers : stack.Covers values values.length) (le : i ≤ stack.k)
    (from_ : stack.boundAt i ≤ ((q : ℚ) : Bound ℚ))
    (to_ : ((q : ℚ) : Bound ℚ) ≤ stack.boundAt (i + 1)) :
    Lowest values q (parabola values (stack.hullAt i) q) := by
  have top := covers.envelope.hull_lt i le
  refine ⟨⟨_, _, getElem?_eq_getD top 0, rfl⟩, ?_⟩
  rintro _ ⟨p, v, value, rfl⟩
  obtain ⟨inside, rfl⟩ := List.getElem?_eq_some_iff.mp value
  have lowest := covers.envelope.lowest i le q from_ to_ p inside
  rwa [parabola, parabola, List.getD_eq_getElem _ _ inside] at lowest

/-- One round of the output loop. -/
theorem outputAt_eq (output : List ℚ) (covers : stack.Covers values values.length)
    (le : k ≤ stack.k) (reached : stack.boundAt k ≤ ((q : ℚ) : Bound ℚ)) :
    ∃ i d, outputAt values stack (k, output) q = some (i, output ++ [d]) ∧ i ≤ stack.k ∧
      stack.boundAt i ≤ ((q : ℚ) : Bound ℚ) ∧ Lowest values q d := by
  obtain ⟨i, within, found, from_, to_⟩ := advance_eq covers le reached
  have top := covers.envelope.hull_lt i within
  have inside : i < stack.hull.length := by
    rw [covers.hull_length]
    exact within.trans_lt covers.envelope.size
  refine ⟨i, _, ?_, within, from_, lowest_of_segment covers within from_ to_⟩
  rw [outputAt, found]
  simp only [Option.bind_eq_bind, Option.bind_some]
  rw [getElem?_eq_getD inside 0]
  simp only [Option.bind_some]
  rw [show stack.hull.getD i 0 = stack.hullAt i from rfl, getElem?_eq_getD top 0, parabola, sq]
  rfl

/-- The one-dimensional transform is exact, and its loops stay inside their arrays. -/
theorem distanceTransform1d_exact (values : List ℚ) :
    ∃ output, distanceTransform1d values = some output ∧ output.length = values.length ∧
      ∀ q < values.length, Lowest values q (output.getD q 0) := by
  rcases eq_or_ne values.length 0 with empty | filled
  · refine ⟨values, if_pos empty, rfl, fun q inside => ?_⟩
    exact absurd (empty ▸ inside) q.not_lt_zero
  obtain ⟨stack, hulled, covers⟩ := lowerHull_covers filled
  have run : ∀ n, ∃ k output, (List.range n).foldlM (outputAt values stack) (0, []) =
      some (k, output) ∧ k ≤ stack.k ∧ stack.boundAt k ≤ ((n : ℚ) : Bound ℚ) ∧
      output.length = n ∧ ∀ q < n, Lowest values q (output.getD q 0) := by
    intro n
    induction n with
    | zero =>
      refine ⟨0, [], rfl, stack.k.zero_le, ?_, rfl, nofun⟩
      rw [covers.envelope.first]
      exact bot_le
    | succ n ih =>
      obtain ⟨k, output, before, le, reached, size, lowest⟩ := ih
      obtain ⟨i, d, here, within, from_, least⟩ := outputAt_eq output covers le reached
      refine ⟨i, output ++ [d], ?_, within, from_.trans ?_, ?_, fun q inside => ?_⟩
      · rw [List.range_succ, List.foldlM_append, before]
        exact congrArg (· >>= _) here
      · exact WithBot.coe_le_coe.mpr (WithTop.coe_le_coe.mpr (Nat.cast_le.mpr n.le_succ))
      · rw [List.length_append, size, List.length_singleton]
      · obtain earlier | rfl := Nat.lt_succ_iff_lt_or_eq.mp inside
        · rw [List.getD_append _ _ _ _ (size ▸ earlier)]
          exact lowest q earlier
        · rw [List.getD_append_right _ _ _ _ size.le, size, Nat.sub_self]
          exact least
  obtain ⟨k, output, done, -, -, size, lowest⟩ := run values.length
  refine ⟨output, ?_, size, lowest⟩
  rw [distanceTransform1d, if_neg filled, hulled]
  simp only [Option.bind_eq_bind, Option.bind_some, done]
  rfl

end Line

/-! ## The lines of a field -/

def lineOf (field : List ℚ) (index : Nat → Nat) (count : Nat) : List ℚ :=
  (List.range count).map fun i => field.getD (index i) 0

section Field

variable {field : List ℚ}

theorem gather_eq {index : Nat → Nat} {count : Nat}
    (inside : ∀ i < count, index i < field.length) :
    gather field index count = some (lineOf field index count) := by
  induction count with
  | zero => rfl
  | succ count ih =>
    have earlier := ih fun i before => inside i (before.trans count.lt_succ_self)
    rw [gather] at earlier ⊢
    rw [List.range_succ, List.mapM_append, earlier, List.mapM_cons,
      getElem?_eq_getD (inside count count.lt_succ_self) 0, lineOf, lineOf, List.range_succ,
      List.map_append]
    rfl

/-- A line is written back to its places and to no others. -/
theorem scatter_eq {values : List ℚ} {index : Nat → Nat} {count : Nat}
    (enough : count ≤ values.length) (inside : ∀ i < count, index i < field.length)
    (apart : ∀ i < count, ∀ j < count, index i = index j → i = j) :
    ∃ field', scatter field values index count = some field' ∧ field'.length = field.length ∧
      (∀ i < count, field'.getD (index i) 0 = values.getD i 0) ∧
      ∀ j, (∀ i < count, index i ≠ j) → field'.getD j 0 = field.getD j 0 := by
  induction count with
  | zero => exact ⟨field, rfl, rfl, nofun, fun _ _ => rfl⟩
  | succ count ih =>
    have last := count.lt_succ_self
    obtain ⟨field', before, size, written, kept⟩ := ih (last.le.trans enough)
      (fun i lt => inside i (lt.trans last))
      (fun i hi j hj => apart i (hi.trans last) j (hj.trans last))
    have room : index count < field'.length := size ▸ inside count last
    refine ⟨field'.set (index count) (values.getD count 0), ?_, ?_, ?_, ?_⟩
    · rw [scatter] at before ⊢
      rw [List.range_succ, List.foldlM_append, before, Option.bind_eq_bind, Option.bind_some,
        List.foldlM_cons, getElem?_eq_getD (Nat.lt_of_succ_le enough) 0]
      simp only [Option.bind_eq_bind, Option.bind_some, write_eq room]
      rfl
    · rw [List.length_set, size]
    · intro i lt
      rw [getD_set room]
      obtain earlier | rfl := Nat.lt_succ_iff_lt_or_eq.mp lt
      · rw [if_neg fun same => earlier.ne (apart i lt count last same)]
        exact written i earlier
      · rw [if_pos rfl]
    · intro j other
      rw [getD_set room, if_neg (other count last).symm]
      exact kept j fun i lt => other i (lt.trans last)

theorem transformLine_eq (field : List ℚ) {index : Nat → Nat} {count : Nat}
    (inside : ∀ i < count, index i < field.length)
    (apart : ∀ i < count, ∀ j < count, index i = index j → i = j) :
    ∃ field', transformLine index count field = some field' ∧ field'.length = field.length ∧
      (∀ i < count, Lowest (lineOf field index count) i (field'.getD (index i) 0)) ∧
      ∀ j, (∀ i < count, index i ≠ j) → field'.getD j 0 = field.getD j 0 := by
  obtain ⟨output, transformed, size, lowest⟩ := distanceTransform1d_exact (lineOf field index count)
  rw [lineOf, List.length_map, List.length_range] at size lowest
  obtain ⟨field', scattered, length, written, kept⟩ := scatter_eq size.ge inside apart
  refine ⟨field', ?_, length, fun i lt => ?_, kept⟩
  · rw [transformLine, gather_eq inside]
    simp only [Option.bind_eq_bind, Option.bind_some, transformed, scattered]
  · rw [written i lt]
    exact lowest i lt

/-- A pass over lines that do not meet transforms each of them. -/
theorem pass_eq (field : List ℚ) (index : Nat → Nat → Nat) {lines count : Nat}
    (inside : ∀ l < lines, ∀ i < count, index l i < field.length)
    (apart : ∀ l < lines, ∀ i < count, ∀ l' < lines, ∀ i' < count,
      index l i = index l' i' → l = l' ∧ i = i') :
    ∃ field', (List.range lines).foldlM
        (fun field l => transformLine (index l) count field) field = some field' ∧
      field'.length = field.length ∧
      ∀ l < lines, ∀ i < count,
        Lowest (lineOf field (index l) count) i (field'.getD (index l i) 0) := by
  have run : ∀ n ≤ lines, ∃ field', (List.range n).foldlM
        (fun field l => transformLine (index l) count field) field = some field' ∧
      field'.length = field.length ∧
      (∀ l < n, ∀ i < count,
        Lowest (lineOf field (index l) count) i (field'.getD (index l i) 0)) ∧
      ∀ l < lines, n ≤ l → ∀ i < count, field'.getD (index l i) 0 = field.getD (index l i) 0 := by
    intro n
    induction n with
    | zero => exact fun _ => ⟨field, rfl, rfl, nofun, fun _ _ _ _ _ => rfl⟩
    | succ n ih =>
      intro within
      obtain ⟨field', before, size, done, ahead⟩ := ih (n.le_succ.trans within)
      obtain ⟨field'', here, size', lowest, kept⟩ := transformLine_eq field'
        (fun i lt => size ▸ inside n within i lt)
        (fun i hi j hj same => (apart n within i hi n within j hj same).2)
      have same : lineOf field' (index n) count = lineOf field (index n) count :=
        List.map_congr_left fun i mem => ahead n within le_rfl i (List.mem_range.mp mem)
      have other : ∀ l < lines, l ≠ n → ∀ i < count,
          field''.getD (index l i) 0 = field'.getD (index l i) 0 := fun l hl different i hi =>
        kept _ fun j hj equal => different (apart n within j hj l hl i hi equal).1.symm
      refine ⟨field'', ?_, size'.trans size, fun l hl i hi => ?_, fun l hl le i hi => ?_⟩
      · rw [List.range_succ, List.foldlM_append, before]
        exact congrArg (· >>= _) here
      · obtain earlier | rfl := Nat.lt_succ_iff_lt_or_eq.mp hl
        · rw [other l (earlier.trans within) earlier.ne i hi]
          exact done l earlier i hi
        · exact same ▸ lowest i hi
      · rw [other l hl (Nat.lt_of_succ_le le).ne' i hi]
        exact ahead l hl (n.le_succ.trans le) i hi
  obtain ⟨field', done, size, lowest, -⟩ := run lines le_rfl
  exact ⟨field', done, size, lowest⟩

theorem lowest_lineOf {index : Nat → Nat} {count i : Nat} {d : ℚ} :
    Lowest (lineOf field index count) i d ↔
      (∃ p < count, d = ((i : ℚ) - p) ^ 2 + field.getD (index p) 0) ∧
        ∀ p < count, d ≤ ((i : ℚ) - p) ^ 2 + field.getD (index p) 0 := by
  have at_ : ∀ {p : Nat} {v : ℚ}, (lineOf field index count)[p]? = some v ↔
      p < count ∧ field.getD (index p) 0 = v := by
    intro p v
    rw [lineOf, List.getElem?_map, Option.map_eq_some_iff]
    simp only [List.getElem?_eq_some_iff, List.length_range, List.getElem_range]
    constructor
    · rintro ⟨_, ⟨lt, rfl⟩, value⟩
      exact ⟨lt, value⟩
    · rintro ⟨lt, value⟩
      exact ⟨p, ⟨lt, rfl⟩, value⟩
  refine and_congr ?_ ?_
  · simp only [Set.mem_ofPred_eq, at_]
    constructor
    · rintro ⟨p, v, ⟨lt, rfl⟩, sum⟩
      exact ⟨p, lt, sum⟩
    · rintro ⟨p, lt, sum⟩
      exact ⟨p, _, ⟨lt, rfl⟩, sum⟩
  · simp only [mem_lowerBounds, Set.mem_ofPred_eq, at_]
    constructor
    · exact fun least p lt => least _ ⟨p, _, ⟨lt, rfl⟩, rfl⟩
    · rintro least _ ⟨p, v, ⟨lt, rfl⟩, rfl⟩
      exact least p lt

end Field

/-! ## Rasters -/

section Raster

variable {seeds : List UInt8} {width height : Nat}

/-- The seed pixels of a raster. -/
def Seed (seeds : List UInt8) (width height x y : Nat) : Prop :=
  x < width ∧ y < height ∧ seeds.getD (y * width + x) 0 ≠ 0

/-- The smallest squared distance from a pixel to a seed. -/
def NearestSeed (seeds : List UInt8) (width height x y : Nat) (d : ℚ) : Prop :=
  IsLeast {d | ∃ x' y', Seed seeds width height x' y' ∧
    d = ((x : ℚ) - x') ^ 2 + ((y : ℚ) - y') ^ 2} d

theorem pixel_lt {x y : Nat} (hx : x < width) (hy : y < height) :
    y * width + x < width * height := by
  have row : y * width + width ≤ width * height := by
    rw [← Nat.succ_mul, mul_comm width]
    exact Nat.mul_le_mul_right width hy
  exact (Nat.add_lt_add_left hx _).trans_le row

theorem pixel_inj {x y x' y' : Nat} (hx : x < width) (hx' : x' < width)
    (same : y * width + x = y' * width + x') : x = x' ∧ y = y' := by
  have positive := Nat.zero_lt_of_lt hx
  have columns := congrArg (· % width) same
  have rows := congrArg (· / width) same
  simp only [add_comm _ x, add_comm _ x', Nat.add_mul_mod_self_right, Nat.mod_eq_of_lt hx,
    Nat.mod_eq_of_lt hx'] at columns
  simp only [add_comm _ x, add_comm _ x', Nat.add_mul_div_right _ _ positive,
    Nat.div_eq_of_lt hx, Nat.div_eq_of_lt hx', zero_add] at rows
  exact ⟨columns, rows⟩

theorem sq_sub_le {a b n : Nat} (ha : a < n) (hb : b < n) :
    ((a : ℚ) - b) ^ 2 ≤ (n : ℚ) * n := by
  have low : (a : ℚ) < n := Nat.cast_lt.mpr ha
  have low' : (b : ℚ) < n := Nat.cast_lt.mpr hb
  have zero : (0 : ℚ) ≤ a := Nat.cast_nonneg a
  have zero' : (0 : ℚ) ≤ b := Nat.cast_nonneg b
  rw [← sq]
  exact sq_le_sq' (by linarith) (by linarith)

/-- The columns and then the rows leave the distance to the nearest seed. -/
theorem squaredDistanceTo_exact (size : seeds.length = width * height)
    (seeded : ∃ x y, Seed seeds width height x y) :
    ∃ field, squaredDistanceTo seeds width height = some field ∧
      field.length = seeds.length ∧
      ∀ x < width, ∀ y < height,
        NearestSeed seeds width height x y (field.getD (y * width + x) 0) := by
  let far : ℚ := 2 * (width * width + height * height) + 1
  let start : List ℚ := seeds.map fun seed => if seed ≠ 0 then 0 else far
  have length : start.length = width * height := (List.length_map _).trans size
  obtain ⟨columns, first, columnsLength, byColumn⟩ := pass_eq start
    (fun x y => y * width + x)
    (fun x hx y hy => length ▸ pixel_lt hx hy)
    (fun x hx y _ x' hx' y' _ same => pixel_inj hx hx' same)
  obtain ⟨field, second, fieldLength, byRow⟩ := pass_eq columns
    (fun y x => y * width + x)
    (fun y hy x hx => columnsLength ▸ length ▸ pixel_lt hx hy)
    (fun y _ x hx y' _ x' hx' same => (pixel_inj hx hx' same).symm)
  have started : ∀ {x y : Nat}, x < width → y < height →
      (start.getD (y * width + x) 0 = if seeds.getD (y * width + x) 0 ≠ 0 then 0 else far) := by
    intro x y hx hy
    have inside : y * width + x < seeds.length := size ▸ pixel_lt hx hy
    rw [List.getD_eq_getElem?_getD, List.getElem?_map, getElem?_eq_getD inside 0]
    rfl
  refine ⟨field, ?_, ?_, fun x hx y hy => ?_⟩
  · rw [squaredDistanceTo]
    simp only [Option.bind_eq_bind]
    rw [show (List.range width).foldlM _ _ = some columns from first, Option.bind_some]
    exact second
  · rw [fieldLength, columnsLength, length, size]
  obtain ⟨⟨x', hx', across⟩, leastAcross⟩ := lowest_lineOf.mp (byRow y hy x hx)
  have down := fun x' hx' => lowest_lineOf.mp (byColumn x' hx' y hy)
  -- a seed bounds the distance by its own
  have bound : ∀ x' y', Seed seeds width height x' y' →
      field.getD (y * width + x) 0 ≤ ((x : ℚ) - x') ^ 2 + ((y : ℚ) - y') ^ 2 := by
    rintro x' y' ⟨hx', hy', seed⟩
    have reach := (down x' hx').2 y' hy'
    rw [started hx' hy', if_pos seed, add_zero] at reach
    exact (leastAcross x' hx').trans (add_le_add_right reach _)
  constructor
  · obtain ⟨y', hy', along⟩ := (down x' hx').1
    rw [along, started hx' hy'] at across
    split at across
    · next seed =>
      rw [add_zero] at across
      exact ⟨x', y', ⟨hx', hy', seed⟩, across⟩
    · obtain ⟨x₀, y₀, seed⟩ := seeded
      have near := bound x₀ y₀ seed
      have wide := sq_sub_le hx seed.1
      have high := sq_sub_le hy seed.2.1
      have squares : (0 : ℚ) ≤ ((x : ℚ) - x') ^ 2 + ((y : ℚ) - y') ^ 2 := by positivity
      have sides : (0 : ℚ) ≤ width * width + height * height := by positivity
      linarith
  · rintro _ ⟨x', y', seed, rfl⟩
    exact bound x' y' seed

end Raster

/-- Both transforms are exact and stay inside their arrays. -/
theorem boundary_distances_exact :
    (∀ values : List ℚ, ∃ output, distanceTransform1d values = some output ∧
      output.length = values.length ∧
      ∀ q < values.length, Lowest values q (output.getD q 0)) ∧
    ∀ (seeds : List UInt8) (width height : Nat), seeds.length = width * height →
      (∃ x y, Seed seeds width height x y) →
      ∃ field, squaredDistanceTo seeds width height = some field ∧
        field.length = seeds.length ∧
        ∀ x < width, ∀ y < height,
          NearestSeed seeds width height x y (field.getD (y * width + x) 0) :=
  ⟨distanceTransform1d_exact, fun _ _ _ size seeded => squaredDistanceTo_exact size seeded⟩

example : squaredDistanceTo [0, 0, 0, 0, 0, 1] 3 2 = some [5, 2, 1, 4, 1, 0] := by decide +kernel

theorem boundary_distances_exact_sample :
    ∃ field, squaredDistanceTo [0, 0, 0, 0, 0, 1] 3 2 = some field ∧ field.length = 6 ∧
      ∀ x < 3, ∀ y < 2, NearestSeed [0, 0, 0, 0, 0, 1] 3 2 x y (field.getD (y * 3 + x) 0) :=
  boundary_distances_exact.2 [0, 0, 0, 0, 0, 1] 3 2 rfl ⟨2, 1, by decide, by decide, by decide⟩

end Svp.Validation

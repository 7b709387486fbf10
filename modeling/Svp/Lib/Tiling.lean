import Mathlib

/-!
# Lists laid end to end

A byte string made of consecutive parts, each read back from its offset. The
lemmas relate three views of it: the parts (`List (List α)`), the parts with
their offsets (`placed`), and spans of the whole (`slice`).
-/

namespace Svp.Lib

variable {α : Type*}

/-- The `length` entries of `l` from `offset` on. -/
def slice (l : List α) (offset length : Nat) : List α := (l.drop offset).take length

theorem length_slice {l : List α} {offset length : Nat} (inside : offset + length ≤ l.length) :
    (slice l offset length).length = length := by
  rw [slice, List.length_take, List.length_drop]
  omega

/-- A span inside a part is a span of the whole. -/
theorem slice_part (before part after : List α) {offset length : Nat}
    (inside : offset + length ≤ part.length) :
    slice (before ++ (part ++ after)) (before.length + offset) length = slice part offset length := by
  have room : length ≤ (part.drop offset).length := by
    rw [List.length_drop]
    omega
  rw [slice, slice, List.drop_length_add_append, List.drop_append_of_le_length (by omega),
    List.take_append_of_le_length room]

theorem slice_whole (before part after : List α) :
    slice (before ++ (part ++ after)) before.length part.length = part := by
  have whole := slice_part before part after (Nat.le_of_eq (Nat.zero_add part.length))
  rw [Nat.add_zero] at whole
  rw [whole, slice, List.drop_zero, List.take_length]

/-- A span of a span. -/
theorem slice_slice {l : List α} {offset length inner size : Nat} (inside : inner + size ≤ length) :
    slice (slice l offset length) inner size = slice l (offset + inner) size := by
  rw [slice, slice, slice, List.drop_take, List.drop_drop, List.take_take,
    Nat.min_eq_left (by omega)]

/-- Neighbouring spans join. -/
theorem slice_append (l : List α) {start middle stop : Nat} (first : start ≤ middle)
    (second : middle ≤ stop) :
    slice l start (middle - start) ++ slice l middle (stop - middle) = slice l start (stop - start) := by
  obtain ⟨length, rfl⟩ := Nat.exists_eq_add_of_le first
  obtain ⟨more, rfl⟩ := Nat.exists_eq_add_of_le second
  rw [Nat.add_sub_cancel_left, Nat.add_sub_cancel_left, Nat.add_assoc, Nat.add_sub_cancel_left, slice,
    slice, slice, List.take_add, List.drop_drop]

/-- The parts with their offsets, the first one at `start`. -/
def placed (start : Nat) : List (List α) → List (Nat × List α)
  | [] => []
  | part :: rest => (start, part) :: placed (start + part.length) rest

@[simp] theorem length_placed (start : Nat) (parts : List (List α)) :
    (placed start parts).length = parts.length := by
  induction parts generalizing start with
  | nil => rfl
  | cons part rest ih => rw [placed, List.length_cons, List.length_cons, ih]

@[simp] theorem map_snd_placed (start : Nat) (parts : List (List α)) :
    (placed start parts).map Prod.snd = parts := by
  induction parts generalizing start with
  | nil => rfl
  | cons part rest ih => rw [placed, List.map_cons, ih]

theorem placed_append (start : Nat) (front back : List (List α)) :
    placed start (front ++ back) =
      placed start front ++ placed (start + front.flatten.length) back := by
  induction front generalizing start with
  | nil => rfl
  | cons part rest ih =>
    rw [List.cons_append, placed, placed, ih, List.cons_append, List.flatten_cons,
      List.length_append, Nat.add_assoc]

/-- What a placed part is: the parts before it fill the space up to its offset. -/
theorem mem_placed {start offset : Nat} {parts : List (List α)} {part : List α} :
    (offset, part) ∈ placed start parts ↔
      ∃ front back, parts = front ++ part :: back ∧ offset = start + front.flatten.length := by
  constructor
  · intro mem
    induction parts generalizing start with
    | nil => cases mem
    | cons first rest ih =>
      rcases List.mem_cons.mp mem with same | mem
      · cases same
        exact ⟨[], rest, rfl, rfl⟩
      · obtain ⟨front, back, split, at_⟩ := ih mem
        refine ⟨first :: front, back, by rw [split]; rfl, ?_⟩
        rw [at_, List.flatten_cons, List.length_append, Nat.add_assoc]
  · rintro ⟨front, back, rfl, rfl⟩
    rw [placed_append]
    exact List.mem_append_right _ List.mem_cons_self

/-- A placed part lies inside the whole. -/
theorem placed_end {start offset : Nat} {parts : List (List α)} {part : List α}
    (mem : (offset, part) ∈ placed start parts) :
    start ≤ offset ∧ offset + part.length ≤ start + parts.flatten.length := by
  obtain ⟨front, back, rfl, rfl⟩ := mem_placed.mp mem
  refine ⟨Nat.le_add_right _ _, ?_⟩
  rw [List.flatten_append, List.flatten_cons, List.length_append, List.length_append]
  omega

/-- A span inside a placed part is a span of the whole. -/
theorem slice_inside {parts : List (List α)} {offset : Nat} {part : List α}
    (mem : (offset, part) ∈ placed 0 parts) {inner length : Nat}
    (inside : inner + length ≤ part.length) :
    slice parts.flatten (offset + inner) length = slice part inner length := by
  obtain ⟨front, back, rfl, rfl⟩ := mem_placed.mp mem
  rw [Nat.zero_add, List.flatten_append, List.flatten_cons]
  exact slice_part front.flatten part back.flatten inside

/-- Every placed part is read back from its offset. -/
theorem slice_placed {parts : List (List α)} {offset : Nat} {part : List α}
    (mem : (offset, part) ∈ placed 0 parts) : slice parts.flatten offset part.length = part := by
  obtain ⟨front, back, rfl, rfl⟩ := mem_placed.mp mem
  rw [Nat.zero_add, List.flatten_append, List.flatten_cons]
  exact slice_whole front.flatten part back.flatten

/-- `l` with the entries from `offset` on replaced by `part`. -/
def overwrite (l : List α) (offset : Nat) (part : List α) : List α :=
  l.take offset ++ part ++ l.drop (offset + part.length)

theorem overwrite_part (front old new back : List α) (same : old.length = new.length) :
    overwrite (front ++ (old ++ back)) front.length new = front ++ (new ++ back) := by
  rw [overwrite, List.take_left, ← same, List.drop_length_add_append, List.drop_left,
    List.append_assoc]

theorem length_le_overwrite {l : List α} {offset : Nat} (part : List α) (inside : offset ≤ l.length) :
    l.length ≤ (overwrite l offset part).length := by
  rw [overwrite, List.length_append, List.length_append, List.length_take, List.length_drop]
  omega

theorem slice_overwrite {l : List α} {offset : Nat} {part : List α}
    (inside : offset + part.length ≤ l.length) :
    slice (overwrite l offset part) offset part.length = part := by
  have front : (l.take offset).length = offset := by
    rw [List.length_take]
    omega
  have whole := slice_whole (l.take offset) part (l.drop (offset + part.length))
  rwa [front, ← List.append_assoc] at whole

/-- What lies before the overwritten part is kept. -/
theorem slice_overwrite_before {l : List α} {offset start length : Nat} (part : List α)
    (before : start + length ≤ offset) (inside : offset ≤ l.length) :
    slice (overwrite l offset part) start length = slice l start length := by
  have front : (l.take offset).length = offset := by
    rw [List.length_take]
    omega
  have first := @slice_part _ [] (l.take offset) (part ++ l.drop (offset + part.length)) start length
    (by omega)
  have second := @slice_part _ [] (l.take offset) (l.drop offset) start length (by omega)
  rw [List.nil_append, List.length_nil, Nat.zero_add] at first second
  rw [overwrite, List.append_assoc, first, ← second, List.take_append_drop]

end Svp.Lib

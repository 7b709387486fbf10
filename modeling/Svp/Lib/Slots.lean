import Mathlib.Data.List.Nodup
import Mathlib.Data.List.Sort
import Mathlib.Data.Set.List

/-!
# Items in slots

A list of slots, each free or with the item whose place it is. Items that are put one
after the other, each into a free slot, are exactly the slots' contents (`Holds.put`).
Where no slot is free, the contents are the items in the order of their places
(`Holds.collected`), and there is only one such order (`eq_of_places`).
-/

namespace Svp.Lib.Slots

variable {α : Type} {place : α → Nat}

/-- The slots hold the items, each at its place and no two at one. -/
structure Holds (place : α → Nat) (slots : List (Option α)) (items : List α) : Prop where
  distinct : (items.map place).Nodup
  content : ∀ i a, slots[i]? = some (some a) ↔ a ∈ items ∧ place a = i

theorem Holds.free (n : Nat) : Holds place (List.replicate n none) [] where
  distinct := List.nodup_nil
  content i a := by simp [List.getElem?_replicate]

/-- A slot is free where no item has its place. -/
theorem Holds.free_iff {slots : List (Option α)} {items : List α} (holds : Holds place slots items)
    {i : Nat} (within : i < slots.length) : slots[i]? = some none ↔ i ∉ items.map place := by
  rw [List.mem_map]
  constructor
  · rintro free ⟨a, mem, at_⟩
    have taken := (holds.content i a).mpr ⟨mem, at_⟩
    rw [free] at taken
    cases taken
  · intro none
    rw [List.getElem?_eq_getElem within]
    cases content : slots[i] with
    | none => rfl
    | some a =>
      have taken := List.getElem?_eq_getElem within
      rw [content] at taken
      exact absurd ⟨a, (holds.content i a).mp taken⟩ none

/-- An item put into the free slot of its place. -/
theorem Holds.put {slots : List (Option α)} {items : List α} (holds : Holds place slots items)
    {a : α} (free : slots[place a]? = some none) :
    Holds place (slots.set (place a) (some a)) (items ++ [a]) where
  distinct := by
    have within := (List.getElem?_eq_some_iff.mp free).1
    have fresh := (holds.free_iff within).mp free
    rw [List.map_append, List.map_singleton]
    exact List.nodup_append.mpr ⟨holds.distinct, List.nodup_singleton _,
      fun i mem j at_ same => fresh (List.mem_singleton.mp at_ ▸ same ▸ mem)⟩
  content i b := by
    have within := (List.getElem?_eq_some_iff.mp free).1
    rw [List.mem_append, List.mem_singleton, or_and_right, ← holds.content i b]
    by_cases same : place a = i
    · subst same
      rw [List.getElem?_set_self within, free]
      constructor
      · rintro ⟨⟩
        exact .inr ⟨rfl, rfl⟩
      · rintro (⟨⟨⟩⟩ | ⟨rfl, -⟩)
        rfl
    · rw [List.getElem?_set_ne same]
      refine (or_iff_left ?_).symm
      rintro ⟨rfl, other⟩
      exact same other

/-- Slots without a free one, read in order, are the items in the order of their places. -/
theorem Holds.collected {slots : List (Option α)} {items ordered : List α}
    (holds : Holds place slots items) (full : ordered.map some = slots) :
    ordered.Perm items ∧ ordered.map place = List.range slots.length := by
  have content : ∀ i a, ordered[i]? = some a ↔ a ∈ items ∧ place a = i := by
    intro i a
    rw [← holds.content i a, ← full, List.getElem?_map]
    simp
  have places : ordered.map place = List.range slots.length := by
    refine List.ext_getElem? fun i => ?_
    rw [List.getElem?_map, ← full, List.length_map]
    cases read : ordered[i]? with
    | none =>
      rw [List.getElem?_eq_none (List.length_range.trans_le (List.getElem?_eq_none_iff.mp read))]
      rfl
    | some a =>
      rw [List.getElem?_range (List.getElem?_eq_some_iff.mp read).1, Option.map_some,
        ((content i a).mp read).2]
  have distinct : ordered.Nodup := .of_map place (places ▸ List.nodup_range)
  refine ⟨(List.perm_ext_iff_of_nodup distinct (.of_map place holds.distinct)).mpr fun a => ?_,
    places⟩
  rw [List.mem_iff_getElem?]
  constructor
  · rintro ⟨i, read⟩
    exact ((content i a).mp read).1
  · intro mem
    exact ⟨place a, (content _ a).mpr ⟨mem, rfl⟩⟩

/-- No slot is free where every place has an item. -/
theorem Holds.full {slots : List (Option α)} {items : List α} (holds : Holds place slots items)
    (covered : ∀ i < slots.length, i ∈ items.map place) :
    ∃ ordered : List α, ordered.map some = slots := by
  have taken : ∀ slot ∈ slots, slot ∈ Set.range (some : α → Option α) := by
    intro slot mem
    obtain ⟨i, read⟩ := List.mem_iff_getElem?.mp mem
    have within := (List.getElem?_eq_some_iff.mp read).1
    cases slot with
    | none => exact absurd (covered i within) ((holds.free_iff within).mp read)
    | some a => exact ⟨a, rfl⟩
  exact (Set.range_list_map some).ge taken

/-- Items have one order in which their places are counted up. -/
theorem eq_of_places {first second : List α} {n : Nat} (same : first.Perm second)
    (firstPlaces : first.map place = List.range n) (secondPlaces : second.map place = List.range n) :
    first = second := by
  have sorted : ∀ l : List α, l.map place = List.range n → l.Pairwise (place · < place ·) :=
    fun l places => List.pairwise_map.mp (places ▸ List.pairwise_lt_range)
  exact same.eq_of_pairwise (fun a b _ _ below above => absurd above (Nat.lt_asymm below))
    (sorted first firstPlaces) (sorted second secondPlaces)

end Svp.Lib.Slots

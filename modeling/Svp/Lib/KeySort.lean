import Mathlib

/-!
# Sorting by a key

`sortByKey key` sorts a list by the keys of its elements and keeps elements of
one key in the order they had. What is read off the sorted list is the same for
every order of the input exactly when elements of one key read the same
(`sortByKey_order_free_iff`).
-/

namespace Svp.Lib

variable {α β κ : Type}

/-- Lists whose keys agree place by place read the same where tied elements do. -/
theorem map_eq_of_map_key_eq {key : α → κ} {read : α → β} {left right : List α}
    (told : ∀ a ∈ left, ∀ b ∈ right, key a = key b → read a = read b)
    (keys : left.map key = right.map key) : left.map read = right.map read := by
  induction left generalizing right with
  | nil =>
    rw [List.map_nil, eq_comm, List.map_eq_nil_iff] at keys
    rw [keys]
  | cons a left ih =>
    cases right with
    | nil => exact absurd keys (List.cons_ne_nil _ _)
    | cons b right =>
      rw [List.map_cons, List.map_cons, List.cons.injEq] at keys
      have first := told a List.mem_cons_self b List.mem_cons_self keys.1
      have rest := ih (fun a' inLeft b' inRight =>
        told a' (List.mem_cons_of_mem a inLeft) b' (List.mem_cons_of_mem b inRight)) keys.2
      rw [List.map_cons, List.map_cons, first, rest]

variable [LinearOrder κ]

/-- The elements of a set, in order. -/
def ascending (s : Finset κ) : List κ := s.sort

@[simp] theorem mem_ascending {s : Finset κ} {k : κ} : k ∈ ascending s ↔ k ∈ s := Finset.mem_sort _

def sortByKey (key : α → κ) (items : List α) : List α :=
  items.insertionSort fun a b => key a ≤ key b

section
variable (key : α → κ) (items : List α)

theorem sortByKey_perm : (sortByKey key items).Perm items := List.perm_insertionSort _ items

@[simp] theorem mem_sortByKey {item : α} : item ∈ sortByKey key items ↔ item ∈ items :=
  (sortByKey_perm key items).mem_iff

theorem map_key_sortByKey :
    (sortByKey key items).map key = (items.map key).insertionSort (· ≤ ·) :=
  List.map_insertionSort _ _ key items fun _ _ _ _ => Iff.rfl

/-- Elements of one key keep their order. -/
theorem filter_sortByKey (value : κ) :
    (sortByKey key items).filter (fun item => key item = value) =
      items.filter fun item => key item = value := by
  have tied : (items.filter fun item => key item = value).Pairwise fun a b => key a ≤ key b := by
    refine List.pairwise_of_forall_mem_list fun a inA b inB => ?_
    have keyA : key a = value := by simpa using (List.mem_filter.mp inA).2
    have keyB : key b = value := by simpa using (List.mem_filter.mp inB).2
    rw [keyA, keyB]
  have kept := (List.sublist_insertionSort tied List.filter_sublist).filter
    fun item => decide (key item = value)
  rw [List.filter_filter] at kept
  simp only [Bool.and_self] at kept
  exact (kept.eq_of_length ((sortByKey_perm key items).filter _).length_eq.symm).symm

end

section
variable {key : α → κ} {items : List α}

theorem map_key_sortByKey_perm {others : List α} (same : others.Perm items) :
    (sortByKey key others).map key = (sortByKey key items).map key := by
  rw [map_key_sortByKey, map_key_sortByKey]
  exact (List.perm_insertionSort _ _ |>.trans (same.map key) |>.trans
    (List.perm_insertionSort _ _).symm).eq_of_pairwise' (List.pairwise_insertionSort _ _)
      (List.pairwise_insertionSort _ _)

theorem sortByKey_order_free {read : α → β}
    (told : ∀ a ∈ items, ∀ b ∈ items, key a = key b → read a = read b) {others : List α}
    (same : others.Perm items) :
    (sortByKey key others).map read = (sortByKey key items).map read := by
  refine map_eq_of_map_key_eq (fun a inA b inB => told a ?_ b ?_) (map_key_sortByKey_perm same)
  · exact same.mem_iff.mp ((mem_sortByKey key others).mp inA)
  · exact (mem_sortByKey key items).mp inB

/-- Two tied elements swapped in the input come out swapped. -/
theorem read_eq_of_swap {read : α → β} {a b : α} {rest : List α} (tie : key a = key b)
    (same : (sortByKey key (a :: b :: rest)).map read = (sortByKey key (b :: a :: rest)).map read) :
    read a = read b := by
  classical
  have keys : (sortByKey key (a :: b :: rest)).map key = (sortByKey key (b :: a :: rest)).map key :=
    map_key_sortByKey_perm (List.Perm.swap b a rest)
  -- the elements of the tied key, with what they read, are the same sublist
  have pairs : (sortByKey key (a :: b :: rest)).map (fun item => (key item, read item)) =
      (sortByKey key (b :: a :: rest)).map fun item => (key item, read item) := by
    rw [← List.zip_map', ← List.zip_map', keys, same]
  have kept := congrArg (List.filter fun pair : κ × β => decide (pair.1 = key a)) pairs
  rw [List.filter_map, List.filter_map] at kept
  simp only [Function.comp_def] at kept
  rw [filter_sortByKey, filter_sortByKey, List.filter_cons_of_pos (a := a) (by simp),
    List.filter_cons_of_pos (a := b) (l := a :: rest) (by simp [tie])] at kept
  exact congrArg Prod.snd (List.cons.inj kept).1

/-- What is read off the sorted list is free of the input's order exactly when
tied elements read the same. -/
theorem sortByKey_order_free_iff {read : α → β} :
    (∀ others : List α, others.Perm items →
      (sortByKey key others).map read = (sortByKey key items).map read) ↔
      ∀ a ∈ items, ∀ b ∈ items, key a = key b → read a = read b := by
  constructor
  · intro free a inA b inB tie
    classical
    by_cases equal : a = b
    · rw [equal]
    · have inRest : b ∈ items.erase a := (List.mem_erase_of_ne (Ne.symm equal)).mpr inB
      have front : items.Perm (a :: b :: (items.erase a).erase b) :=
        (List.perm_cons_erase inA).trans ((List.perm_cons_erase inRest).cons a)
      have swapped : (b :: a :: (items.erase a).erase b).Perm items :=
        (List.Perm.swap a b _).trans front.symm
      exact read_eq_of_swap tie ((free _ front.symm).trans (free _ swapped).symm)
  · exact fun told others same => sortByKey_order_free told same

end

end Svp.Lib

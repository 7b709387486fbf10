import Mathlib

/-!
# Edit distance

`editDistance a b` is the least number of single insertions, deletions and replacements
that turn `a` into `b` (`edits_editDistance`, `Edits.distance_le`). Scripts join, so the distance can be taken from
either end of the lists (`editDistance_concat`), which is the recurrence of the table
over prefixes; and a script has to pass every row of that table (`lt_row_concat`).
-/

namespace Svp.Lib

variable {α : Type}

/-! ## Scripts -/

/-- `Edits a b n`: `n` edits turn `a` into `b`. -/
inductive Edits : List α → List α → Nat → Prop
  | done : Edits [] [] 0
  | delete {a b n} (x) : Edits a b n → Edits (x :: a) b (n + 1)
  | insert {a b n} (y) : Edits a b n → Edits a (y :: b) (n + 1)
  | replace {a b n} (x y) : Edits a b n → Edits (x :: a) (y :: b) (n + 1)
  | keep {a b n} (x) : Edits a b n → Edits (x :: a) (x :: b) n

theorem Edits.append {a b a' b' : List α} {n n' : Nat} (first : Edits a b n)
    (second : Edits a' b' n') : Edits (a ++ a') (b ++ b') (n + n') := by
  induction first with
  | done => simpa using second
  | delete x _ ih => exact Nat.succ_add _ _ ▸ .delete x ih
  | insert y _ ih => exact Nat.succ_add _ _ ▸ .insert y ih
  | replace x y _ ih => exact Nat.succ_add _ _ ▸ .replace x y ih
  | keep x _ ih => exact .keep x ih

theorem Edits.reverse {a b : List α} {n : Nat} (edits : Edits a b n) :
    Edits a.reverse b.reverse n := by
  induction edits with
  | done => exact .done
  | delete x _ ih => simpa using ih.append (.delete x .done)
  | insert y _ ih => simpa using ih.append (.insert y .done)
  | replace x y _ ih => simpa using ih.append (.replace x y .done)
  | keep x _ ih => simpa using ih.append (.keep x .done)

theorem Edits.length_le {a b : List α} {n : Nat} (edits : Edits a b n) :
    a.length ≤ b.length + n ∧ b.length ≤ a.length + n := by
  induction edits <;> simp only [List.length_nil, List.length_cons] <;> omega

/-! ## The distance -/

variable [DecidableEq α]

/-- The distances from `x :: a`, out of those from `a`. -/
def distancesFrom (x : α) (below : List α → Nat) : List α → Nat
  | [] => below [] + 1
  | y :: b =>
    min (min (below (y :: b) + 1) (distancesFrom x below b + 1)) (below b + if x = y then 0 else 1)

def editDistance : List α → List α → Nat
  | [] => List.length
  | x :: a => distancesFrom x (editDistance a)

theorem editDistance_nil (b : List α) : editDistance [] b = b.length := rfl

theorem editDistance_cons_nil (x : α) (a : List α) :
    editDistance (x :: a) [] = editDistance a [] + 1 := rfl

theorem editDistance_cons_cons (x y : α) (a b : List α) :
    editDistance (x :: a) (y :: b) =
      min (min (editDistance a (y :: b) + 1) (editDistance (x :: a) b + 1))
        (editDistance a b + if x = y then 0 else 1) := rfl

theorem editDistance_delete (x : α) (a b : List α) :
    editDistance (x :: a) b ≤ editDistance a b + 1 := by
  cases b with
  | nil => exact le_rfl
  | cons y b => exact (min_le_left _ _).trans (min_le_left _ _)

theorem editDistance_insert (y : α) (a b : List α) :
    editDistance a (y :: b) ≤ editDistance a b + 1 := by
  cases a with
  | nil => exact le_rfl
  | cons x a => exact (min_le_left _ _).trans (min_le_right _ _)

theorem editDistance_replace (x y : α) (a b : List α) :
    editDistance (x :: a) (y :: b) ≤ editDistance a b + if x = y then 0 else 1 :=
  min_le_right _ _

theorem Edits.distance_le {a b : List α} {n : Nat} (edits : Edits a b n) :
    editDistance a b ≤ n := by
  induction edits with
  | done => exact le_rfl
  | delete x _ ih => exact (editDistance_delete x _ _).trans (Nat.succ_le_succ ih)
  | insert y _ ih => exact (editDistance_insert y _ _).trans (Nat.succ_le_succ ih)
  | @replace a b n x y _ ih =>
    have cost : (if x = y then 0 else 1) ≤ 1 := by split <;> decide
    exact (editDistance_replace x y a b).trans (Nat.add_le_add ih cost)
  | @keep a b n x _ ih =>
    have same := editDistance_replace x x a b
    rw [if_pos rfl, Nat.add_zero] at same
    exact same.trans ih

theorem edits_editDistance (a b : List α) : Edits a b (editDistance a b) := by
  induction a generalizing b with
  | nil =>
    induction b with
    | nil => exact .done
    | cons y b ih => exact .insert y ih
  | cons x a ihA =>
    induction b with
    | nil => exact .delete x (ihA [])
    | cons y b ihB =>
      rw [editDistance_cons_cons]
      rcases min_choice (min (editDistance a (y :: b) + 1) (editDistance (x :: a) b + 1))
        (editDistance a b + if x = y then 0 else 1) with outer | outer <;> rw [outer]
      · rcases min_choice (editDistance a (y :: b) + 1) (editDistance (x :: a) b + 1)
          with inner | inner <;> rw [inner]
        · exact .delete x (ihA _)
        · exact .insert y ihB
      · split
        · next same => exact same ▸ .keep x (ihA b)
        · exact .replace x y (ihA b)

theorem editDistance_reverse (a b : List α) :
    editDistance a.reverse b.reverse = editDistance a b := by
  refine le_antisymm (edits_editDistance a b).reverse.distance_le ?_
  simpa using (edits_editDistance a.reverse b.reverse).reverse.distance_le

theorem length_sub_le_editDistance (a b : List α) :
    max a.length b.length - min a.length b.length ≤ editDistance a b := by
  obtain ⟨longer, shorter⟩ := (edits_editDistance a b).length_le
  omega

theorem editDistance_le_length (a b : List α) :
    editDistance a b ≤ max a.length b.length := by
  induction a generalizing b with
  | nil => exact le_max_right _ _
  | cons x a ih =>
    cases b with
    | nil =>
      have deleted := ih []
      simp only [List.length_nil, Nat.max_zero, List.length_cons] at deleted ⊢
      exact Nat.succ_le_succ deleted
    | cons y b =>
      have cost : (if x = y then 0 else 1) ≤ 1 := by split <;> decide
      have replaced := (editDistance_replace x y a b).trans (Nat.add_le_add (ih b) cost)
      simpa only [List.length_cons, Nat.succ_max_succ] using replaced

/-! ## The table over prefixes -/

/-- The entry a row is filled with, from the ones above, to the left and on the diagonal. -/
theorem editDistance_concat (x y : α) (a b : List α) :
    editDistance (a ++ [x]) (b ++ [y]) =
      min (min (editDistance a (b ++ [y]) + 1) (editDistance (a ++ [x]) b + 1))
        (editDistance a b + if x = y then 0 else 1) := by
  rw [← editDistance_reverse (a ++ [x]), ← editDistance_reverse a (b ++ [y]),
    ← editDistance_reverse (a ++ [x]) b, ← editDistance_reverse a b]
  simp only [List.reverse_append, List.reverse_singleton, List.singleton_append]
  exact editDistance_cons_cons x y a.reverse b.reverse

theorem editDistance_nil_right (a : List α) : editDistance a [] = a.length := by
  induction a with
  | nil => rfl
  | cons x a ih => rw [editDistance_cons_nil, ih, List.length_cons]

/-- A row above a bound leaves no way to a smaller entry below it. -/
theorem lt_row_concat {n : Nat} {a b : List α} (x : α)
    (above : ∀ front, front <+: b → n < editDistance a front) :
    ∀ front, front <+: b → n < editDistance (a ++ [x]) front := by
  intro front
  induction front using List.reverseRecOn with
  | nil =>
    intro _
    have first := above [] (List.nil_prefix)
    rw [editDistance_nil_right] at first ⊢
    rw [List.length_append]
    exact Nat.lt_add_right 1 first
  | append_singleton front y ih =>
    intro before
    have shorter : front <+: b := (List.prefix_append front [y]).trans before
    rw [editDistance_concat]
    exact lt_min (lt_min (Nat.lt_succ_of_lt (above _ before)) (Nat.lt_succ_of_lt (ih shorter)))
      (Nat.lt_add_right _ (above front shorter))

end Svp.Lib

import Mathlib

/-!
# Contributions that accumulate

Every item contributes an element of a join semilattice under its key. What is held
under a key is the least upper bound of what was there and what the items of that key
give, so the order and the repetition of the items do not matter
(`accumulate_of_mem`). Stages may also hand on reports in place of their items: a
report that stands for its stage above the start accumulates the same
(`accumulate_relay`).
-/

namespace Svp.Lib

variable {ι κ L : Type*} [DecidableEq κ] [SemilatticeSup L] (key : ι → κ) (gives : ι → L)

/-- What is held under a key after the items, one after the other. -/
def accumulate (here : κ) (start : L) (items : List ι) : L :=
  items.foldl (fun held item => if key item = here then held ⊔ gives item else held) start

/-- Everything that the items give under a key is below the bound. -/
def GivesBelow (here : κ) (items : List ι) (bound : L) : Prop :=
  ∀ item ∈ items, key item = here → gives item ≤ bound

variable {key gives} {here : κ} {start bound : L} {items items' : List ι}

omit [DecidableEq κ] in
theorem givesBelow_cons {item : ι} :
    GivesBelow key gives here (item :: items) bound ↔
      (key item = here → gives item ≤ bound) ∧ GivesBelow key gives here items bound :=
  List.forall_mem_cons

theorem accumulate_le_iff :
    accumulate key gives here start items ≤ bound ↔
      start ≤ bound ∧ GivesBelow key gives here items bound := by
  induction items generalizing start with
  | nil => exact ⟨fun le => ⟨le, nofun⟩, And.left⟩
  | cons item items ih =>
    show accumulate key gives here (if key item = here then start ⊔ gives item else start) items ≤
      bound ↔ _
    rw [ih, givesBelow_cons]
    split
    · next same => rw [sup_le_iff, and_assoc, forall_prop_of_true same]
    · next other => rw [forall_prop_of_false other, true_and]

theorem le_accumulate : start ≤ accumulate key gives here start items :=
  (accumulate_le_iff.mp le_rfl).1

theorem givesBelow_accumulate :
    GivesBelow key gives here items (accumulate key gives here start items) :=
  (accumulate_le_iff.mp le_rfl).2

theorem accumulate_congr
    (same : ∀ bound, start ≤ bound →
      (GivesBelow key gives here items bound ↔ GivesBelow key gives here items' bound)) :
    accumulate key gives here start items = accumulate key gives here start items' := by
  refine eq_of_forall_ge_iff fun bound => ?_
  rw [accumulate_le_iff, accumulate_le_iff]
  exact and_congr_right (same bound)

/-- Neither the order of the items nor their repetition matters. -/
theorem accumulate_of_mem (same : ∀ item, item ∈ items ↔ item ∈ items') :
    accumulate key gives here start items = accumulate key gives here start items' :=
  accumulate_congr fun _ _ => forall_congr' fun item => imp_congr_left (same item)

/-- A report gives, above the start, what the items it stands for give. -/
def StandsFor (key : ι → κ) (gives : ι → L) (here : κ) (start : L) (report items : List ι) :
    Prop :=
  ∀ bound, start ≤ bound →
    (GivesBelow key gives here report bound ↔ GivesBelow key gives here items bound)

omit [DecidableEq κ] in
theorem givesBelow_flatten {stages : List (List ι)} :
    GivesBelow key gives here stages.flatten bound ↔
      ∀ stage ∈ stages, GivesBelow key gives here stage bound := by
  constructor
  · intro below stage among item mem
    exact below item (List.mem_flatten.mpr ⟨stage, among, mem⟩)
  · intro below item mem
    obtain ⟨stage, among, mem⟩ := List.mem_flatten.mp mem
    exact below stage among item mem

/-- Reports handed on in any order and any number of times accumulate what the items of
the stages do. -/
theorem accumulate_relay {stages reports : List (List ι)} {report : List ι → List ι}
    (handed : ∀ r, r ∈ reports ↔ ∃ stage ∈ stages, report stage = r)
    (stands : ∀ stage ∈ stages, StandsFor key gives here start (report stage) stage) :
    accumulate key gives here start reports.flatten =
      accumulate key gives here start stages.flatten := by
  refine accumulate_congr fun bound above => ?_
  rw [givesBelow_flatten, givesBelow_flatten]
  constructor
  · intro below stage among
    exact (stands stage among bound above).mp (below _ ((handed _).mpr ⟨stage, among, rfl⟩))
  · intro below r mem
    obtain ⟨stage, among, rfl⟩ := (handed r).mp mem
    exact (stands stage among bound above).mpr (below stage among)

end Svp.Lib

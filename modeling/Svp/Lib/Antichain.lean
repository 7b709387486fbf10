import Mathlib.Data.Fintype.Card
import Mathlib.Data.Finset.Card
import Mathlib.Order.Antichain

/-!
# Antichains and matchings

A matching gives an element at most one element before it, and no two the same one. The
matched elements and an antichain are together no more than all elements
(`IsMatching.card_add_card_le`), and some antichain makes up for all unmatched elements where
these lead only into a closed set of matched ones (`ClosedUnder.exists_antichain`).
-/

namespace Svp.Lib

variable {α : Type*} {before : α → α → Prop}

/-- `M later` is the element the matching puts before `later`. -/
structure IsMatching (before : α → α → Prop) (M : α → Option α) : Prop where
  before_of_eq : ∀ {earlier later}, M later = some earlier → before earlier later
  injective : ∀ {earlier later later'}, M later = some earlier → M later' = some earlier →
    later = later'

/-- Everything an element of the set is matched with leads only into the set. -/
def ClosedUnder (before : α → α → Prop) (M : α → Option α) (Z : Finset α) : Prop :=
  ∀ later ∈ Z, ∃ earlier, M later = some earlier ∧ ∀ next, before earlier next → next ∈ Z

/-- The element is in the set or after one of it. -/
def AtOrAfter (before : α → α → Prop) (A : Finset α) (x : α) : Prop :=
  ∃ a ∈ A, a = x ∨ before a x

/-- The elements with one before them. -/
def matched [Fintype α] (M : α → Option α) : Finset α :=
  Finset.univ.filter fun later => (M later).isSome

theorem mem_matched [Fintype α] {M : α → Option α} {later : α} :
    later ∈ matched M ↔ ∃ earlier, M later = some earlier := by
  rw [matched, Finset.mem_filter, Option.isSome_iff_exists]
  exact and_iff_right (Finset.mem_univ later)

/-! ## At most -/

open Classical in
/-- Where the edge to `later` is charged: to `later` itself if it starts at or after the set,
and to its start if not. -/
noncomputable def charge (before : α → α → Prop) (A : Finset α) (M : α → Option α)
    (later : α) : α :=
  match M later with
  | none => later
  | some earlier => if AtOrAfter before A earlier then later else earlier

theorem charge_of_atOrAfter {A : Finset α} {M : α → Option α} {earlier later : α}
    (eq : M later = some earlier) (above : AtOrAfter before A earlier) :
    charge before A M later = later := by
  rw [charge, eq]
  exact if_pos above

theorem charge_of_not_atOrAfter {A : Finset α} {M : α → Option α} {earlier later : α}
    (eq : M later = some earlier) (below : ¬ AtOrAfter before A earlier) :
    charge before A M later = earlier := by
  rw [charge, eq]
  exact if_neg below

section
variable (irrefl : ∀ a, ¬ before a a) (trans : ∀ a b c, before a b → before b c → before a c)
include trans

theorem AtOrAfter.next {A : Finset α} {x y : α} (above : AtOrAfter before A x)
    (step : before x y) : ∃ a ∈ A, before a y := by
  obtain ⟨a, mem, rfl | strict⟩ := above
  · exact ⟨_, mem, step⟩
  · exact ⟨a, mem, trans _ _ _ strict step⟩

variable [Fintype α]

/-- No element is charged twice. -/
theorem IsMatching.charge_injOn {M : α → Option α} (matching : IsMatching before M)
    (A : Finset α) : Set.InjOn (charge before A M) (matched M : Set α) := by
  -- An edge charged to its end is above the set, one charged to its start is not.
  have mixed : ∀ {u v u' v'}, M v = some u → M v' = some u' → AtOrAfter before A u →
      ¬ AtOrAfter before A u' → v ≠ u' := by
    rintro u v u' v' eq eq' above below rfl
    obtain ⟨a, mem, strict⟩ := above.next trans (matching.before_of_eq eq)
    exact below ⟨a, mem, .inr strict⟩
  intro v memV v' memV' same
  obtain ⟨u, eq⟩ := mem_matched.mp (Finset.mem_coe.mp memV)
  obtain ⟨u', eq'⟩ := mem_matched.mp (Finset.mem_coe.mp memV')
  by_cases above : AtOrAfter before A u <;> by_cases above' : AtOrAfter before A u'
  · rwa [charge_of_atOrAfter eq above, charge_of_atOrAfter eq' above'] at same
  · rw [charge_of_atOrAfter eq above, charge_of_not_atOrAfter eq' above'] at same
    exact absurd same (mixed eq eq' above above')
  · rw [charge_of_not_atOrAfter eq above, charge_of_atOrAfter eq' above'] at same
    exact absurd same.symm (mixed eq' eq above' above)
  · rw [charge_of_not_atOrAfter eq above, charge_of_not_atOrAfter eq' above'] at same
    exact matching.injective eq (same ▸ eq')

include irrefl

/-- No element of an antichain is charged. -/
theorem IsMatching.charge_notMem {M : α → Option α} (matching : IsMatching before M)
    {A : Finset α} (antichain : IsAntichain before (A : Set α)) {later : α}
    (mem : later ∈ matched M) : charge before A M later ∉ A := by
  obtain ⟨earlier, eq⟩ := mem_matched.mp mem
  by_cases above : AtOrAfter before A earlier
  · rw [charge_of_atOrAfter eq above]
    obtain ⟨a, memA, strict⟩ := above.next trans (matching.before_of_eq eq)
    intro memLater
    by_cases same : a = later
    · exact irrefl later (same ▸ strict)
    · exact antichain memA memLater same strict
  · rw [charge_of_not_atOrAfter eq above]
    exact fun memEarlier => above ⟨earlier, memEarlier, .inl rfl⟩

theorem IsMatching.card_add_card_le {M : α → Option α} (matching : IsMatching before M)
    {A : Finset α} (antichain : IsAntichain before (A : Set α)) :
    A.card + (matched M).card ≤ Fintype.card α := by
  classical
  have charged : (matched M).card ≤ Aᶜ.card :=
    Finset.card_le_card_of_injOn (charge before A M)
      (fun later mem => Finset.mem_coe.mpr (Finset.mem_compl.mpr
        (matching.charge_notMem irrefl trans antichain (Finset.mem_coe.mp mem))))
      (matching.charge_injOn trans A)
  calc A.card + (matched M).card
      ≤ A.card + Aᶜ.card := Nat.add_le_add_left charged _
    _ = Fintype.card α := Finset.card_add_card_compl A

end

/-! ## At least -/

section
variable [Fintype α] [DecidableEq α] {M : α → Option α} {Z : Finset α}

/-- What the matching puts before the set, and the elements it puts before nothing. -/
theorem ClosedUnder.exists_antichain (closed : ClosedUnder before M Z)
    (unmatched : ∀ earlier, (∀ later, M later ≠ some earlier) →
      ∀ next, before earlier next → next ∈ Z) :
    ∃ A : Finset α, IsAntichain before (A : Set α) ∧
      Fintype.card α ≤ A.card + (matched M).card := by
  classical
  -- The elements that lead only into the set, the set itself left out.
  let U : Finset α := Finset.univ.filter fun earlier => ∀ next, before earlier next → next ∈ Z
  have memU : ∀ {x}, x ∈ U ↔ ∀ next, before x next → next ∈ Z := by simp [U]
  refine ⟨U \ Z, fun x memX y memY _ xy => ?_, ?_⟩
  · have inside := memU.mp (Finset.mem_sdiff.mp (Finset.mem_coe.mp memX)).1 y xy
    exact (Finset.mem_sdiff.mp (Finset.mem_coe.mp memY)).2 inside
  · -- Every element leads only into the set, or is before an element outside it.
    have cover : (Finset.univ : Finset α) ⊆ U ∪ (matched M \ Z).image fun later =>
        (M later).getD later := by
      intro earlier _
      rw [Finset.mem_union, memU]
      by_cases found : ∃ later, M later = some earlier
      · obtain ⟨later, eq⟩ := found
        by_cases inside : later ∈ Z
        · obtain ⟨earlier', eq', into⟩ := closed later inside
          obtain rfl := Option.some_injective _ (eq.symm.trans eq')
          exact .inl into
        · refine .inr (Finset.mem_image.mpr ⟨later, ?_, by rw [eq, Option.getD_some]⟩)
          exact Finset.mem_sdiff.mpr ⟨mem_matched.mpr ⟨earlier, eq⟩, inside⟩
      · exact .inl (unmatched earlier fun later eq => found ⟨later, eq⟩)
    have sub : Z ⊆ matched M := fun later mem =>
      mem_matched.mpr ((closed later mem).imp fun _ edge => edge.1)
    have all : Fintype.card α ≤ U.card + (matched M \ Z).card :=
      (Finset.card_le_card cover).trans ((Finset.card_union_le _ _).trans
        (Nat.add_le_add_left Finset.card_image_le _))
    have outside : (matched M \ Z).card + Z.card = (matched M).card :=
      Finset.card_sdiff_add_card_eq_card sub
    have atLeast : U.card - Z.card ≤ (U \ Z).card := Finset.le_card_sdiff Z U
    omega

end

end Svp.Lib

import Svp.Lib.Colouring
import Svp.Lib.KeySort

/-!
# Repair of cannot-links

`enforceCannotLinks` gives the observations clusters that keep the pairs that cannot be
linked apart, as near to the preferred ones as its search gets. It is a colouring with a
budget: observations with more conflicts come first, and the clusters of each are tried
in rotation from the preferred one.

Clusters are `int32_t` and the count is a `size_t`.
-/

namespace Svp.Audio

open Lib (ColourProblem ColourSearch colour sortByKey IsColouring PartialColouring)

def kMaximumCannotLinkAssignmentAttempts : Nat := 100000

/-- What the repair is made from. Of an observation it reads the id. -/
structure CannotLinkInput where
  observationIds : List Int
  cannotLinks : List (Int × Int)
  clusterCount : Nat

namespace CannotLinkInput

variable (input : CannotLinkInput)

/-- The position of an observation. -/
abbrev Observation := Fin input.observationIds.length

def observationId (i : input.Observation) : Int := input.observationIds.get i

/-- A later observation takes the place of an earlier one with its id. -/
def indexByObservation (id : Int) : Option input.Observation :=
  (List.finRange input.observationIds.length).reverse.find? fun i => input.observationId i == id

/-- The conflicts one pair adds to an observation. -/
def pairConflicts (i : input.Observation) (pair : Int × Int) : List input.Observation :=
  match input.indexByObservation pair.1, input.indexByObservation pair.2 with
  | some left, some right => (if left = i then [right] else []) ++ if right = i then [left] else []
  | _, _ => []

def conflicts (i : input.Observation) : List input.Observation :=
  input.cannotLinks.flatMap (input.pairConflicts i)

/-- The most constrained observations first. -/
def order : List input.Observation :=
  sortByKey (fun i => OrderDual.toDual (input.conflicts i).length)
    (List.finRange input.observationIds.length)

/-- The cluster tried at an attempt. The sum is unsigned, the cluster an `int32_t`. -/
def candidate (preferred : Int) (attempt : Nat) : Int :=
  if attempt = 0 then preferred
  else (((preferred + attempt) % 2 ^ 64) % input.clusterCount).bmod (2 ^ 32)

def problem (preferred : input.Observation → Int) : ColourProblem input.Observation Int where
  conflicts := input.conflicts
  choices i := (List.range input.clusterCount).map (input.candidate (preferred i))
  blank := -1
  budget := kMaximumCannotLinkAssignmentAttempts

/-- What the repair comes to: its answer, the assignments it leaves, and whether the budget
of attempts ran out. -/
structure Repair where
  respected : Bool
  assignments : input.Observation → Int
  assignmentBudgetExhausted : Bool

def enforceCannotLinks (preferred : input.Observation → Int) : input.Repair :=
  let result := colour (input.problem preferred) input.order ⟨fun _ => -1, 0, false⟩
  if result.1 then ⟨true, result.2.colours, result.2.exhausted⟩
  else ⟨false, preferred, result.2.exhausted⟩

/-! ## Conflicts and clusters -/

/-- All clusters are below the count. -/
def InRange (assignments : input.Observation → Int) : Prop :=
  ∀ i, 0 ≤ assignments i ∧ assignments i < input.clusterCount

/-- No pair that cannot be linked shares a cluster. -/
def Respects (assignments : input.Observation → Int) : Prop :=
  ∀ pair ∈ input.cannotLinks, ∀ i j, input.observationId i = pair.1 →
    input.observationId j = pair.2 → assignments i ≠ assignments j

variable {input}

theorem indexByObservation_eq (distinct : input.observationIds.Nodup) {id : Int}
    {i : input.Observation} : input.indexByObservation id = some i ↔ input.observationId i = id := by
  constructor
  · intro found
    simpa using List.find?_some found
  · rintro rfl
    have known : i ∈ (List.finRange input.observationIds.length).reverse := by simp
    cases found : input.indexByObservation (input.observationId i) with
    | none => exact absurd (List.find?_eq_none.mp found i known) (by simp)
    | some j =>
      have same : input.observationId j = input.observationId i := by
        simpa using List.find?_some found
      exact congrArg some (distinct.injective_get same)

theorem mem_conflicts (distinct : input.observationIds.Nodup) {i j : input.Observation} :
    j ∈ input.conflicts i ↔ ∃ pair ∈ input.cannotLinks,
      (input.observationId i = pair.1 ∧ input.observationId j = pair.2) ∨
        (input.observationId j = pair.1 ∧ input.observationId i = pair.2) := by
  have one : ∀ pair, j ∈ input.pairConflicts i pair ↔
      (input.observationId i = pair.1 ∧ input.observationId j = pair.2) ∨
        (input.observationId j = pair.1 ∧ input.observationId i = pair.2) := by
    intro pair
    simp only [← indexByObservation_eq distinct]
    unfold pairConflicts
    split
    · next left right foundLeft foundRight =>
      rw [foundLeft, foundRight]
      simp only [List.mem_append, Option.some_inj]
      split <;> split <;> simp_all [eq_comm]
    · next none =>
      refine iff_of_false List.not_mem_nil ?_
      rintro (⟨left, right⟩ | ⟨left, right⟩) <;> exact none _ _ left right
  simp only [conflicts, List.mem_flatMap, one]

/-- Respecting the pairs is keeping conflicts apart. -/
theorem respects_iff (distinct : input.observationIds.Nodup) {assignments : input.Observation → Int} :
    input.Respects assignments ↔ ∀ i, ∀ j ∈ input.conflicts i, assignments i ≠ assignments j := by
  simp only [mem_conflicts distinct]
  constructor
  · rintro respects i j ⟨pair, known, ⟨left, right⟩ | ⟨left, right⟩⟩
    · exact respects pair known i j left right
    · exact (respects pair known j i left right).symm
  · intro apart pair known i j left right
    exact apart i j ⟨pair, known, .inl ⟨left, right⟩⟩

theorem candidate_eq {preferred : Int} {attempt : Nat} (few : input.clusterCount ≤ 2 ^ 31)
    (inRange : 0 ≤ preferred ∧ preferred < input.clusterCount) (below : attempt < input.clusterCount) :
    input.candidate preferred attempt = (preferred + attempt) % input.clusterCount := by
  have pos : (0 : Int) < input.clusterCount := inRange.1.trans_lt inRange.2
  unfold candidate
  split
  · next first => rw [first, Nat.cast_zero, add_zero, Int.emod_eq_of_lt inRange.1 inRange.2]
  · have sum : (preferred + attempt) % 2 ^ 64 = preferred + attempt := by
      refine Int.emod_eq_of_lt (by linarith) ?_
      have small : (input.clusterCount : Int) ≤ 2 ^ 31 := by exact_mod_cast few
      have below : (attempt : Int) < input.clusterCount := by exact_mod_cast below
      linarith
    rw [sum]
    have low := Int.emod_nonneg (preferred + attempt) pos.ne'
    have high := Int.emod_lt_of_pos (preferred + attempt) pos
    have small : (input.clusterCount : Int) ≤ 2 ^ 31 := by exact_mod_cast few
    exact Int.bmod_eq_of_le (by norm_num; linarith) (by norm_num; linarith)

/-- The rotation goes through every cluster. -/
theorem mem_choices {preferred : Int} (few : input.clusterCount ≤ 2 ^ 31)
    (inRange : 0 ≤ preferred ∧ preferred < input.clusterCount) {cluster : Int} :
    cluster ∈ (List.range input.clusterCount).map (input.candidate preferred) ↔
      0 ≤ cluster ∧ cluster < input.clusterCount := by
  have pos : (0 : Int) < input.clusterCount := inRange.1.trans_lt inRange.2
  simp only [List.mem_map, List.mem_range]
  constructor
  · rintro ⟨attempt, below, rfl⟩
    rw [candidate_eq few inRange below]
    exact ⟨Int.emod_nonneg _ pos.ne', Int.emod_lt_of_pos _ pos⟩
  · rintro ⟨nonneg, below⟩
    have shift := Int.emod_nonneg (cluster - preferred) pos.ne'
    have bound := Int.emod_lt_of_pos (cluster - preferred) pos
    have small : ((cluster - preferred) % input.clusterCount).toNat < input.clusterCount := by omega
    refine ⟨_, small, ?_⟩
    rw [candidate_eq few inRange small, Int.toNat_of_nonneg shift, Int.add_emod_emod,
      add_sub_cancel, Int.emod_eq_of_lt nonneg below]

/-! ## The repair -/

section
variable {preferred : input.Observation → Int} (distinct : input.observationIds.Nodup)
  (few : input.clusterCount ≤ 2 ^ 31) (inRange : input.InRange preferred)
include distinct few inRange

theorem isColouring_iff {assignments : input.Observation → Int} :
    IsColouring (input.problem preferred) assignments ↔
      input.InRange assignments ∧ input.Respects assignments := by
  rw [respects_iff distinct]
  unfold IsColouring InRange
  rw [← forall_and]
  exact forall_congr' fun i => and_congr_left fun _ => mem_choices few (inRange i)

theorem problem_wellFormed (different : ∀ pair ∈ input.cannotLinks, pair.1 ≠ pair.2) :
    (input.problem preferred).WellFormed where
  symm i j conflict := by
    obtain ⟨pair, known, either⟩ := (mem_conflicts distinct).mp conflict
    exact (mem_conflicts distinct).mpr ⟨pair, known, either.symm⟩
  irrefl i conflict := by
    obtain ⟨pair, known, ⟨left, right⟩ | ⟨left, right⟩⟩ := (mem_conflicts distinct).mp conflict
    · exact different pair known (left.symm.trans right)
    · exact different pair known (left.symm.trans right)
  blank i inChoices := by
    have nonneg := ((mem_choices few (inRange i)).mp inChoices).1
    exact absurd (show (0 : Int) ≤ -1 from nonneg) (by decide)

end

theorem order_perm : input.order.Perm (List.finRange input.observationIds.length) :=
  Lib.sortByKey_perm _ _

theorem mem_order (i : input.Observation) : i ∈ input.order :=
  order_perm.mem_iff.mpr (List.mem_finRange i)

theorem order_nodup : input.order.Nodup := order_perm.nodup_iff.mpr (List.nodup_finRange _)

/-- The first choice is the preferred cluster. -/
theorem head?_choices {preferred : Int} (some : 0 < input.clusterCount) :
    ((List.range input.clusterCount).map (input.candidate preferred)).head? = Option.some preferred := by
  obtain ⟨rest, count⟩ := Nat.exists_eq_succ_of_ne_zero some.ne'
  rw [count, List.range_succ_eq_map, List.map_cons, List.head?_cons]
  rfl

/-- Three observations of which two cannot be linked. -/
def oneLink : CannotLinkInput := ⟨[5, 7, 9], [(5, 9)], 2⟩

end CannotLinkInput

end Svp.Audio

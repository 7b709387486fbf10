import Mathlib.Logic.Relation
import Svp.Builder.StagingScope
import Svp.Exec.Error

/-!
# Planned stage tasks

A build is planned as a list of whole-stage tasks in topological order. One pass over the
list closes the dependencies transitively (`transitiveClosure_eq_ok`), and
`checkScopeOrdering` accepts the plan exactly where every two tasks whose scopes cover a
common path are ordered by a chain of dependencies (`checkScopeOrdering_iff`).
-/

namespace Svp.Builder

open Exec (bind_eq_ok check_bind_eq_ok forM_eq_ok)

inductive StageTaskKind
  | inventory
  | color
  | visionPlan
  | foundationOcr
  | audioExtract
  | audioTranscribe
  | canonicalFrames
  | depth
  | ocr
  | textEmbeddings
  | tracking
  | entities
  | relationships
  | index
  | validation
  | packageWrite
  | mediaBinding
  | svpiWrite
deriving DecidableEq

def stageTaskId : StageTaskKind → String
  | .inventory => "task.inventory.source_000"
  | .color => "task.color.vstream_000"
  | .visionPlan => "task.vision_plan.vstream_000"
  | .foundationOcr => "task.ocr.vstream_000.foundation"
  | .audioExtract => "task.audio.extract.source_000"
  | .audioTranscribe => "task.transcript.source_000"
  | .canonicalFrames => "task.frames.vstream_000.canonical"
  | .depth => "task.depth.vstream_000.canonical"
  | .ocr => "task.ocr.vstream_000"
  | .textEmbeddings => "task.embedding.text.vstream_000"
  | .tracking => "task.tracking.vstream_000"
  | .entities => "task.entities.package"
  | .relationships => "task.relationships.package"
  | .index => "task.index.package"
  | .validation => "task.validation.package"
  | .packageWrite => "task.package.write"
  | .mediaBinding => "task.binding.source_000"
  | .svpiWrite => "task.svpi.write"

structure PlannedStageTask where
  kind : StageTaskKind
  dependsOn : List StageTaskKind
  scope : StagingScope

/-- What the planner throws. -/
inductive PlanError
  /-- `std::map::at` has no such key. -/
  | outOfRange
  | logicError (message : String)
deriving DecidableEq

/-! ## The closure -/

/-- The position the map has for a kind: the last task of that kind. -/
def taskIndex (tasks : List PlannedStageTask) (kind : StageTaskKind) : Option Nat :=
  (tasks.zipIdx.reverse.find? fun entry => entry.1.kind == kind).map Prod.snd

/-- The positions a task depends on, given the rows of the tasks before it. -/
def closureRow (tasks : List PlannedStageTask) (rows : List (Finset Nat)) :
    List StageTaskKind → Finset Nat → Except PlanError (Finset Nat)
  | [], row => .ok row
  | dependency :: dependencies, row =>
    match taskIndex tasks dependency with
    | none => .error .outOfRange
    | some d =>
      if rows.length ≤ d then .error (.logicError "stage task plan is not in topological order")
      else closureRow tasks rows dependencies (insert d row ∪ rows.getD d ∅)

/-- Closes the tasks that are left, one after another. -/
def closeRows (tasks : List PlannedStageTask) :
    List PlannedStageTask → List (Finset Nat) → Except PlanError (List (Finset Nat))
  | [], rows => .ok rows
  | task :: later, rows => do
    let row ← closureRow tasks rows task.dependsOn ∅
    closeRows tasks later (rows ++ [row])

/-- For every task the positions a path of dependencies leads to. -/
def transitiveClosure (tasks : List PlannedStageTask) : Except PlanError (List (Finset Nat)) :=
  closeRows tasks tasks []

/-! ## The check -/

/-- Fails where neither a path of dependencies leads from `i` to `j` nor the scopes are apart. -/
def checkPair (tasks : List PlannedStageTask) (reachable : List (Finset Nat)) (i j : Nat) :
    Except PlanError Unit :=
  match tasks[i]?, tasks[j]? with
  | some later, some earlier =>
    if j ∉ reachable.getD i ∅ ∧ scopesOverlap later.scope earlier.scope then
      .error (.logicError ("stage tasks `" ++ stageTaskId later.kind ++ "` and `" ++
        stageTaskId earlier.kind ++ "` may run concurrently but share staging paths"))
    else .ok ()
  | _, _ => .ok ()

def checkScopeOrdering (tasks : List PlannedStageTask) : Except PlanError Unit := do
  let reachable ← transitiveClosure tasks
  (List.range tasks.length).forM fun i => (List.range i).forM fun j => checkPair tasks reachable i j

/-! ## Plans -/

/-- The tasks at two positions depend on one another. -/
def DependsOn (tasks : List PlannedStageTask) (i j : Nat) : Prop :=
  ∃ later earlier, tasks[i]? = some later ∧ tasks[j]? = some earlier ∧ earlier.kind ∈ later.dependsOn

/-- A chain of dependencies leads from one position to the other. -/
def Chain (tasks : List PlannedStageTask) : Nat → Nat → Prop :=
  Relation.TransGen (DependsOn tasks)

/-- Distinct kinds, and every dependency is a task before. -/
structure IsPlan (tasks : List PlannedStageTask) : Prop where
  distinct : (tasks.map PlannedStageTask.kind).Nodup
  precede : ∀ (i : Nat) (task : PlannedStageTask), tasks[i]? = some task →
    ∀ kind ∈ task.dependsOn, ∃ j < i, tasks[j]?.map PlannedStageTask.kind = some kind

theorem IsPlan.index_unique {tasks : List PlannedStageTask} (plan : IsPlan tasks) {i j : Nat}
    {a b : PlannedStageTask} (atI : tasks[i]? = some a) (atJ : tasks[j]? = some b)
    (same : a.kind = b.kind) : i = j := by
  have bound : i < (tasks.map PlannedStageTask.kind).length :=
    (List.length_map _).symm ▸ (List.getElem?_eq_some_iff.mp atI).1
  refine (List.getElem?_inj bound plan.distinct).mp ?_
  rw [List.getElem?_map, List.getElem?_map, atI, atJ, Option.map_some, Option.map_some, same]

/-- The map has each task's kind at its position. -/
theorem IsPlan.taskIndex_eq {tasks : List PlannedStageTask} (plan : IsPlan tasks) {j : Nat}
    {task : PlannedStageTask} (at_ : tasks[j]? = some task) : taskIndex tasks task.kind = some j := by
  have mem : (task, j) ∈ tasks.zipIdx.reverse :=
    List.mem_reverse.mpr (List.mem_zipIdx_iff_getElem?.mpr at_)
  unfold taskIndex
  cases found : tasks.zipIdx.reverse.find? fun entry => entry.1.kind == task.kind with
  | none =>
    have other := List.find?_eq_none.mp found _ mem
    exact absurd (beq_self_eq_true task.kind) other
  | some entry =>
    have same := List.find?_some found
    have at_' := List.mem_zipIdx_iff_getElem?.mp (List.mem_reverse.mp (List.mem_of_find?_eq_some found))
    rw [Option.map_some, plan.index_unique at_' at_ (eq_of_beq same)]

theorem IsPlan.dependsOn_lt {tasks : List PlannedStageTask} (plan : IsPlan tasks) {i j : Nat}
    (depends : DependsOn tasks i j) : j < i := by
  obtain ⟨later, earlier, atI, atJ, mem⟩ := depends
  obtain ⟨k, before, kind⟩ := plan.precede i later atI earlier.kind mem
  obtain ⟨task, atK, same⟩ := Option.map_eq_some_iff.mp kind
  rwa [plan.index_unique atJ atK same.symm]

/-- The positions a task depends on are those the map has for its dependencies. -/
theorem IsPlan.dependsOn_iff {tasks : List PlannedStageTask} (plan : IsPlan tasks) {i d : Nat}
    {task : PlannedStageTask} (at_ : tasks[i]? = some task) : DependsOn tasks i d ↔
      ∃ kind ∈ task.dependsOn, taskIndex tasks kind = some d := by
  constructor
  · rintro ⟨later, earlier, atI, atD, mem⟩
    obtain rfl := Option.some_injective _ (at_.symm.trans atI)
    exact ⟨earlier.kind, mem, plan.taskIndex_eq atD⟩
  · rintro ⟨kind, mem, index⟩
    obtain ⟨j, _, same⟩ := plan.precede i task at_ kind mem
    obtain ⟨earlier, atJ, rfl⟩ := Option.map_eq_some_iff.mp same
    obtain rfl := Option.some_injective _ ((plan.taskIndex_eq atJ).symm.trans index)
    exact ⟨task, earlier, at_, atJ, mem⟩

theorem IsPlan.chain_lt {tasks : List PlannedStageTask} (plan : IsPlan tasks) {i j : Nat}
    (chain : Chain tasks i j) : j < i := by
  induction chain with
  | single depends => exact plan.dependsOn_lt depends
  | tail _ depends ih => exact (plan.dependsOn_lt depends).trans ih

/-- A chain starts with a dependency. -/
theorem chain_iff {tasks : List PlannedStageTask} {i j : Nat} :
    Chain tasks i j ↔ ∃ d, DependsOn tasks i d ∧ (j = d ∨ Chain tasks d j) := by
  rw [Chain, Relation.TransGen.head'_iff]
  refine exists_congr fun d => and_congr_right fun _ => ?_
  exact Relation.reflTransGen_iff_eq_or_transGen

/-! ## The rows are the chains -/

/-- What one dependency after another adds to a row. -/
theorem closureRow_eq_ok {tasks : List PlannedStageTask} {rows : List (Finset Nat)}
    {dependencies : List StageTaskKind} {row : Finset Nat}
    (known : ∀ kind ∈ dependencies, ∃ d < rows.length, taskIndex tasks kind = some d) :
    ∃ row', closureRow tasks rows dependencies row = .ok row' ∧ ∀ j, j ∈ row' ↔
      j ∈ row ∨ ∃ kind ∈ dependencies, ∃ d, taskIndex tasks kind = some d ∧
        (j = d ∨ j ∈ rows.getD d ∅) := by
  induction dependencies generalizing row with
  | nil => exact ⟨row, rfl, fun j => by simp⟩
  | cons kind dependencies ih =>
    obtain ⟨⟨d, before, index⟩, others⟩ := List.forall_mem_cons.mp known
    obtain ⟨row', rest, members⟩ := @ih (insert d row ∪ rows.getD d ∅) others
    refine ⟨row', ?_, fun j => ?_⟩
    · rw [closureRow, index]
      exact (if_neg (not_le.mpr before)).trans rest
    · rw [members, Finset.mem_union, Finset.mem_insert]
      simp only [List.mem_cons, exists_eq_or_imp, index, Option.some.injEq, exists_eq_left',
        or_assoc, or_left_comm]

/-- The rows so far are the chains of the tasks so far. -/
def RowsOf (tasks : List PlannedStageTask) (rows : List (Finset Nat)) : Prop :=
  ∀ i < rows.length, ∀ j, j ∈ rows.getD i ∅ ↔ Chain tasks i j

/-- Closing one task more: its row holds its dependencies with their rows. -/
theorem RowsOf.concat {tasks : List PlannedStageTask} {rows : List (Finset Nat)}
    (isRows : RowsOf tasks rows) (plan : IsPlan tasks) {task : PlannedStageTask}
    (at_ : tasks[rows.length]? = some task) : ∃ row,
      closureRow tasks rows task.dependsOn ∅ = .ok row ∧ RowsOf tasks (rows ++ [row]) := by
  have known : ∀ kind ∈ task.dependsOn, ∃ d < rows.length, taskIndex tasks kind = some d := by
    intro kind mem
    obtain ⟨d, before, same⟩ := plan.precede _ task at_ kind mem
    obtain ⟨earlier, atD, rfl⟩ := Option.map_eq_some_iff.mp same
    exact ⟨d, before, plan.taskIndex_eq atD⟩
  obtain ⟨row, closed, members⟩ := @closureRow_eq_ok tasks rows task.dependsOn ∅ known
  have isRow : ∀ j, j ∈ row ↔ Chain tasks rows.length j := by
    intro j
    rw [members, chain_iff]
    constructor
    · rintro (none | ⟨kind, mem, d, index, reaches⟩)
      · exact absurd none (Finset.notMem_empty j)
      · have depends := (plan.dependsOn_iff at_).mpr ⟨kind, mem, index⟩
        exact ⟨d, depends, reaches.imp_right (isRows d (plan.dependsOn_lt depends) j).mp⟩
    · rintro ⟨d, depends, reaches⟩
      obtain ⟨kind, mem, index⟩ := (plan.dependsOn_iff at_).mp depends
      exact .inr ⟨kind, mem, d, index,
        reaches.imp_right (isRows d (plan.dependsOn_lt depends) j).mpr⟩
  refine ⟨row, closed, fun i bound j => ?_⟩
  rw [List.length_append, List.length_singleton, Nat.lt_succ_iff_lt_or_eq] at bound
  rcases bound with before | rfl
  · rw [List.getD_append _ _ _ _ before]
    exact isRows i before j
  · rw [List.getD_append_right _ _ _ _ le_rfl, Nat.sub_self]
    exact isRow j

theorem closeRows_eq_ok {tasks later : List PlannedStageTask} {rows : List (Finset Nat)}
    (plan : IsPlan tasks) (isRows : RowsOf tasks rows) (rest : tasks.drop rows.length = later) :
    ∃ rows', closeRows tasks later rows = .ok rows' ∧ RowsOf tasks rows' ∧
      rows'.length = rows.length + later.length := by
  induction later generalizing rows with
  | nil => exact ⟨rows, rfl, isRows, rfl⟩
  | cons task later ih =>
    have at_ : tasks[rows.length]? = some task := by
      rw [← List.head?_drop, rest, List.head?_cons]
    obtain ⟨row, closed, isRows'⟩ := isRows.concat plan at_
    have rest' : tasks.drop (rows ++ [row]).length = later := by
      rw [List.length_append, List.length_singleton, ← List.drop_drop, rest, List.drop_succ_cons,
        List.drop_zero]
    obtain ⟨rows', closes, isRows'', length⟩ := ih isRows' rest'
    refine ⟨rows', bind_eq_ok.mpr ⟨row, closed, closes⟩, isRows'', ?_⟩
    rw [length, List.length_append, List.length_singleton, List.length_cons, Nat.add_assoc,
      Nat.add_comm 1]

/-- The closure of a plan does not fail, and its rows are the chains. -/
theorem transitiveClosure_eq_ok {tasks : List PlannedStageTask} (plan : IsPlan tasks) :
    ∃ rows, transitiveClosure tasks = .ok rows ∧
      ∀ i < tasks.length, ∀ j, j ∈ rows.getD i ∅ ↔ Chain tasks i j := by
  have none : RowsOf tasks [] := fun i bound => absurd bound (Nat.not_lt_zero i)
  obtain ⟨rows, closes, isRows, length⟩ := closeRows_eq_ok plan none List.drop_zero
  rw [List.length_nil, Nat.zero_add] at length
  exact ⟨rows, closes, length ▸ isRows⟩

/-! ## The check -/

theorem checkPair_eq_ok {tasks : List PlannedStageTask} {rows : List (Finset Nat)} {i j : Nat} :
    checkPair tasks rows i j = .ok () ↔ ∀ later earlier, tasks[i]? = some later →
      tasks[j]? = some earlier → scopesOverlap later.scope earlier.scope = true →
        j ∈ rows.getD i ∅ := by
  unfold checkPair
  cases atI : tasks[i]? with
  | none => simp
  | some later =>
    cases atJ : tasks[j]? with
    | none => simp
    | some earlier =>
      by_cases bad : j ∉ rows.getD i ∅ ∧ scopesOverlap later.scope earlier.scope = true
      · refine iff_of_false (fun ok => ?_) fun all => bad.1 (all later earlier rfl rfl bad.2)
        exact nomatch (if_pos bad).symm.trans ok
      · refine iff_of_true (if_neg bad) fun a b eqA eqB overlap => ?_
        obtain rfl := Option.some_injective _ eqA
        obtain rfl := Option.some_injective _ eqB
        exact not_not.mp fun unreached => bad ⟨unreached, overlap⟩

/-- A plan is accepted exactly where tasks whose scopes cover a common path are ordered by a
chain of dependencies. -/
theorem checkScopeOrdering_iff {tasks : List PlannedStageTask} (plan : IsPlan tasks) :
    checkScopeOrdering tasks = .ok () ↔ ∀ (i j : Nat) (a b : PlannedStageTask), i ≠ j →
      tasks[i]? = some a → tasks[j]? = some b →
      (∃ path, scopeCovers a.scope path = true ∧ scopeCovers b.scope path = true) →
        Chain tasks i j ∨ Chain tasks j i := by
  obtain ⟨rows, closes, isRows⟩ := transitiveClosure_eq_ok plan
  have accepts : checkScopeOrdering tasks = .ok () ↔ ∀ i < tasks.length, ∀ j < i,
      checkPair tasks rows i j = .ok () := by
    rw [checkScopeOrdering, closes]
    exact forM_eq_ok.trans (by simp only [List.mem_range, forM_eq_ok])
  rw [accepts]
  constructor
  · intro pairs i j a b ne atI atJ shared
    have ordered : ∀ {i j : Nat} {a b : PlannedStageTask}, j < i → tasks[i]? = some a →
        tasks[j]? = some b → scopesOverlap a.scope b.scope = true → Chain tasks i j :=
      fun {i j a b} before atI atJ overlap =>
        have bound := (List.getElem?_eq_some_iff.mp atI).1
        (isRows i bound j).mp (checkPair_eq_ok.mp (pairs i bound j before) a b atI atJ overlap)
    obtain ⟨path, coversA, coversB⟩ := shared
    rcases Nat.lt_or_gt_of_ne ne with before | after
    · exact .inr (ordered before atJ atI (scopesOverlap_iff.mpr ⟨path, coversB, coversA⟩))
    · exact .inl (ordered after atI atJ (scopesOverlap_iff.mpr ⟨path, coversA, coversB⟩))
  · intro ordered i bound j before
    refine checkPair_eq_ok.mpr fun later earlier atI atJ overlap => ?_
    rcases ordered i j later earlier before.ne' atI atJ (scopesOverlap_iff.mp overlap) with
      chain | chain
    · exact (isRows i bound j).mpr chain
    · exact absurd (plan.chain_lt chain) before.not_gt

/-- The color task after the inventory, both on one file. -/
def inventoryThenColor : List PlannedStageTask :=
  [⟨.inventory, [], ⟨[[97]]⟩⟩, ⟨.color, [.inventory], ⟨[[97]]⟩⟩]

theorem inventoryThenColor_isPlan : IsPlan inventoryThenColor where
  distinct := by decide
  precede
    | 0, _, rfl, _, mem => absurd mem List.not_mem_nil
    | 1, _, rfl, _, mem => ⟨0, Nat.one_pos, congrArg some (List.mem_singleton.mp mem).symm⟩

theorem checkScopeOrdering_inventoryThenColor : checkScopeOrdering inventoryThenColor = .ok () := by
  have depends : DependsOn inventoryThenColor 1 0 := ⟨_, _, rfl, rfl, List.mem_singleton_self _⟩
  refine (checkScopeOrdering_iff inventoryThenColor_isPlan).mpr fun i j a b ne atI atJ _ => ?_
  have boundI : i < 2 := (List.getElem?_eq_some_iff.mp atI).1
  have boundJ : j < 2 := (List.getElem?_eq_some_iff.mp atJ).1
  obtain ⟨rfl, rfl⟩ | ⟨rfl, rfl⟩ : i = 0 ∧ j = 1 ∨ i = 1 ∧ j = 0 := by omega
  · exact .inr (.single depends)
  · exact .inl (.single depends)

end Svp.Builder

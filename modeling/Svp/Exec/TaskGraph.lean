import Svp.Exec.Records

/-!
# The task graph, its ready set and its ready queue

`TaskGraph` carries the rules its construction enforces: unique ids and order
keys, closed and strictly ascending dependency lists, no cycle. `ReadySet`
tracks which tasks are complete; `ReadySet.Sound` ties its counters to that, and
`mem_complete` says which dependents a completion makes ready. `ReadyQueue`
keeps ready tasks in dispatch order.
-/

namespace Svp.Exec

/-- Canonical position of a task's result among the results of its lane. -/
structure TaskOrderKey where
  lane : String
  ordinals : List Nat := []
deriving DecidableEq

/-- Lane first, then ordinals lexicographically. -/
def TaskOrderKey.before (left right : TaskOrderKey) : Bool :=
  if left.lane ≠ right.lane then decide (left.lane < right.lane)
  else decide (left.ordinals < right.ordinals)

theorem TaskOrderKey.before_irrefl (k : TaskOrderKey) : k.before k = false := by
  simp [before]

theorem TaskOrderKey.before_trans {a b c : TaskOrderKey} (hab : a.before b = true)
    (hbc : b.before c = true) : a.before c = true := by
  unfold before at *
  by_cases ab : a.lane = b.lane
  · by_cases bc : b.lane = c.lane
    · simp_all only [ne_eq, not_true_eq_false, if_false, decide_eq_true_eq]
      exact lt_trans hab hbc
    · simp_all
  · by_cases bc : b.lane = c.lane
    · simp_all
    · simp only [ne_eq, ab, bc, not_false_eq_true, if_true, decide_eq_true_eq] at hab hbc
      have ac := lt_trans hab hbc
      simp [ac, ne_of_lt ac]

theorem TaskOrderKey.before_total {a b : TaskOrderKey} (hne : a ≠ b) :
    a.before b = true ∨ b.before a = true := by
  unfold before
  by_cases lane : a.lane = b.lane
  · have ordinals : a.ordinals ≠ b.ordinals := fun h => hne (by
      cases a; cases b; simp_all)
    simpa [lane] using lt_or_gt_of_ne ordinals
  · simpa [lane, Ne.symm lane] using lt_or_gt_of_ne lane

structure TaskNode where
  spec : TaskSpec
  orderKey : TaskOrderKey

namespace TaskNodes

/-- Nodes under construction, indexed by position. -/
def find (nodes : List TaskNode) (taskId : String) : Option (Fin nodes.length) :=
  (List.finRange nodes.length).find? fun i => (nodes.get i).spec.taskId = taskId

def dependencies (nodes : List TaskNode) (i : Fin nodes.length) : List (Fin nodes.length) :=
  (nodes.get i).spec.dependsOn.filterMap (find nodes)

/-- The tasks that list `i`, ascending. A dependency list has no duplicates, so
each appears once. -/
def dependents (nodes : List TaskNode) (i : Fin nodes.length) : List (Fin nodes.length) :=
  (List.finRange nodes.length).filter fun d => decide (i ∈ dependencies nodes d)

/-- The topological order built so far and how many dependencies of each task
are not in it. -/
structure Kahn (n : Nat) where
  pending : Fin n → Nat
  order : List (Fin n)

def Kahn.visit {n : Nat} (k : Kahn n) (dependent : Fin n) : Kahn n :=
  let pending := Function.update k.pending dependent (k.pending dependent - 1)
  { pending, order := if pending dependent = 0 then k.order ++ [dependent] else k.order }

/-- Takes the tasks of the order one after another; every task enters it once,
so as many rounds as there are nodes are enough. -/
def kahnLoop (nodes : List TaskNode) : Nat → Nat → Kahn nodes.length → Kahn nodes.length
  | 0, _, k => k
  | rounds + 1, cursor, k =>
    match k.order[cursor]? with
    | none => k
    | some task => kahnLoop nodes rounds (cursor + 1) ((dependents nodes task).foldl Kahn.visit k)

def kahnOrder (nodes : List TaskNode) : List (Fin nodes.length) :=
  (kahnLoop nodes nodes.length 0
    { pending := fun i => (dependencies nodes i).length
      order := (List.finRange nodes.length).filter fun i => (dependencies nodes i).isEmpty }).order

section UniqueIds

variable {nodes : List TaskNode} (unique : (nodes.map fun node => node.spec.taskId).Nodup)
include unique

theorem taskId_injective :
    Function.Injective fun i : Fin nodes.length => (nodes.get i).spec.taskId := by
  intro i j same
  have nodup := List.nodup_iff_injective_get.mp unique
  have same' : (nodes.map fun node => node.spec.taskId).get (i.cast (by simp)) =
      (nodes.map fun node => node.spec.taskId).get (j.cast (by simp)) := by
    simpa using same
  exact Fin.ext (by simpa [Fin.ext_iff] using nodup same')

theorem find_eq_some {taskId : String} {i : Fin nodes.length} :
    find nodes taskId = some i ↔ (nodes.get i).spec.taskId = taskId := by
  have named : ∀ {j : Fin nodes.length} {id : String}, find nodes id = some j →
      (nodes.get j).spec.taskId = id := by
    intro j id found
    have := List.find?_some found
    rwa [decide_eq_true_eq] at this
  constructor
  · exact named
  · rintro rfl
    have isSome : (find nodes (nodes.get i).spec.taskId).isSome :=
      List.find?_isSome.mpr ⟨i, List.mem_finRange i, by simp⟩
    obtain ⟨j, found⟩ := Option.isSome_iff_exists.mp isSome
    rw [found, taskId_injective unique (named found)]

/-- A dependency is a task the list names. -/
theorem mem_dependencies {i j : Fin nodes.length} :
    j ∈ dependencies nodes i ↔ (nodes.get j).spec.taskId ∈ (nodes.get i).spec.dependsOn := by
  rw [dependencies, List.mem_filterMap]
  constructor
  · rintro ⟨id, mem, found⟩
    rwa [(find_eq_some unique).mp found]
  · exact fun mem => ⟨_, mem, (find_eq_some unique).mpr rfl⟩

theorem dependencies_nodup {i : Fin nodes.length}
    (ascending : (nodes.get i).spec.dependsOn.Pairwise (· < ·)) :
    (dependencies nodes i).Nodup := by
  have distinct : (nodes.get i).spec.dependsOn.Nodup := ascending.imp fun h => ne_of_lt h
  refine List.Nodup.filterMap (fun a a' b ha ha' => ?_) distinct
  rw [← (find_eq_some unique).mp ha, ← (find_eq_some unique).mp ha']

end UniqueIds

theorem mem_dependents {nodes : List TaskNode} {i d : Fin nodes.length} :
    d ∈ dependents nodes i ↔ i ∈ dependencies nodes d := by
  rw [dependents, List.mem_filter, decide_eq_true_eq]
  exact ⟨fun h => h.2, fun h => ⟨List.mem_finRange d, h⟩⟩

theorem dependents_nodup {nodes : List TaskNode} (i : Fin nodes.length) :
    (dependents nodes i).Nodup :=
  (List.nodup_finRange _).filter _

end TaskNodes

/-- Immutable DAG of task specs. Node indices follow the input order. -/
structure TaskGraph where
  nodes : List TaskNode
  uniqueIds : (nodes.map fun node => node.spec.taskId).Nodup
  uniqueKeys : (nodes.map TaskNode.orderKey).Nodup
  ascending : ∀ node ∈ nodes, node.spec.dependsOn.Pairwise (· < ·)
  closed : ∀ node ∈ nodes, ∀ d ∈ node.spec.dependsOn, d ∈ nodes.map fun node => node.spec.taskId
  acyclic : (TaskNodes.kahnOrder nodes).length = nodes.length

def kUint64Max : Nat := 2 ^ 64 - 1

def saturatingAdd (left right : Nat) : Nat :=
  if left > kUint64Max - right then kUint64Max else left + right

namespace TaskGraph

variable (graph : TaskGraph)

abbrev size : Nat := graph.nodes.length

/-- A node index. -/
abbrev Task : Type := Fin graph.size

def node (i : graph.Task) : TaskNode := graph.nodes.get i

def spec (i : graph.Task) : TaskSpec := (graph.node i).spec

def taskId (i : graph.Task) : String := (graph.spec i).taskId

def find (taskId : String) : Option graph.Task := TaskNodes.find graph.nodes taskId

def dependencies (i : graph.Task) : List graph.Task := TaskNodes.dependencies graph.nodes i

def dependents (i : graph.Task) : List graph.Task := TaskNodes.dependents graph.nodes i

/-- One entry of the critical-path pass over the reversed topological order. -/
def lengthen (seconds : graph.Task → Nat) (task : graph.Task) : graph.Task → Nat :=
  Function.update seconds task (saturatingAdd (graph.spec task).resources.estSeconds
    ((graph.dependents task).foldl (fun longest d => max longest (seconds d)) 0))

/-- Estimated seconds along the longest path from a task to a task nothing
depends on. -/
def criticalPathSeconds : graph.Task → Nat :=
  (TaskNodes.kahnOrder graph.nodes).reverse.foldl graph.lengthen fun _ => 0

variable {graph}

theorem taskId_injective : Function.Injective graph.taskId :=
  TaskNodes.taskId_injective graph.uniqueIds

theorem orderKey_injective : Function.Injective fun i : graph.Task => (graph.node i).orderKey := by
  intro i j same
  have nodup := List.nodup_iff_injective_get.mp graph.uniqueKeys
  have same' : (graph.nodes.map TaskNode.orderKey).get (i.cast (by simp)) =
      (graph.nodes.map TaskNode.orderKey).get (j.cast (by simp)) := by
    simpa [node] using same
  exact Fin.ext (by simpa [Fin.ext_iff] using nodup same')

theorem find_eq_some {taskId : String} {i : graph.Task} :
    graph.find taskId = some i ↔ graph.taskId i = taskId :=
  TaskNodes.find_eq_some graph.uniqueIds

theorem mem_dependents {i d : graph.Task} : d ∈ graph.dependents i ↔ i ∈ graph.dependencies d :=
  TaskNodes.mem_dependents

theorem dependents_nodup (i : graph.Task) : (graph.dependents i).Nodup :=
  TaskNodes.dependents_nodup i

theorem dependencies_nodup (i : graph.Task) : (graph.dependencies i).Nodup :=
  TaskNodes.dependencies_nodup graph.uniqueIds (graph.ascending _ (List.get_mem graph.nodes i))

end TaskGraph

/-! ## The ready set -/

/-- Which tasks are complete and how many dependencies of each are not. -/
structure ReadySet (graph : TaskGraph) where
  pending : graph.Task → Nat
  complete : graph.Task → Bool
  completedCount : Nat

namespace ReadySet

variable {graph : TaskGraph}

def start (graph : TaskGraph) : ReadySet graph where
  pending i := (graph.dependencies i).length
  complete _ := false
  completedCount := 0

/-- `complete(index)`: marks a task and returns the dependents that became
ready, ascending. -/
def markComplete (s : ReadySet graph) (index : graph.Task) : List graph.Task × ReadySet graph :=
  let pending := fun t => if t ∈ graph.dependents index then s.pending t - 1 else s.pending t
  ((graph.dependents index).filter fun t => pending t = 0,
    { pending, complete := Function.update s.complete index true
      completedCount := s.completedCount + 1 })

def allComplete (s : ReadySet graph) : Bool := s.completedCount == graph.size

/-- Every dependency of `t` is complete. -/
def DepsComplete (s : ReadySet graph) (t : graph.Task) : Prop :=
  ∀ d ∈ graph.dependencies t, s.complete d = true

instance (s : ReadySet graph) (t : graph.Task) : Decidable (s.DepsComplete t) :=
  inferInstanceAs (Decidable (∀ d ∈ graph.dependencies t, s.complete d = true))

/-- The counters agree with the completion flags. -/
structure Sound (s : ReadySet graph) : Prop where
  pending : ∀ t, s.pending t = (graph.dependencies t).countP fun d => !s.complete d
  count : s.completedCount = (List.finRange graph.size).countP s.complete

theorem Sound.start : (ReadySet.start graph).Sound where
  pending t := by simp [ReadySet.start]
  count := by simp [ReadySet.start]

theorem Sound.pending_eq_zero {s : ReadySet graph} (h : s.Sound) (t : graph.Task) :
    s.pending t = 0 ↔ s.DepsComplete t := by
  rw [h.pending, List.countP_eq_zero]
  simp [DepsComplete]

theorem Sound.allComplete_iff {s : ReadySet graph} (h : s.Sound) :
    s.allComplete = true ↔ ∀ t, s.complete t = true := by
  have all := List.countP_eq_length (p := s.complete) (l := List.finRange graph.size)
  rw [List.length_finRange, ← h.count] at all
  rw [allComplete, beq_iff_eq, all]
  exact ⟨fun h t => h t (List.mem_finRange t), fun h t _ => h t⟩

theorem markComplete_complete (s : ReadySet graph) (index t : graph.Task) :
    (s.markComplete index).2.complete t = if t = index then true else s.complete t := by
  simp [markComplete, Function.update_apply]

/-- Counting over a list without duplicates, one more element satisfies the
predicate. -/
theorem countP_update {α : Type*} [DecidableEq α] {l : List α} (nodup : l.Nodup) {f : α → Bool}
    {a : α} (b : Bool) (old : f a = !b) :
    l.countP f + (if a ∈ l then b.toNat else 0) =
      l.countP (Function.update f a b) + (if a ∈ l then (!b).toNat else 0) := by
  induction l with
  | nil => simp
  | cons x xs ih =>
    obtain ⟨notMem, rest⟩ := List.nodup_cons.mp nodup
    have ih := ih rest
    by_cases head : x = a
    · subst head
      have same : xs.countP (Function.update f x b) = xs.countP f := by
        refine List.countP_congr fun y mem => ?_
        have ne : y ≠ x := fun h => notMem (h ▸ mem)
        simp [Function.update_of_ne ne]
      cases b <;> simp_all
    · have ne : a ≠ x := Ne.symm head
      have eq : Function.update f a b x = f x := Function.update_of_ne head b f
      rw [List.countP_cons, List.countP_cons, eq]
      by_cases mem : a ∈ xs <;> simp [mem, ne] at ih ⊢ <;> omega

theorem Sound.markComplete {s : ReadySet graph} (h : s.Sound) {index : graph.Task}
    (fresh : s.complete index = false) : (s.markComplete index).2.Sound where
  pending t := by
    have update := countP_update (graph.dependencies_nodup t) (f := fun d => !s.complete d)
      (a := index) false (by simp [fresh])
    have flags : (fun d => !(s.markComplete index).2.complete d) =
        Function.update (fun d => !s.complete d) index false := by
      funext d
      rw [markComplete_complete, Function.update_apply]
      split <;> rfl
    rw [flags]
    simp only [ReadySet.markComplete, TaskGraph.mem_dependents, h.pending]
    split <;> simp_all
  count := by
    have update := countP_update (List.nodup_finRange graph.size) (f := s.complete)
      (a := index) true (by simp [fresh])
    have flags : (s.markComplete index).2.complete = Function.update s.complete index true := rfl
    rw [flags]
    have mem : index ∈ List.finRange graph.size := List.mem_finRange index
    simp only [mem, if_true, Bool.toNat_true, Bool.not_true, Bool.toNat_false, ← h.count] at update
    simpa [ReadySet.markComplete] using update

/-- The tasks a completion returns: the dependents with every dependency now
complete. -/
theorem mem_markComplete {s : ReadySet graph} (h : s.Sound) {index : graph.Task}
    (fresh : s.complete index = false) {t : graph.Task} :
    t ∈ (s.markComplete index).1 ↔
      index ∈ graph.dependencies t ∧ (s.markComplete index).2.DepsComplete t := by
  rw [← (h.markComplete fresh).pending_eq_zero]
  simp only [ReadySet.markComplete, List.mem_filter, TaskGraph.mem_dependents, decide_eq_true_eq]

theorem DepsComplete.markComplete {s : ReadySet graph} {t : graph.Task} (h : s.DepsComplete t)
    (index : graph.Task) : (s.markComplete index).2.DepsComplete t := by
  intro d mem
  rw [markComplete_complete, h d mem, ite_self]

end ReadySet

/-! ## The ready queue -/

/-- Longest critical path first, then order key. -/
def TaskGraph.dispatchBefore (graph : TaskGraph) (left right : graph.Task) : Bool :=
  if graph.criticalPathSeconds left ≠ graph.criticalPathSeconds right then
    decide (graph.criticalPathSeconds left > graph.criticalPathSeconds right)
  else (graph.node left).orderKey.before (graph.node right).orderKey

namespace TaskGraph

variable {graph : TaskGraph}

theorem dispatchBefore_irrefl (t : graph.Task) : graph.dispatchBefore t t = false := by
  simp [dispatchBefore, TaskOrderKey.before_irrefl]

theorem dispatchBefore_trans {a b c : graph.Task} (hab : graph.dispatchBefore a b = true)
    (hbc : graph.dispatchBefore b c = true) : graph.dispatchBefore a c = true := by
  unfold dispatchBefore at *
  split at hab <;> split at hbc
  · have ab := of_decide_eq_true hab
    have bc := of_decide_eq_true hbc
    rw [if_pos (by omega), decide_eq_true_eq]
    omega
  · next _ same =>
    have ab := of_decide_eq_true hab
    rw [if_pos (by omega), decide_eq_true_eq]
    omega
  · next same _ =>
    have bc := of_decide_eq_true hbc
    rw [if_pos (by omega), decide_eq_true_eq]
    omega
  · next same same' =>
    rw [if_neg (by omega)]
    exact TaskOrderKey.before_trans hab hbc

theorem dispatchBefore_total {a b : graph.Task} (ne : a ≠ b) :
    graph.dispatchBefore a b = true ∨ graph.dispatchBefore b a = true := by
  unfold dispatchBefore
  split
  · next path =>
    rw [if_pos (Ne.symm path), decide_eq_true_eq, decide_eq_true_eq]
    omega
  · next path =>
    rw [if_neg fun h => path (Ne.symm h)]
    exact TaskOrderKey.before_total fun key => ne (orderKey_injective key)

end TaskGraph

/-- Ready tasks in dispatch order. -/
structure ReadyQueue (graph : TaskGraph) where
  tasks : List graph.Task
  sorted : tasks.Pairwise fun left right => graph.dispatchBefore left right = true

namespace ReadyQueue

variable {graph : TaskGraph}

/-- The list behind `insert`: a set keeps the element it has. -/
def insertTask (t : graph.Task) : List graph.Task → List graph.Task
  | [] => [t]
  | x :: rest =>
    if graph.dispatchBefore t x then t :: x :: rest
    else if graph.dispatchBefore x t then x :: insertTask t rest
    else x :: rest

theorem mem_insertTask {t x : graph.Task} {l : List graph.Task} :
    x ∈ insertTask t l ↔ x = t ∨ x ∈ l := by
  induction l with
  | nil => simp [insertTask]
  | cons y rest ih =>
    simp only [insertTask]
    split
    · simp
    · next notBefore =>
      split
      · rw [List.mem_cons, List.mem_cons, ih]
        tauto
      · next notAfter =>
        have same : t = y := by
          by_contra ne
          rcases TaskGraph.dispatchBefore_total ne with h | h
          · exact notBefore h
          · exact notAfter h
        simp [same]

theorem insertTask_sorted (t : graph.Task) {l : List graph.Task}
    (h : l.Pairwise fun left right => graph.dispatchBefore left right = true) :
    (insertTask t l).Pairwise fun left right => graph.dispatchBefore left right = true := by
  induction l with
  | nil => simp [insertTask]
  | cons y rest ih =>
    obtain ⟨first, tail⟩ := List.pairwise_cons.mp h
    simp only [insertTask]
    split
    · next before =>
      refine List.pairwise_cons.mpr ⟨fun x mem => ?_, h⟩
      rcases List.mem_cons.mp mem with rfl | mem
      · exact before
      · exact TaskGraph.dispatchBefore_trans before (first x mem)
    · split
      · next after =>
        refine List.pairwise_cons.mpr ⟨fun x mem => ?_, ih tail⟩
        rcases mem_insertTask.mp mem with rfl | mem
        · exact after
        · exact first x mem
      · exact h

def empty : ReadyQueue graph := ⟨[], List.Pairwise.nil⟩

def insert (q : ReadyQueue graph) (t : graph.Task) : ReadyQueue graph :=
  ⟨insertTask t q.tasks, insertTask_sorted t q.sorted⟩

def erase (q : ReadyQueue graph) (t : graph.Task) : ReadyQueue graph :=
  ⟨q.tasks.filter fun x => decide (x ≠ t), q.sorted.filter _⟩

@[simp] theorem tasks_empty : (empty : ReadyQueue graph).tasks = [] := rfl

@[simp] theorem mem_insert {q : ReadyQueue graph} {t x : graph.Task} :
    x ∈ (q.insert t).tasks ↔ x = t ∨ x ∈ q.tasks := mem_insertTask

@[simp] theorem mem_erase {q : ReadyQueue graph} {t x : graph.Task} :
    x ∈ (q.erase t).tasks ↔ x ≠ t ∧ x ∈ q.tasks := by
  rw [erase, List.mem_filter, decide_eq_true_eq, And.comm]

end ReadyQueue

end Svp.Exec

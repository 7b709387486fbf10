import Svp.Exec.TaskGraph
import Svp.Exec.TaskSpecCodec
import Svp.Lib.TopologicalOrder

/-!
# Building a task graph

`TaskGraph.create` is the constructor of `TaskGraph` with its checks in the
source's order. The main result is `taskGraph_create`: it succeeds exactly on
`Acceptable` nodes, the critical paths it stores are the heaviest dependent
chains, and the dispatch order is a strict total order.
-/

namespace Svp.Exec

inductive TaskGraphIssue
  | invalidTaskSpec
  | duplicateTaskId
  | missingDependency
  | dependencyCycle
  | duplicateOrderKey
  | mixedBuildSessions
deriving DecidableEq

def taskGraphIssueName : TaskGraphIssue → String
  | .invalidTaskSpec => "invalid_task_spec"
  | .duplicateTaskId => "duplicate_task_id"
  | .missingDependency => "missing_dependency"
  | .dependencyCycle => "dependency_cycle"
  | .duplicateOrderKey => "duplicate_order_key"
  | .mixedBuildSessions => "mixed_build_sessions"

/-- Why a graph cannot be built; an `ExecError` that knows the broken rule. -/
structure TaskGraphError extends ExecError where
  issue : TaskGraphIssue

def taskGraphError (issue : TaskGraphIssue) (message : String) : TaskGraphError where
  code := .invalidValue
  message := "task graph " ++ taskGraphIssueName issue ++ ": " ++ message
  issue := issue

def describeOrderKey (key : TaskOrderKey) : String :=
  key.lane ++ "[" ++ String.intercalate "," (key.ordinals.map toString) ++ "]"

/-! ## The checks -/

section Checks

variable (codec : Codec)

/-- Specs, session and order keys, node by node; `keys` are the keys seen so far. -/
def validateNodeIdentities (session : String) :
    List TaskOrderKey → List TaskNode → Except TaskGraphError Unit
  | _, [] => .ok ()
  | keys, node :: rest =>
    match validateTaskSpec codec node.spec with
    | .error error =>
      .error (taskGraphError .invalidTaskSpec
        ("task `" ++ node.spec.taskId ++ "`: " ++ error.message))
    | .ok () =>
      if node.spec.buildSessionId ≠ session then
        .error (taskGraphError .mixedBuildSessions ("task `" ++ node.spec.taskId ++
          "` belongs to build session `" ++ node.spec.buildSessionId ++ "`, not `" ++ session ++ "`"))
      else if node.orderKey ∈ keys then
        .error (taskGraphError .duplicateOrderKey ("task `" ++ node.spec.taskId ++
          "` repeats order key " ++ describeOrderKey node.orderKey))
      else validateNodeIdentities session (keys ++ [node.orderKey]) rest

/-- `ids` are the ids seen so far. -/
def indexById : List String → List TaskNode → Except TaskGraphError Unit
  | _, [] => .ok ()
  | ids, node :: rest =>
    if node.spec.taskId ∈ ids then
      .error (taskGraphError .duplicateTaskId
        ("task `" ++ node.spec.taskId ++ "` appears more than once"))
    else indexById (ids ++ [node.spec.taskId]) rest

def resolveDependency (nodes : List TaskNode) (node : TaskNode) (dependency : String) :
    Except TaskGraphError Unit :=
  match TaskNodes.find nodes dependency with
  | some _ => .ok ()
  | none =>
    .error (taskGraphError .missingDependency
      ("task `" ++ node.spec.taskId ++ "` depends on unknown task `" ++ dependency ++ "`"))

def resolveDependencies (nodes : List TaskNode) : Except TaskGraphError Unit :=
  nodes.forM fun node => node.spec.dependsOn.forM (resolveDependency nodes node)

/-- The checks before the ordering pass. -/
def checkNodes (nodes : List TaskNode) : Except TaskGraphError Unit := do
  validateNodeIdentities codec ((nodes.head?.map fun node => node.spec.buildSessionId).getD "") [] nodes
  indexById [] nodes
  resolveDependencies nodes

end Checks

/-- The counters the ordering pass ends with. -/
def kahnPending (nodes : List TaskNode) : Fin nodes.length → Nat :=
  (TaskNodes.kahnLoop nodes nodes.length 0
    { pending := fun i => (TaskNodes.dependencies nodes i).length
      order := (List.finRange nodes.length).filter fun i =>
        (TaskNodes.dependencies nodes i).isEmpty }).pending

/-- The first task the pass did not reach. -/
def stuckTask (nodes : List TaskNode) : String :=
  match (List.finRange nodes.length).find? fun i => kahnPending nodes i ≠ 0 with
  | some i => (nodes.get i).spec.taskId
  | none => ""

theorem validateNodeIdentities_eq_ok {codec : Codec} {session : String} {nodes : List TaskNode}
    {keys : List TaskOrderKey} :
    validateNodeIdentities codec session keys nodes = .ok () ↔
      (∀ node ∈ nodes, validateTaskSpec codec node.spec = .ok ()) ∧
        (∀ node ∈ nodes, node.spec.buildSessionId = session) ∧
        (nodes.map TaskNode.orderKey).Nodup ∧ ∀ node ∈ nodes, node.orderKey ∉ keys := by
  induction nodes generalizing keys with
  | nil => simp [validateNodeIdentities]
  | cons node rest ih =>
    rw [validateNodeIdentities]
    cases valid : validateTaskSpec codec node.spec with
    | error error => simp [valid]
    | ok _ =>
      simp only
      split_ifs with session' known
      · simp [session']
      · simp [known]
      · rw [ih, List.forall_mem_cons, List.forall_mem_cons, List.forall_mem_cons, List.map_cons,
          List.nodup_cons, not_not.mp session']
        simp only [List.mem_append, List.mem_singleton, not_or, List.mem_map, not_exists, not_and]
        constructor
        · rintro ⟨specs, sessions, unique, fresh⟩
          exact ⟨⟨valid, specs⟩, ⟨trivial, sessions⟩, ⟨fun other mem => (fresh other mem).2, unique⟩, known,
            fun other mem => (fresh other mem).1⟩
        · rintro ⟨⟨-, specs⟩, ⟨-, sessions⟩, ⟨distinct, unique⟩, -, fresh⟩
          exact ⟨specs, sessions, unique, fun other mem => ⟨fresh other mem, distinct other mem⟩⟩

theorem indexById_eq_ok {nodes : List TaskNode} {ids : List String} :
    indexById ids nodes = .ok () ↔
      (nodes.map fun node => node.spec.taskId).Nodup ∧ ∀ node ∈ nodes, node.spec.taskId ∉ ids := by
  induction nodes generalizing ids with
  | nil => simp [indexById]
  | cons node rest ih =>
    rw [indexById]
    split
    · next known => simp [known]
    · next fresh =>
      rw [ih, List.forall_mem_cons, List.map_cons, List.nodup_cons]
      simp only [List.mem_append, List.mem_singleton, not_or, List.mem_map, not_exists, not_and]
      constructor
      · rintro ⟨unique, others⟩
        exact ⟨⟨fun other mem => (others other mem).2, unique⟩, fresh,
          fun other mem => (others other mem).1⟩
      · rintro ⟨⟨distinct, unique⟩, -, others⟩
        exact ⟨unique, fun other mem => ⟨others other mem, distinct other mem⟩⟩

theorem resolveDependencies_eq_ok {nodes : List TaskNode} :
    resolveDependencies nodes = .ok () ↔
      ∀ node ∈ nodes, ∀ d ∈ node.spec.dependsOn, d ∈ nodes.map fun node => node.spec.taskId := by
  have known : ∀ node d, resolveDependency nodes node d = .ok () ↔
      d ∈ nodes.map fun node => node.spec.taskId := by
    intro node d
    unfold resolveDependency
    cases found : TaskNodes.find nodes d with
    | none =>
      simp only [reduceCtorEq, false_iff, List.mem_map, not_exists, not_and]
      intro other mem same
      obtain ⟨i, rfl⟩ := List.mem_iff_get.mp mem
      exact List.find?_eq_none.mp found i (List.mem_finRange i) (by simpa using same)
    | some i =>
      simp only [true_iff, List.mem_map]
      exact ⟨nodes.get i, List.get_mem nodes i, by simpa using List.find?_some found⟩
  simp only [resolveDependencies, forM_eq_ok, known]

/-- What a list of nodes passes the checks for. -/
theorem checkNodes_eq_ok {codec : Codec} {nodes : List TaskNode} :
    checkNodes codec nodes = .ok () ↔
      (∀ node ∈ nodes, validateTaskSpec codec node.spec = .ok ()) ∧
        (∀ a ∈ nodes, ∀ b ∈ nodes, a.spec.buildSessionId = b.spec.buildSessionId) ∧
        (nodes.map TaskNode.orderKey).Nodup ∧
        (nodes.map fun node => node.spec.taskId).Nodup ∧
        ∀ node ∈ nodes, ∀ d ∈ node.spec.dependsOn, d ∈ nodes.map fun node => node.spec.taskId := by
  have session : (∀ node ∈ nodes, node.spec.buildSessionId =
      (nodes.head?.map fun node => node.spec.buildSessionId).getD "") ↔
      ∀ a ∈ nodes, ∀ b ∈ nodes, a.spec.buildSessionId = b.spec.buildSessionId := by
    cases nodes with
    | nil => simp
    | cons first rest =>
      constructor
      · exact fun all a ma b mb => (all a ma).trans (all b mb).symm
      · exact fun all node mem => all node mem first (by simp)
  unfold checkNodes
  rw [check_bind_eq_ok, check_bind_eq_ok, validateNodeIdentities_eq_ok, indexById_eq_ok,
    resolveDependencies_eq_ok, session]
  constructor
  · rintro ⟨⟨specs, sessions, keys, -⟩, ⟨ids, -⟩, closed⟩
    exact ⟨specs, sessions, keys, ids, closed⟩
  · rintro ⟨specs, sessions, keys, ids, closed⟩
    exact ⟨⟨specs, sessions, keys, by simp⟩, ⟨ids, by simp⟩, closed⟩

/-- The constructor of `TaskGraph`. -/
def TaskGraph.create (codec : Codec) (nodes : List TaskNode) : Except TaskGraphError TaskGraph :=
  match checked : checkNodes codec nodes with
  | .error error => .error error
  | .ok () =>
    if acyclic : (TaskNodes.kahnOrder nodes).length = nodes.length then
      have accepted := checkNodes_eq_ok.mp checked
      .ok {
        nodes
        uniqueIds := accepted.2.2.2.1
        uniqueKeys := accepted.2.2.1
        ascending := fun node mem => validateTaskSpec_ascending codec (accepted.1 node mem)
        closed := accepted.2.2.2.2
        acyclic }
    else
      .error (taskGraphError .dependencyCycle
        ("task `" ++ stuckTask nodes ++ "` is on or behind a dependency cycle"))

/-! ## Acceptance -/

/-- Task `a` lists `b` among its dependencies. -/
def DependsOn (nodes : List TaskNode) (a b : String) : Prop :=
  ∃ node ∈ nodes, node.spec.taskId = a ∧ b ∈ node.spec.dependsOn

/-- What makes a list of nodes a task graph. -/
structure Acceptable (codec : Codec) (nodes : List TaskNode) : Prop where
  valid : ∀ node ∈ nodes, validateTaskSpec codec node.spec = .ok ()
  oneSession : ∀ a ∈ nodes, ∀ b ∈ nodes, a.spec.buildSessionId = b.spec.buildSessionId
  uniqueIds : (nodes.map fun node => node.spec.taskId).Nodup
  uniqueKeys : (nodes.map TaskNode.orderKey).Nodup
  closed : ∀ node ∈ nodes, ∀ d ∈ node.spec.dependsOn, d ∈ nodes.map fun node => node.spec.taskId
  acyclic : ∀ id, ¬ Relation.TransGen (DependsOn nodes) id id

namespace TaskNodes

variable {nodes : List TaskNode}

theorem kahnLoop_eq (rounds cursor : Nat) (pending : Fin nodes.length → Nat)
    (order : List (Fin nodes.length)) :
    (kahnLoop nodes rounds cursor ⟨pending, order⟩).order =
      (Lib.Kahn.loop (dependents nodes) rounds cursor ⟨pending, order⟩).order := by
  have visits : ∀ (l : List (Fin nodes.length)) (k : Kahn nodes.length),
      (⟨(l.foldl Kahn.visit k).pending, (l.foldl Kahn.visit k).order⟩ : Lib.Kahn (Fin nodes.length)) =
        l.foldl Lib.Kahn.visit ⟨k.pending, k.order⟩ := by
    intro l
    induction l with
    | nil => exact fun _ => rfl
    | cons next rest ih => exact fun k => ih (k.visit next)
  induction rounds generalizing cursor pending order with
  | zero => rfl
  | succ rounds ih =>
    simp only [kahnLoop, Lib.Kahn.loop]
    cases order[cursor]? with
    | none => rfl
    | some taken =>
      show _ = (Lib.Kahn.loop _ rounds _ ((dependents nodes taken).foldl Lib.Kahn.visit
        ⟨pending, order⟩)).order
      rw [← visits (dependents nodes taken) ⟨pending, order⟩]
      exact ih (cursor + 1) _ _

/-- The source's pass is the general one over the positions of the nodes. -/
theorem kahnOrder_eq :
    kahnOrder nodes =
      Lib.Kahn.topologicalOrder (dependencies nodes) (dependents nodes) (List.finRange nodes.length) := by
  rw [kahnOrder, kahnLoop_eq, Lib.Kahn.topologicalOrder, Fintype.card_fin]

/-- A cycle of positions is a cycle of ids. -/
theorem transGen_iff (unique : (nodes.map fun node => node.spec.taskId).Nodup)
    (closed : ∀ node ∈ nodes, ∀ d ∈ node.spec.dependsOn, d ∈ nodes.map fun node => node.spec.taskId) :
    (∀ i, ¬ Relation.TransGen (fun p x => p ∈ dependencies nodes x) i i) ↔
      ∀ id, ¬ Relation.TransGen (DependsOn nodes) id id := by
  have named : ∀ i j : Fin nodes.length, Relation.TransGen (fun p x => p ∈ dependencies nodes x) i j →
      Relation.TransGen (DependsOn nodes) (nodes.get j).spec.taskId (nodes.get i).spec.taskId := by
    intro i j path
    induction path with
    | single edge => exact .single ⟨_, List.get_mem nodes _, rfl, (mem_dependencies unique).mp edge⟩
    | tail _ edge ih =>
      exact .head ⟨_, List.get_mem nodes _, rfl, (mem_dependencies unique).mp edge⟩ ih
  have placed : ∀ a b, Relation.TransGen (DependsOn nodes) a b →
      ∃ i j, (nodes.get i).spec.taskId = b ∧ (nodes.get j).spec.taskId = a ∧
        Relation.TransGen (fun p x => p ∈ dependencies nodes x) i j := by
    have edge : ∀ a b, DependsOn nodes a b → ∃ i j, (nodes.get i).spec.taskId = b ∧
        (nodes.get j).spec.taskId = a ∧ i ∈ dependencies nodes j := by
      rintro a b ⟨node, mem, rfl, lists⟩
      obtain ⟨j, rfl⟩ := List.mem_iff_get.mp mem
      obtain ⟨other, there, rfl⟩ := List.mem_map.mp (closed _ mem b lists)
      obtain ⟨i, rfl⟩ := List.mem_iff_get.mp there
      exact ⟨i, j, rfl, rfl, (mem_dependencies unique).mpr lists⟩
    intro a b path
    induction path with
    | single step =>
      obtain ⟨i, j, hi, hj, dep⟩ := edge _ _ step
      exact ⟨i, j, hi, hj, .single dep⟩
    | tail _ step ih =>
      obtain ⟨i, j, hi, hj, path⟩ := ih
      obtain ⟨i', j', hi', hj', dep⟩ := edge _ _ step
      obtain rfl : i = j' := taskId_injective unique (hi.trans hj'.symm)
      exact ⟨i', j, hi', hj, .head dep path⟩
  constructor
  · intro acyclic id cycle
    obtain ⟨i, j, hi, hj, path⟩ := placed id id cycle
    obtain rfl : i = j := taskId_injective unique (hi.trans hj.symm)
    exact acyclic i path
  · exact fun acyclic i cycle => acyclic _ (named i i cycle)

end TaskNodes

/-- On checked nodes the pass reaches every task exactly when there is no cycle. -/
theorem kahnOrder_complete_iff {codec : Codec} {nodes : List TaskNode}
    (checked : checkNodes codec nodes = .ok ()) :
    (TaskNodes.kahnOrder nodes).length = nodes.length ↔
      ∀ id, ¬ Relation.TransGen (DependsOn nodes) id id := by
  obtain ⟨specs, -, -, ids, closed⟩ := checkNodes_eq_ok.mp checked
  rw [← TaskNodes.transGen_iff ids closed, TaskNodes.kahnOrder_eq,
    ← Lib.Kahn.topologicalOrder_complete_iff
      (fun i => TaskNodes.dependencies_nodup ids
        (validateTaskSpec_ascending codec (specs _ (List.get_mem nodes i))))
      TaskNodes.dependents_nodup (fun _ _ => TaskNodes.mem_dependents) (List.nodup_finRange _)
      List.mem_finRange, Fintype.card_fin]

theorem acceptable_of_create {codec : Codec} {nodes : List TaskNode} {graph : TaskGraph}
    (created : TaskGraph.create codec nodes = .ok graph) :
    Acceptable codec nodes ∧ graph.nodes = nodes := by
  unfold TaskGraph.create at created
  split at created
  · cases created
  · next checked =>
    split at created
    · next complete =>
      obtain ⟨specs, sessions, keys, ids, closed⟩ := checkNodes_eq_ok.mp checked
      cases created
      exact ⟨⟨specs, sessions, ids, keys, closed, (kahnOrder_complete_iff checked).mp complete⟩, rfl⟩
    · cases created

theorem create_of_acceptable {codec : Codec} {nodes : List TaskNode}
    (acceptable : Acceptable codec nodes) : ∃ graph, TaskGraph.create codec nodes = .ok graph := by
  have passes := checkNodes_eq_ok.mpr ⟨acceptable.valid, acceptable.oneSession,
    acceptable.uniqueKeys, acceptable.uniqueIds, acceptable.closed⟩
  unfold TaskGraph.create
  split
  · next failed =>
    rw [passes] at failed
    cases failed
  · next checked =>
    rw [dif_pos ((kahnOrder_complete_iff checked).mpr acceptable.acyclic)]
    exact ⟨_, rfl⟩

/-! ## Critical paths -/

theorem saturatingAdd_eq (left : Nat) {right : Nat} (small : right ≤ kUint64Max) :
    saturatingAdd left right = min kUint64Max (left + right) := by
  unfold saturatingAdd
  split <;> omega

namespace TaskGraph

variable (graph : TaskGraph)

/-- What the pass stores for a task, given the values of its dependents. -/
def pathValue (seconds : graph.Task → Nat) (task : graph.Task) : Nat :=
  saturatingAdd (graph.spec task).resources.estSeconds
    (Lib.longest seconds (graph.dependents task))

theorem criticalPathSeconds_eq : graph.criticalPathSeconds =
    Lib.fillBack graph.pathValue (TaskNodes.kahnOrder graph.nodes) fun _ => 0 := by
  rw [criticalPathSeconds, List.foldl_reverse]
  rfl

theorem kahnOrder_full :
    (TaskNodes.kahnOrder graph.nodes).Nodup ∧ (∀ i, i ∈ TaskNodes.kahnOrder graph.nodes) ∧
      Lib.Kahn.Ordered graph.dependencies (TaskNodes.kahnOrder graph.nodes) := by
  have invariant : (Lib.Kahn.topologicalOrder graph.dependencies graph.dependents
        (List.finRange graph.size)).Nodup ∧
      Lib.Kahn.Ordered graph.dependencies (Lib.Kahn.topologicalOrder graph.dependencies
        graph.dependents (List.finRange graph.size)) ∧ _ :=
    Lib.Kahn.topologicalOrder_invariant graph.dependencies_nodup graph.dependents_nodup
      (fun _ _ => graph.mem_dependents) (List.nodup_finRange graph.size) List.mem_finRange
  obtain ⟨nodup, ordered, -⟩ := invariant
  rw [show Lib.Kahn.topologicalOrder graph.dependencies graph.dependents (List.finRange graph.size) =
    TaskNodes.kahnOrder graph.nodes from TaskNodes.kahnOrder_eq.symm] at nodup ordered
  have card : (TaskNodes.kahnOrder graph.nodes).toFinset.card = Fintype.card graph.Task := by
    rw [List.toFinset_card_of_nodup nodup, graph.acyclic, Fintype.card_fin]
  refine ⟨nodup, fun i => ?_, ordered⟩
  rw [← List.mem_toFinset, (Finset.card_eq_iff_eq_univ _).mp card]
  exact Finset.mem_univ i

/-- The stored values satisfy the recursion of the pass. -/
theorem criticalPathSeconds_recursion (task : graph.Task) :
    graph.criticalPathSeconds task = graph.pathValue graph.criticalPathSeconds task := by
  obtain ⟨nodup, all, ordered⟩ := graph.kahnOrder_full
  have congr : ∀ (f g : graph.Task → Nat) (x : graph.Task),
      (∀ d ∈ graph.dependents x, f d = g d) → graph.pathValue f x = graph.pathValue g x := by
    intro f g x same
    have longest : ∀ (l : List graph.Task) (best : Nat), (∀ d ∈ l, f d = g d) →
        l.foldl (fun best d => max best (f d)) best = l.foldl (fun best d => max best (g d)) best := by
      intro l
      induction l with
      | nil => exact fun _ _ => rfl
      | cons d rest ih =>
        intro best same
        rw [List.foldl_cons, List.foldl_cons, same d (by simp)]
        exact ih _ fun e mem => same e (List.mem_cons_of_mem _ mem)
    show saturatingAdd _ _ = saturatingAdd _ _
    rw [Lib.longest, Lib.longest, longest _ 0 same]
  have follows := ordered.follows nodup (fun _ _ => graph.mem_dependents) all
  rw [criticalPathSeconds_eq]
  exact Lib.fillBack_eq congr nodup follows _ task (all task)

/-- No task is among its own direct or indirect dependents. -/
theorem dependents_wellFounded : WellFounded fun d t : graph.Task => d ∈ graph.dependents t := by
  obtain ⟨nodup, all, ordered⟩ := graph.kahnOrder_full
  -- a dependent comes later in the order
  refine Subrelation.wf (r := InvImage (· < ·) fun t => graph.size -
    (TaskNodes.kahnOrder graph.nodes).idxOf t) ?_ (InvImage.wf _ wellFounded_lt)
  intro d t edge
  have later := ordered.idxOf_lt nodup (all d) (graph.mem_dependents.mp edge)
  have inside := List.idxOf_lt_length_iff.mpr (all d)
  rw [graph.acyclic] at inside
  exact Nat.sub_lt_sub_left (later.trans inside) later

theorem criticalPathSeconds_le (task : graph.Task) : graph.criticalPathSeconds task ≤ kUint64Max := by
  induction task using graph.dependents_wellFounded.induction with
  | _ task ih =>
    have tail : Lib.longest graph.criticalPathSeconds (graph.dependents task) ≤ kUint64Max :=
      (Lib.foldl_max_le _).mpr ⟨Nat.zero_le _, fun d edge => ih d edge⟩
    rw [criticalPathSeconds_recursion, pathValue, saturatingAdd_eq _ tail]
    exact min_le_left _ _

/-- The summed estimates of the chains of dependents from a task, saturating. -/
def chainSeconds (task : graph.Task) : Set Nat :=
  {seconds | ∃ rest, Lib.IsPath graph.dependents task rest ∧
    seconds = min kUint64Max
      (((task :: rest).map fun t => (graph.spec t).resources.estSeconds).sum)}

theorem criticalPathSeconds_isGreatest (task : graph.Task) :
    IsGreatest (graph.chainSeconds task) (graph.criticalPathSeconds task) := by
  refine Lib.isGreatest_pathWeight graph.dependents_wellFounded (fun t => ?_) task
  have tail : Lib.longest graph.criticalPathSeconds (graph.dependents t) ≤ kUint64Max :=
    (Lib.foldl_max_le _).mpr ⟨Nat.zero_le _, fun d _ => graph.criticalPathSeconds_le d⟩
  rw [criticalPathSeconds_recursion, pathValue, saturatingAdd_eq _ tail]

end TaskGraph

/-- What building a graph from `nodes` gives. -/
structure GraphContract (codec : Codec) (nodes : List TaskNode) : Prop where
  accepted : (∃ graph, TaskGraph.create codec nodes = .ok graph) ↔ Acceptable codec nodes
  sameNodes : ∀ graph, TaskGraph.create codec nodes = .ok graph → graph.nodes = nodes
  criticalPath : ∀ graph : TaskGraph, TaskGraph.create codec nodes = .ok graph →
    ∀ task, IsGreatest (graph.chainSeconds task) (graph.criticalPathSeconds task)
  dispatchOrder : ∀ graph : TaskGraph, TaskGraph.create codec nodes = .ok graph →
    (∀ a, graph.dispatchBefore a a = false) ∧
    (∀ a b c, graph.dispatchBefore a b = true → graph.dispatchBefore b c = true →
      graph.dispatchBefore a c = true) ∧
    ∀ a b, a ≠ b → (graph.dispatchBefore a b = true ∨ graph.dispatchBefore b a = true)

theorem taskGraph_create (codec : Codec) (nodes : List TaskNode) : GraphContract codec nodes where
  accepted := ⟨fun ⟨_, created⟩ => (acceptable_of_create created).1, create_of_acceptable⟩
  sameNodes _ created := (acceptable_of_create created).2
  criticalPath created _ := created.criticalPathSeconds_isGreatest
  dispatchOrder _ _ := ⟨TaskGraph.dispatchBefore_irrefl,
    fun _ _ _ hab hbc => TaskGraph.dispatchBefore_trans hab hbc,
    fun _ _ ne => TaskGraph.dispatchBefore_total ne⟩

end Svp.Exec

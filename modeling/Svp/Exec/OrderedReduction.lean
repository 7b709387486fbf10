import Svp.Exec.SchedulerSafety

/-!
# Results in canonical order

`resultsInCanonicalOrder` is what a reducer reads: the committed results of one
lane in the order of their keys. On a complete list of results its outcome is a
function of the graph and of the result of each task alone
(`resultsInCanonicalOrder_eq`). Since every committed result of a run comes from
a verified success (`behaved_commits`), two runs whose attempts answer by the
same function of the task spec reduce to the same outputs
(`reduction_independent`), whoever ran what and when.
-/

namespace Svp.Exec

section Reduction

variable (graph : TaskGraph)

/-- Files a result under its task. -/
def placeResult (byTask : graph.Task → Option CommittedResult) (committed : CommittedResult) :
    Except ExecError (graph.Task → Option CommittedResult) :=
  match graph.find committed.result.taskId with
  | none =>
    .error ⟨.invalidValue,
      "committed result for unknown task `" ++ committed.result.taskId ++ "`"⟩
  | some t =>
    if (byTask t).isSome then
      .error ⟨.invalidValue, "task `" ++ committed.result.taskId ++ "` has more than one result"⟩
    else .ok (Function.update byTask t (some committed))

/-- The tasks of a lane, in index order. -/
def laneTasks (lane : String) : List graph.Task :=
  (List.finRange graph.size).filter fun t => decide ((graph.node t).orderKey.lane = lane)

def laneResult (lane : String) (byTask : graph.Task → Option CommittedResult) (t : graph.Task) :
    Except ExecError (TaskOrderKey × CommittedResult) :=
  match byTask t with
  | none =>
    .error ⟨.invalidValue,
      "task `" ++ graph.taskId t ++ "` in lane `" ++ lane ++ "` has no committed result"⟩
  | some committed => .ok ((graph.node t).orderKey, committed)

/-- Not after in key order. -/
def KeyNotAfter (left right : TaskOrderKey) : Prop := right.before left = false

instance (left right : TaskOrderKey) : Decidable (KeyNotAfter left right) :=
  inferInstanceAs (Decidable (right.before left = false))

/-- The committed results of a lane, sorted by order key. -/
def resultsInCanonicalOrder (lane : String) (results : List CommittedResult) :
    Except ExecError (List CommittedResult) := do
  let byTask ← results.foldlM (placeResult graph) fun _ => none
  let laneResults ← (laneTasks graph lane).mapM (laneResult graph lane byTask)
  return (laneResults.insertionSort fun left right => KeyNotAfter left.1 right.1).map Prod.snd

/-- The tasks of a lane, sorted by order key. -/
def canonicalTasks (lane : String) : List graph.Task :=
  (laneTasks graph lane).insertionSort fun left right =>
    KeyNotAfter (graph.node left).orderKey (graph.node right).orderKey

/-- Results of distinct known tasks are all filed, and nothing else is. -/
theorem foldlM_placeResult {results : List CommittedResult}
    {byTask : graph.Task → Option CommittedResult}
    (distinct : (results.map fun c => c.result.taskId).Nodup)
    (known : ∀ c ∈ results, ∃ t, graph.taskId t = c.result.taskId)
    (free : ∀ c ∈ results, ∀ t, graph.taskId t = c.result.taskId → byTask t = none) :
    ∃ filed, results.foldlM (placeResult graph) byTask = .ok filed ∧
      (∀ c ∈ results, ∀ t, graph.taskId t = c.result.taskId → filed t = some c) ∧
      ∀ t, (∀ c ∈ results, graph.taskId t ≠ c.result.taskId) → filed t = byTask t := by
  induction results generalizing byTask with
  | nil => exact ⟨byTask, rfl, by simp, fun _ _ => rfl⟩
  | cons c rest ih =>
    obtain ⟨notRest, distinct⟩ := List.nodup_cons.mp distinct
    obtain ⟨t, taskId⟩ := known c (by simp)
    have found : graph.find c.result.taskId = some t := TaskGraph.find_eq_some.mpr taskId
    have placed : placeResult graph byTask c = .ok (Function.update byTask t (some c)) := by
      simp [placeResult, found, free c (by simp) t taskId]
    have other : ∀ c' ∈ rest, ∀ x, graph.taskId x = c'.result.taskId → x ≠ t := by
      rintro c' mem x same rfl
      exact notRest (List.mem_map.mpr ⟨c', mem, same.symm.trans taskId⟩)
    have freeRest : ∀ c' ∈ rest, ∀ x, graph.taskId x = c'.result.taskId →
        Function.update byTask t (some c) x = none := by
      intro c' mem x same
      rw [Function.update_of_ne (other c' mem x same)]
      exact free c' (List.mem_cons_of_mem c mem) x same
    obtain ⟨filed, ran, inRest, untouched⟩ :=
      ih distinct (fun c' mem => known c' (List.mem_cons_of_mem c mem)) freeRest
    refine ⟨filed, ?_, ?_, ?_⟩
    · rw [List.foldlM_cons, placed]
      exact ran
    · intro c' mem x same
      cases List.mem_cons.mp mem with
      | inl isHead =>
        subst isHead
        have isT : x = t := TaskGraph.taskId_injective (same.trans taskId.symm)
        rw [untouched x, isT, Function.update_self]
        intro c'' inTail same'
        exact other c'' inTail x same' isT
      | inr inTail => exact inRest c' inTail x same
    · intro x absent
      have isNotT : x ≠ t := by
        rintro rfl
        exact absent c (by simp) taskId
      rw [untouched x fun c' mem => absent c' (List.mem_cons_of_mem c mem),
        Function.update_of_ne isNotT]

/-- On a complete list of results, with `of t` the one of task `t`, the reducer
reads `of` along the lane's tasks in key order. -/
theorem resultsInCanonicalOrder_eq {results : List CommittedResult}
    {of : graph.Task → CommittedResult} (lane : String)
    (distinct : (results.map fun c => c.result.taskId).Nodup)
    (known : ∀ c ∈ results, ∃ t, graph.taskId t = c.result.taskId)
    (complete : ∀ t, of t ∈ results ∧ (of t).result.taskId = graph.taskId t) :
    resultsInCanonicalOrder graph lane results = .ok ((canonicalTasks graph lane).map of) := by
  obtain ⟨filed, ran, placed, -⟩ :=
    foldlM_placeResult graph distinct known fun _ _ _ _ => (rfl : none = none)
  have entry : ∀ t ∈ laneTasks graph lane,
      laneResult graph lane filed t = .ok ((graph.node t).orderKey, of t) := by
    intro t _
    have here := placed (of t) (complete t).1 t (complete t).2.symm
    rw [laneResult, here]
  have sorted := List.map_insertionSort (r := fun left right =>
      KeyNotAfter (graph.node left).orderKey (graph.node right).orderKey)
    (s := fun left right : TaskOrderKey × CommittedResult => KeyNotAfter left.1 right.1)
    (fun t : graph.Task => ((graph.node t).orderKey, of t)) (laneTasks graph lane)
    fun _ _ _ _ => Iff.rfl
  have run : resultsInCanonicalOrder graph lane results =
      .ok ((((laneTasks graph lane).map fun t => ((graph.node t).orderKey, of t)).insertionSort
        fun left right => KeyNotAfter left.1 right.1).map Prod.snd) := by
    simp only [resultsInCanonicalOrder, ran, mapM_eq_pure entry, bind, Except.bind, pure, Except.pure]
  rw [run, ← sorted, List.map_map]
  rfl

end Reduction

/-! ## Runs whose attempts answer by a function of the spec -/

open Ledger SchedulerRun

variable {S : SchedulerSetup} {resumed : List CommittedResult}

/-- What an attempt of a task produces, as a function of its spec. -/
abbrev TaskBehaviour : Type := TaskSpec → List ArtifactRef × List FramePayload

/-- A success verified for task `t` carries what the behaviour says. -/
def Answers (S : SchedulerSetup) (behave : TaskBehaviour) (result : TaskResult)
    (payloads : List FramePayload) : Prop :=
  ∀ (t : S.Task) (attempt : Nat),
    findResultDefect S.codec (S.graph.spec t) attempt result payloads = none →
    result.status = .succeeded → (result.outputs, payloads) = behave (S.graph.spec t)

/-- Every result waiting to be applied answers by the behaviour. -/
def StageAnswers (S : SchedulerSetup) (behave : TaskBehaviour) : Stage → Prop
  | .applying events => ∀ id output, .finished id output ∈ events →
      Answers S behave output.result output.payloads
  | _ => True

/-- The runs all of whose attempts answer by `behave`. -/
def behavedSystem (S : SchedulerSetup) (resumed : List CommittedResult) (behave : TaskBehaviour) :
    Lib.System (RunState S) :=
  (schedulerSystem S resumed).guarded fun _ t => StageAnswers S behave t.stage

theorem behaved_stage {behave : TaskBehaviour} {s : RunState S}
    (reach : (behavedSystem S resumed behave).Reachable s) : StageAnswers S behave s.stage := by
  refine reach.invariant (P := fun s => StageAnswers S behave s.stage) ?_ ?_
  · rintro s ⟨r, -, rfl⟩
    trivial
  · rintro s t - - ⟨-, stage⟩
    exact stage

/-- Every committed result is one the behaviour gives for its task. -/
theorem behaved_commits {behave : TaskBehaviour} {s : RunState S}
    (reach : (behavedSystem S resumed behave).Reachable s) :
    ∀ call ∈ commitCalls s.run.log, call.2.result.taskId = S.graph.taskId call.1 ∧
      (call.2.result.outputs, call.2.payloads) = behave (S.graph.spec call.1) := by
  refine reach.invariant (P := fun s => ∀ call ∈ commitCalls s.run.log,
    call.2.result.taskId = S.graph.taskId call.1 ∧
      (call.2.result.outputs, call.2.payloads) = behave (S.graph.spec call.1)) ?_ ?_
  · rintro s ⟨r, applied, rfl⟩ call mem
    have none : commitCalls r.prepare.log = [] :=
      (quiet_prepare r).commits.trans (resumed_start applied).commits
    rw [none] at mem
    cases mem
  · rintro s t reach kept ⟨⟨input, advanced⟩, -⟩ call mem
    have good := reachable_good (Lib.System.guarded_reachable reach)
    have stage := behaved_stage reach
    cases advance_cases good advanced with
    | inl quiet =>
      have same : commitCalls t.run.log = commitCalls s.run.log :=
        (inert_of_quiet_or_deadEnd quiet).commits
      exact kept call (same ▸ mem)
    | inr rest =>
      rcases rest with ⟨-, -, -, -, rfl⟩ | ⟨id, output, rest, lease, at_, delivers, -, commits⟩
      · have same : commitCalls _ = commitCalls s.run.log :=
          (quiet_abandonOutstandingLeases (s.run.setStatus .succeeded)).commits
        exact kept call (same ▸ mem)
      · have calls : commitCalls t.run.log = commitCalls s.run.log ++ _ := commits.commits
        rw [calls] at mem
        cases List.mem_append.mp mem with
        | inl old => exact kept call old
        | inr new =>
          rw [List.mem_singleton.mp new]
          obtain ⟨-, taskId, -⟩ := (findResultDefect_eq_none S.codec).mp delivers.noDefect
          rw [at_] at stage
          exact ⟨taskId, stage id output (by simp) lease.task lease.lease.attempt
            delivers.noDefect delivers.succeeded⟩

/-- A run that reported success, and what it leaves to the reducer: the resumed
results and those handed to the sink, in any order. -/
structure SuccessfulRun (S : SchedulerSetup) (resumed : List CommittedResult)
    (behave : TaskBehaviour) (results : List CommittedResult) : Prop where
  resumedAnswer : ∀ c ∈ resumed, ∀ t : S.Task, S.graph.taskId t = c.result.taskId →
    (c.result.outputs, c.payloads) = behave (S.graph.spec t)
  run : ∃ s, (behavedSystem S resumed behave).Reachable s ∧ s.stage = .finished ∧
    s.run.outcome.status = .succeeded ∧
    results.Perm (resumed ++ (commitCalls s.run.log).map Prod.snd)

/-- What a reducer reads of a result. -/
def CommittedResult.reduced (c : CommittedResult) : String × List ArtifactRef × List FramePayload :=
  (c.result.taskId, c.result.outputs, c.payloads)

/-- A successful run reduces to what the behaviour says of the lane's tasks in
key order. -/
theorem SuccessfulRun.reduces {behave : TaskBehaviour} {results : List CommittedResult}
    (h : SuccessfulRun S resumed behave results) (lane : String) :
    ∃ ordered, resultsInCanonicalOrder S.graph lane results = .ok ordered ∧
      ordered.map CommittedResult.reduced = (canonicalTasks S.graph lane).map fun t =>
        (S.graph.taskId t, behave (S.graph.spec t)) := by
  obtain ⟨resumedAnswer, s, reach, finished, succeeded, perm⟩ := h
  have reach' := Lib.System.guarded_reachable reach
  have named := behaved_commits reach
  have ids : (commitCalls s.run.log).map (fun c => S.graph.taskId c.1) =
      ((commitCalls s.run.log).map Prod.snd).map fun c => c.result.taskId := by
    rw [List.map_map]
    exact List.map_congr_left fun call mem => (named call mem).1.symm
  obtain ⟨counts, -⟩ := succeeded_complete reach' finished succeeded
  rw [ids, ← List.map_append] at counts
  have perm' : results.Perm ((commitCalls s.run.log).map Prod.snd ++ resumed) :=
    perm.trans List.perm_append_comm
  have idsPerm := perm'.map fun c : CommittedResult => c.result.taskId
  -- every result names a task of the graph
  have known : ∀ c ∈ results, ∃ t, S.graph.taskId t = c.result.taskId := by
    intro c mem
    cases List.mem_append.mp (perm'.mem_iff.mp mem) with
    | inl called =>
      obtain ⟨call, inCalls, rfl⟩ := List.mem_map.mp called
      exact ⟨call.1, (named call inCalls).1.symm⟩
    | inr inResumed =>
      obtain ⟨start, ⟨r, applied, -⟩, -⟩ := reach'
      exact (resumed_start applied).named c inResumed
  have distinct : (results.map fun c => c.result.taskId).Nodup := by
    rw [idsPerm.nodup_iff, List.nodup_iff_count_le_one]
    intro id
    by_cases present : id ∈ ((commitCalls s.run.log).map Prod.snd ++ resumed).map
        fun c => c.result.taskId
    · obtain ⟨c, mem, rfl⟩ := List.mem_map.mp present
      obtain ⟨t, taskId⟩ := known c (perm'.mem_iff.mpr mem)
      rw [← taskId, counts t]
    · rw [List.count_eq_zero_of_not_mem present]
      decide
  -- the result of each task
  have result : ∀ t, ∃ c ∈ results, c.result.taskId = S.graph.taskId t := by
    intro t
    have present : S.graph.taskId t ∈ ((commitCalls s.run.log).map Prod.snd ++ resumed).map
        fun c => c.result.taskId := by
      rw [← List.count_pos_iff, counts t]
      decide
    obtain ⟨c, mem, same⟩ := List.mem_map.mp present
    exact ⟨c, perm'.mem_iff.mpr mem, same⟩
  choose of mem taskId using result
  refine ⟨_, resultsInCanonicalOrder_eq _ lane distinct known fun t => ⟨mem t, taskId t⟩, ?_⟩
  rw [List.map_map]
  refine List.map_congr_left fun t _ => ?_
  have answers : ((of t).result.outputs, (of t).payloads) = behave (S.graph.spec t) := by
    cases List.mem_append.mp (perm'.mem_iff.mp (mem t)) with
    | inl called =>
      obtain ⟨call, inCalls, isCall⟩ := List.mem_map.mp called
      have same : call.1 = t := TaskGraph.taskId_injective (by
        rw [← (named call inCalls).1, isCall, taskId t])
      rw [← isCall, ← same]
      exact (named call inCalls).2
    | inr inResumed => exact resumedAnswer _ inResumed t (taskId t).symm
  show ((of t).result.taskId, (of t).result.outputs, (of t).payloads) = _
  rw [taskId t, answers]

/-! ## Two runs of one task -/

/-- A task that produces nothing. -/
def produceNothing : TaskBehaviour := fun _ => ([], [])

/-- The run of one executor, with its result in the inbox. -/
def soloHearing : RunState soloSetup where
  run :=
    let dispatched := soloStart.run.dispatch
    dispatched.tick.perform (.waited dispatched.nextWait)
  stage := .applying [.finished "lease_1" duelFirst]

def soloEnd : RunState soloSetup where
  run := ((soloHearing.run.apply (.finished "lease_1" duelFirst)).expireLeases.setStatus
    .succeeded).abandonOutstandingLeases
  stage := .finished

/-- Attempt 2 when it agrees with attempt 1. -/
def duelSecondAgreeing : AttemptOutput where
  result := { duelFirst.result with attempt := 2, execution := { workerSessionId := "second" } }
  payloads := []

/-- The run of two executors after the first lost its attempt, with the result
of the duplicate in the inbox. -/
def duelLost : RunState duelSetup where
  run := duelHearing.run.apply (.failed "lease_1" .executorLost "connection reset")
  stage := .applying [.finished "lease_2" duelSecondAgreeing]

def duelWon : RunState duelSetup where
  run := ((duelLost.run.apply (.finished "lease_2" duelSecondAgreeing)).expireLeases.setStatus
    .succeeded).abandonOutstandingLeases
  stage := .finished

/-- A run that hears its last event and then finds everything complete. -/
theorem behaved_ends {S : SchedulerSetup} {resumed : List CommittedResult}
    {behave : TaskBehaviour} {r : SchedulerRun S} {event : InboxEvent}
    (reach : (behavedSystem S resumed behave).Reachable ⟨r, .applying [event]⟩)
    (running : (r.apply event).expireLeases.failed = false)
    (complete : (r.apply event).expireLeases.readySet.allComplete = true)
    (noLease : (r.apply event).expireLeases.leases.isEmpty = true) :
    (behavedSystem S resumed behave).Reachable
      ⟨((r.apply event).expireLeases.setStatus .succeeded).abandonOutstandingLeases, .finished⟩ := by
  have applied : (behavedSystem S resumed behave).Reachable ⟨r.apply event, .applying []⟩ :=
    reach.next ⟨⟨{}, rfl⟩, by simp [StageAnswers]⟩
  have expired : (behavedSystem S resumed behave).Reachable
      ⟨(r.apply event).expireLeases, .head⟩ := applied.next ⟨⟨{}, rfl⟩, trivial⟩
  refine expired.next ⟨⟨{}, ?_⟩, trivial⟩
  simp [RunState.advance, running, complete, noLease]

theorem solo_successful :
    SuccessfulRun soloSetup [] produceNothing ((commitCalls soloEnd.run.log).map Prod.snd) := by
  have head : (behavedSystem soloSetup [] produceNothing).Reachable soloStart :=
    .start ⟨_, rfl, rfl⟩
  have dispatched : (behavedSystem soloSetup [] produceNothing).Reachable
      ⟨soloStart.run.dispatch, .dispatched⟩ := head.next ⟨⟨{}, rfl⟩, trivial⟩
  have hearing : (behavedSystem soloSetup [] produceNothing).Reachable soloHearing := by
    refine dispatched.next ⟨⟨{ events := [.finished "lease_1" duelFirst] }, rfl⟩, ?_⟩
    intro id output mem t attempt _ _
    cases List.mem_singleton.mp mem
    rfl
  exact ⟨by simp, soloEnd, behaved_ends hearing (by decide) (by decide)
    (by decide), rfl, rfl, .refl _⟩

theorem duel_successful :
    SuccessfulRun duelSetup [] produceNothing ((commitCalls duelWon.run.log).map Prod.snd) := by
  have head : (behavedSystem duelSetup [] produceNothing).Reachable
      ⟨(SchedulerRun.start duelSetup).prepare, .head⟩ := .start ⟨_, rfl, rfl⟩
  have dispatched : (behavedSystem duelSetup [] produceNothing).Reachable
      ⟨(SchedulerRun.start duelSetup).prepare.dispatch, .dispatched⟩ :=
    head.next ⟨⟨{}, rfl⟩, trivial⟩
  have answers : StageAnswers duelSetup produceNothing duelLost.stage := by
    intro id output mem t attempt _ _
    cases List.mem_singleton.mp mem
    rfl
  have hearing : (behavedSystem duelSetup [] produceNothing).Reachable
      ⟨duelHearing.run, .applying [.failed "lease_1" .executorLost "connection reset",
        .finished "lease_2" duelSecondAgreeing]⟩ := by
    refine dispatched.next ⟨⟨{ events := [.failed "lease_1" .executorLost "connection reset",
      .finished "lease_2" duelSecondAgreeing] }, rfl⟩, ?_⟩
    intro id output mem
    cases mem with
    | tail _ mem => exact answers id output mem
  have lost : (behavedSystem duelSetup [] produceNothing).Reachable duelLost :=
    hearing.next ⟨⟨{}, rfl⟩, answers⟩
  exact ⟨by simp, duelWon, behaved_ends lost (by decide) (by decide)
    (by decide), rfl, rfl, .refl _⟩

/-! ## Independence -/

/-- Two successful runs of a graph whose attempts answer by the same function of
the spec reduce to equal outputs, lane by lane. -/
theorem reduction_independent {S S' : SchedulerSetup} (sameGraph : S.graph = S'.graph)
    {resumed resumed' results results' : List CommittedResult} {behave : TaskBehaviour}
    (run : SuccessfulRun S resumed behave results)
    (run' : SuccessfulRun S' resumed' behave results') (lane : String) :
    ∃ ordered ordered', resultsInCanonicalOrder S.graph lane results = .ok ordered ∧
      resultsInCanonicalOrder S'.graph lane results' = .ok ordered' ∧
      ordered.map CommittedResult.reduced = ordered'.map CommittedResult.reduced := by
  obtain ⟨ordered, reduced, outputs⟩ := run.reduces lane
  obtain ⟨ordered', reduced', outputs'⟩ := run'.reduces lane
  refine ⟨ordered, ordered', reduced, reduced', ?_⟩
  rw [outputs, outputs', sameGraph]

/-- A run of one executor and a run that lost its first attempt give a reducer
the same. -/
theorem reduction_independent_duel :
    ∃ ordered ordered',
      resultsInCanonicalOrder soloGraph "lane" ((commitCalls soloEnd.run.log).map Prod.snd) =
        .ok ordered ∧
      resultsInCanonicalOrder soloGraph "lane" ((commitCalls duelWon.run.log).map Prod.snd) =
        .ok ordered' ∧
      ordered.map CommittedResult.reduced = ordered'.map CommittedResult.reduced :=
  @reduction_independent soloSetup duelSetup rfl [] [] _ _ produceNothing solo_successful
    duel_successful "lane"

end Svp.Exec

import Svp.Exec.TaskGraph
import Svp.Exec.SchedulerPolicy
import Svp.Lib.System

/-!
# The scheduler run

State and decisions of one `Scheduler::run()`: the tables of tasks, executors
and leases, the handlers of the inbox events, lease granting, and the main loop
as a transition system (`schedulerSystem`).

What the run does to its surroundings (assigning and cancelling leases, calling
the sink, telling the observer) is appended to `SchedulerRun.log`. What the
surroundings decide is free: `SchedulerSetup.clock` and `SchedulerSetup.sinkError`
are arbitrary functions, every wait returns an arbitrary list of events, and
cancellation may be requested at any round.
-/

namespace Svp.Exec

/-! ## What a run is given and what it reports -/

structure Lease where
  leaseId : String
  attempt : Nat
  duration : Millis
  heartbeatInterval : Millis
deriving DecidableEq

inductive AttemptFailureKind
  | invalidResult
  | executorLost
deriving DecidableEq

def attemptFailureKindName : AttemptFailureKind → String
  | .invalidResult => "invalid_result"
  | .executorLost => "executor_lost"

/-- Whether lost attempts count toward quarantining an executor. -/
inductive LossQuarantine
  | afterRepeatedLosses
  | never
deriving DecidableEq

/-- What the scheduler reads of an executor; all of it is fixed for the run. -/
structure Executor where
  id : String
  slots : Nat
  lossQuarantine : LossQuarantine := .afterRepeatedLosses
  accepts : TaskSpec → Bool := fun _ => true

inductive InboxEvent
  | heartbeat (leaseId : String)
  | finished (leaseId : String) (output : AttemptOutput)
  | failed (leaseId : String) (kind : AttemptFailureKind) (message : String)
  | rejected (leaseId : String) (code message : String)

inductive BuildStatus
  | succeeded
  | failed
  | cancelled
deriving DecidableEq

inductive BuildFailureKind
  | retriesExhausted
  | permanentTaskFailure
  | determinismIncident
  | noUsableExecutor
  | commitFailed
deriving DecidableEq

structure BuildFailure where
  kind : BuildFailureKind
  taskId : String
  message : String
deriving DecidableEq

/-- Two verified results for one task with different output digests. -/
structure DeterminismIncident where
  taskId : String
  committedAttempt : Nat
  committedExecutorId : String
  committedOutputDigest : Blake3Digest
  conflicting : CommittedResult

structure SchedulerStats where
  committed : Nat := 0
  resumed : Nat := 0
  attemptsStarted : Nat := 0
  speculativeAttempts : Nat := 0
  retries : Nat := 0
  leasesExpired : Nat := 0
  deadlinesExceeded : Nat := 0
  invalidResults : Nat := 0
  leasesRejected : Nat := 0
  duplicatesDiscarded : Nat := 0
  quarantinedExecutors : List String := []

structure BuildOutcome where
  status : BuildStatus := .failed
  failure : Option BuildFailure := none
  incidents : List DeterminismIncident := []
  stats : SchedulerStats := {}

inductive AttemptEventKind
  | leased
  | committed
  | duplicateDiscarded
  | determinismIncident
  | failed
  | rejected
  | expired
  | deadlineExceeded
  | executorQuarantined
deriving DecidableEq

structure AttemptEvent where
  kind : AttemptEventKind
  taskId : String := ""
  attempt : Nat := 0
  executorId : String := ""
  leaseId : String := ""
  speculative : Bool := false
  detail : String := ""
deriving DecidableEq

/-- The loop of `validate_executors`, with the ids seen so far. -/
def validateExecutorsFrom (ids : List String) : List Executor → Except ExecError Unit
  | [] => .ok ()
  | executor :: rest => do
    require (executor.slots ≠ 0) .invalidValue
      "scheduler executors must be non-null with at least one slot"
    require (executor.id ∉ ids) .invalidValue
      ("executor id `" ++ executor.id ++ "` is not unique")
    validateExecutorsFrom (executor.id :: ids) rest

/-- Needs at least one executor, each with a slot and an id of its own. -/
def validateExecutors (executors : List Executor) : Except ExecError Unit := do
  require (!executors.isEmpty) .invalidValue "scheduler needs at least one executor"
  validateExecutorsFrom [] executors

/-- Everything a run is given. `sinkError` is what the sink throws on the last
of the calls it has received; `clock` is the result of each clock reading. -/
structure SchedulerSetup where
  codec : Codec
  policy : SchedulerPolicy
  graph : TaskGraph
  executorCount : Nat
  executor : Fin executorCount → Executor
  sinkError : List (graph.Task × CommittedResult) → Option String
  clock : Nat → Millis
  policyValid : validateSchedulerPolicy policy = .ok ()
  executorsValid : validateExecutors (List.ofFn executor) = .ok ()

namespace SchedulerSetup

abbrev Task (S : SchedulerSetup) : Type := S.graph.Task

/-- An executor index. -/
abbrev ExecutorIndex (S : SchedulerSetup) : Type := Fin S.executorCount

end SchedulerSetup

/-! ## The tables -/

inductive TaskPhase
  | waiting
  | ready
  | leased
  | committed
deriving DecidableEq

structure TaskRecord (S : SchedulerSetup) where
  phase : TaskPhase := .waiting
  attemptsStarted : Nat := 0
  failedAttempts : Nat := 0
  /-- Executors that failed an attempt of this task. -/
  avoid : Finset S.ExecutorIndex := ∅
  activeLeases : Finset String := ∅
  committedAttempt : Nat := 0
  committedExecutorId : String := ""
  committedOutputDigest : Blake3Digest := default
  lastFailure : String := ""

structure LeaseRecord (S : SchedulerSetup) where
  task : S.Task
  executor : S.ExecutorIndex
  lease : Lease
  grantSequence : Nat
  grantedAt : Millis
  expiresAt : Millis
  deadlineAt : Millis
  speculative : Bool
deriving DecidableEq

structure ExecutorRecord where
  active : Nat := 0
  consecutiveLossEvents : Nat := 0
  lossHorizon : Nat := 0
  quarantined : Bool := false
  declinedUntil : Millis := 0

/-- One thing the run does to its surroundings. -/
inductive Effect (S : SchedulerSetup)
  | assign (executor : S.ExecutorIndex) (task : S.Task) (lease : Lease)
  | cancel (executor : S.ExecutorIndex) (leaseId : String)
  | leaseExpired (executor : S.ExecutorIndex) (leaseId : String)
  | commit (task : S.Task) (committed : CommittedResult)
  | observed (event : AttemptEvent)
  | waited (timeout : Millis)

structure SchedulerRun (S : SchedulerSetup) where
  tasks : S.Task → TaskRecord S
  executors : S.ExecutorIndex → ExecutorRecord
  leases : Lib.OrderedMap String (LeaseRecord S)
  readySet : ReadySet S.graph
  readyQueue : ReadyQueue S.graph
  nextLeaseNumber : Nat
  outcome : BuildOutcome
  clockReads : Nat
  log : List (Effect S)

/-- The sink calls of a log, in order. -/
def commitCalls {S : SchedulerSetup} (log : List (Effect S)) : List (S.Task × CommittedResult) :=
  log.filterMap fun
    | .commit task committed => some (task, committed)
    | _ => none

theorem commitCalls_append {S : SchedulerSetup} (log more : List (Effect S)) :
    commitCalls (log ++ more) = commitCalls log ++ commitCalls more :=
  List.filterMap_append

namespace SchedulerRun

variable {S : SchedulerSetup}

def start (S : SchedulerSetup) : SchedulerRun S where
  tasks _ := {}
  executors _ := {}
  leases := .empty
  readySet := .start S.graph
  readyQueue := .empty
  nextLeaseNumber := 1
  outcome := {}
  clockReads := 0
  log := []

def modifyTask (r : SchedulerRun S) (t : S.Task) (f : TaskRecord S → TaskRecord S) :
    SchedulerRun S :=
  { r with tasks := Function.update r.tasks t (f (r.tasks t)) }

def modifyExecutor (r : SchedulerRun S) (e : S.ExecutorIndex) (f : ExecutorRecord → ExecutorRecord) :
    SchedulerRun S :=
  { r with executors := Function.update r.executors e (f (r.executors e)) }

def modifyStats (r : SchedulerRun S) (f : SchedulerStats → SchedulerStats) : SchedulerRun S :=
  { r with outcome := { r.outcome with stats := f r.outcome.stats } }

def perform (r : SchedulerRun S) (effect : Effect S) : SchedulerRun S :=
  { r with log := r.log ++ [effect] }

/-- What the next clock reading returns. -/
def now (r : SchedulerRun S) : Millis := S.clock r.clockReads

/-- The run after a clock reading. -/
def tick (r : SchedulerRun S) : SchedulerRun S := { r with clockReads := r.clockReads + 1 }

def failed (r : SchedulerRun S) : Bool := r.outcome.failure.isSome

/-! ## Event handling -/

def emit (r : SchedulerRun S) (kind : AttemptEventKind) (lease : LeaseRecord S)
    (detail : String) : SchedulerRun S :=
  r.perform (.observed
    { kind
      taskId := S.graph.taskId lease.task
      attempt := lease.lease.attempt
      executorId := (S.executor lease.executor).id
      leaseId := lease.lease.leaseId
      speculative := lease.speculative
      detail })

def failBuild (r : SchedulerRun S) (kind : BuildFailureKind) (taskId message : String) :
    SchedulerRun S :=
  if r.failed then r
  else { r with outcome := { r.outcome with
    status := .failed
    failure := some { kind, taskId, message } } }

/-- Removes a lease found under `leaseId` from every table. -/
def release (r : SchedulerRun S) (leaseId : String) (lease : LeaseRecord S) : SchedulerRun S :=
  let r := { r with leases := r.leases.erase leaseId }
  let r := r.modifyExecutor lease.executor fun record => { record with active := record.active - 1 }
  r.modifyTask lease.task fun task =>
    { task with activeLeases := task.activeLeases.erase lease.lease.leaseId }

/-- Makes a task ready and queues it. -/
def requeue (r : SchedulerRun S) (t : S.Task) : SchedulerRun S :=
  let r := r.modifyTask t fun task => { task with phase := .ready }
  { r with readyQueue := r.readyQueue.insert t }

/-- Requeues a task that is not committed and has no attempt in flight. -/
def requeueIdle (r : SchedulerRun S) (t : S.Task) : SchedulerRun S :=
  if (r.tasks t).phase ≠ .committed ∧ (r.tasks t).activeLeases = ∅ then r.requeue t else r

/-- One of the other leases of an executor under quarantine: it goes back to the
queue and avoids the executor. -/
def abandonLease (e : S.ExecutorIndex) (r : SchedulerRun S) (leaseId : String) : SchedulerRun S :=
  match r.leases.find? leaseId with
  | none => r
  | some lease =>
    let r := (r.release leaseId lease).perform (.cancel e leaseId)
    let r := r.modifyTask lease.task fun task => { task with avoid := insert e task.avoid }
    r.requeueIdle lease.task

/-- The lease ids held on an executor, in table order. -/
def leasesOf (r : SchedulerRun S) (e : S.ExecutorIndex) : List String :=
  (r.leases.entries.filter fun entry => entry.2.executor = e).map Prod.fst

def quarantine (r : SchedulerRun S) (e : S.ExecutorIndex) (reason : String) : SchedulerRun S :=
  if (r.executors e).quarantined then r
  else
    let r := r.modifyExecutor e fun record => { record with quarantined := true }
    let r := r.modifyStats fun stats =>
      { stats with quarantinedExecutors := stats.quarantinedExecutors ++ [(S.executor e).id] }
    let r := r.perform (.observed
      { kind := .executorQuarantined, executorId := (S.executor e).id, detail := reason })
    (r.leasesOf e).foldl (abandonLease e) r

def attemptFailed (r : SchedulerRun S) (t : S.Task) (e : S.ExecutorIndex) (reason : String) :
    SchedulerRun S :=
  let r := r.modifyTask t fun task =>
    { task with
      failedAttempts := task.failedAttempts + 1
      avoid := insert e task.avoid
      lastFailure := reason }
  let task := r.tasks t
  let maxAttempts := maxAttemptsFor S.policy (S.graph.spec t).taskType
  if task.phase = .committed ∨ task.activeLeases ≠ ∅ ∨ r.failed then r
  else if maxAttempts ≤ task.failedAttempts then
    r.failBuild .retriesExhausted (S.graph.taskId t)
      ("task `" ++ S.graph.taskId t ++ "` failed " ++ toString task.failedAttempts ++
        " attempts (max_attempts " ++ toString maxAttempts ++
        "); last failure: " ++ task.lastFailure)
  else
    (r.modifyStats fun stats => { stats with retries := stats.retries + 1 }).requeue t

/-- A lost attempt is a new loss event only when it was granted after the
executor's latest counted event. -/
def countExecutorLoss (r : SchedulerRun S) (lease : LeaseRecord S) : SchedulerRun S :=
  let record := r.executors lease.executor
  if (S.executor lease.executor).lossQuarantine = .never then r
  else if lease.grantSequence < record.lossHorizon then r
  else
    let events := record.consecutiveLossEvents + 1
    let r := r.modifyExecutor lease.executor fun record =>
      { record with consecutiveLossEvents := events, lossHorizon := r.nextLeaseNumber }
    if S.policy.retry.quarantineAfterLossEvents ≤ events then
      r.quarantine lease.executor
        (toString events ++ " consecutive loss events (lost, expired, or " ++
          "deadline-exceeded attempts) with no verified result in between")
    else r

def noteExecutorRecovery (r : SchedulerRun S) (lease : LeaseRecord S) : SchedulerRun S :=
  if (r.executors lease.executor).lossHorizon ≤ lease.grantSequence then
    r.modifyExecutor lease.executor fun record => { record with consecutiveLossEvents := 0 }
  else r

/-- A waiting dependent becomes ready; a resumed one stays committed. -/
def markReady (r : SchedulerRun S) (t : S.Task) : SchedulerRun S :=
  if (r.tasks t).phase = .waiting then r.requeue t else r

def markReadyDependents (r : SchedulerRun S) (completed : S.Task) : SchedulerRun S :=
  let (ready, readySet) := r.readySet.markComplete completed
  ready.foldl markReady { r with readySet }

def commit (r : SchedulerRun S) (lease : LeaseRecord S) (output : AttemptOutput) :
    SchedulerRun S :=
  let executorId := (S.executor lease.executor).id
  let r := r.perform (.commit lease.task
    { result := output.result, payloads := output.payloads, executorId })
  match S.sinkError (commitCalls r.log) with
  | some what =>
    r.failBuild .commitFailed (S.graph.taskId lease.task)
      ("committing task `" ++ S.graph.taskId lease.task ++ "` failed: " ++ what)
  | none =>
    let r := r.modifyTask lease.task fun task =>
      { task with
        phase := .committed
        committedAttempt := lease.lease.attempt
        committedExecutorId := executorId
        committedOutputDigest := output.result.outputDigest }
    let r := { r with readyQueue := r.readyQueue.erase lease.task }
    let r := r.modifyStats fun stats => { stats with committed := stats.committed + 1 }
    let r := r.emit .committed lease ""
    r.markReadyDependents lease.task

/-- A verified result equal to the committed one. -/
def discardDuplicate (r : SchedulerRun S) (lease : LeaseRecord S) : SchedulerRun S :=
  (r.modifyStats fun stats =>
    { stats with duplicatesDiscarded := stats.duplicatesDiscarded + 1 }).emit
    .duplicateDiscarded lease ""

def incidentMessage (r : SchedulerRun S) (lease : LeaseRecord S) (output : AttemptOutput) :
    String :=
  let task := r.tasks lease.task
  "task `" ++ S.graph.taskId lease.task ++ "` attempt " ++ toString lease.lease.attempt ++
    " produced output digest " ++ blake3Prefixed output.result.outputDigest ++
    " but attempt " ++ toString task.committedAttempt ++ " committed " ++
    blake3Prefixed task.committedOutputDigest

/-- A verified result that differs from the committed one. -/
def reportIncident (r : SchedulerRun S) (lease : LeaseRecord S) (output : AttemptOutput) :
    SchedulerRun S :=
  let task := r.tasks lease.task
  let taskId := S.graph.taskId lease.task
  let message := r.incidentMessage lease output
  let r := r.emit .determinismIncident lease message
  let incident : DeterminismIncident :=
    { taskId
      committedAttempt := task.committedAttempt
      committedExecutorId := task.committedExecutorId
      committedOutputDigest := task.committedOutputDigest
      conflicting :=
        { result := output.result, payloads := output.payloads
          executorId := (S.executor lease.executor).id } }
  let r := { r with outcome := { r.outcome with incidents := r.outcome.incidents ++ [incident] } }
  r.failBuild .determinismIncident taskId message

def onVerifiedSuccess (r : SchedulerRun S) (lease : LeaseRecord S) (output : AttemptOutput) :
    SchedulerRun S :=
  let r := r.noteExecutorRecovery lease
  let task := r.tasks lease.task
  if task.phase ≠ .committed then r.commit lease output
  else if output.result.outputDigest = task.committedOutputDigest then r.discardDuplicate lease
  else r.reportIncident lease output

/-- A result without defect whose status is failed. -/
def onVerifiedFailure (r : SchedulerRun S) (lease : LeaseRecord S) (error : TaskError) :
    SchedulerRun S :=
  let taskId := S.graph.taskId lease.task
  let reason := error.code ++ ": " ++ error.message
  let r := r.emit .failed lease reason
  if (r.tasks lease.task).phase = .committed then r
  else if !error.retryable then
    r.failBuild .permanentTaskFailure taskId
      ("task `" ++ taskId ++ "` failed permanently on attempt " ++
        toString lease.lease.attempt ++ ": " ++ reason)
  else r.attemptFailed lease.task lease.executor reason

def onInvalidResult (r : SchedulerRun S) (lease : LeaseRecord S) (defect : String) :
    SchedulerRun S :=
  let r := r.modifyStats fun stats => { stats with invalidResults := stats.invalidResults + 1 }
  let r := r.emit .failed lease ("invalid result: " ++ defect)
  let r := r.quarantine lease.executor
    ("returned an invalid result for task `" ++ S.graph.taskId lease.task ++ "`: " ++ defect)
  r.attemptFailed lease.task lease.executor ("invalid result: " ++ defect)

def onFinished (r : SchedulerRun S) (leaseId : String) (output : AttemptOutput) :
    SchedulerRun S :=
  match r.leases.find? leaseId with
  | none => r
  | some lease =>
    let r := r.release leaseId lease
    let r := r.modifyExecutor lease.executor fun record => { record with declinedUntil := 0 }
    match findResultDefect S.codec (S.graph.spec lease.task) lease.lease.attempt
        output.result output.payloads with
    | some defect => r.onInvalidResult lease defect
    | none =>
      match output.result.status, output.result.error with
      | .succeeded, _ => r.onVerifiedSuccess lease output
      | .failed, some error => r.onVerifiedFailure lease error
      | .failed, none => r -- excluded: a failed result without defect has its error

def onHeartbeat (r : SchedulerRun S) (leaseId : String) : SchedulerRun S :=
  match r.leases.find? leaseId with
  | none => r
  | some lease =>
    let expiresAt := addMillis r.now lease.lease.duration
    { r.tick with leases := r.leases.insert leaseId { lease with expiresAt } }

def onFailed (r : SchedulerRun S) (leaseId : String) (kind : AttemptFailureKind)
    (message : String) : SchedulerRun S :=
  match r.leases.find? leaseId with
  | none => r
  | some lease =>
    let r := r.release leaseId lease
    let reason := attemptFailureKindName kind ++ ": " ++ message
    let r := r.emit .failed lease reason
    let r :=
      match kind with
      | .invalidResult =>
        (r.modifyStats fun stats =>
          { stats with invalidResults := stats.invalidResults + 1 }).quarantine lease.executor reason
      | .executorLost => r.countExecutorLoss lease
    r.attemptFailed lease.task lease.executor reason

/-- The executor declined the lease: nothing is counted, the task is ready
again at once and this executor backs off. -/
def onRejected (r : SchedulerRun S) (leaseId code message : String) : SchedulerRun S :=
  match r.leases.find? leaseId with
  | none => r
  | some lease =>
    let r := r.release leaseId lease
    let r := r.modifyStats fun stats => { stats with leasesRejected := stats.leasesRejected + 1 }
    let r := r.emit .rejected lease (code ++ ": " ++ message)
    let declinedUntil := addMillis r.now S.policy.rejectionBackoff
    let r := r.tick.modifyExecutor lease.executor fun record => { record with declinedUntil }
    r.requeueIdle lease.task

def apply (r : SchedulerRun S) (event : InboxEvent) : SchedulerRun S :=
  if r.failed then r
  else
    match event with
    | .heartbeat leaseId => r.onHeartbeat leaseId
    | .finished leaseId output => r.onFinished leaseId output
    | .rejected leaseId code message => r.onRejected leaseId code message
    | .failed leaseId kind message => r.onFailed leaseId kind message

/-- The attempt is alive but past its hard deadline: it is cancelled and counted
as lost. The lease is already released. -/
def endLeaseAtDeadline (r : SchedulerRun S) (lease : LeaseRecord S) : SchedulerRun S :=
  let detail := "attempt exceeded its hard deadline of " ++
    toString (lease.deadlineAt - lease.grantedAt) ++ " ms"
  let r := r.modifyStats fun stats => { stats with deadlinesExceeded := stats.deadlinesExceeded + 1 }
  let r := r.emit .deadlineExceeded lease detail
  let r := r.perform (.cancel lease.executor lease.lease.leaseId)
  let r := r.countExecutorLoss lease
  r.attemptFailed lease.task lease.executor detail

/-- The lease ran out without a heartbeat. The lease is already released. -/
def endLeaseAtExpiry (r : SchedulerRun S) (leaseId : String) (lease : LeaseRecord S) :
    SchedulerRun S :=
  let r := r.modifyStats fun stats => { stats with leasesExpired := stats.leasesExpired + 1 }
  let r := r.emit .expired lease ""
  let r := r.perform (.leaseExpired lease.executor leaseId)
  let r := r.countExecutorLoss lease
  r.attemptFailed lease.task lease.executor "lease expired without a heartbeat"

/-- One of the leases found ended; an earlier one's quarantine may have released
it meanwhile. -/
def endLease (now : Millis) (r : SchedulerRun S) (leaseId : String) : SchedulerRun S :=
  match r.leases.find? leaseId with
  | none => r
  | some lease =>
    if r.failed then r
    else if lease.deadlineAt ≤ now then (r.release leaseId lease).endLeaseAtDeadline lease
    else (r.release leaseId lease).endLeaseAtExpiry leaseId lease

/-- The lease ids past their expiry or hard deadline, in table order. -/
def endedLeases (r : SchedulerRun S) (now : Millis) : List String :=
  (r.leases.entries.filter fun entry =>
    decide (entry.2.expiresAt ≤ now ∨ entry.2.deadlineAt ≤ now)).map Prod.fst

def expireLeases (r : SchedulerRun S) : SchedulerRun S :=
  (r.endedLeases r.now).foldl (endLease r.now) r.tick

/-! ## Lease granting -/

def hasOtherUsableExecutor (r : SchedulerRun S) (t : S.Task) (e : S.ExecutorIndex) : Bool :=
  (List.finRange S.executorCount).any fun other =>
    decide (other ≠ e) && !(r.executors other).quarantined && decide (other ∉ (r.tasks t).avoid) &&
      (S.executor other).accepts (S.graph.spec t)

/-- Whether executor `e` takes task `t` when it meets it in the queue. -/
def takes (r : SchedulerRun S) (e : S.ExecutorIndex) (t : S.Task) : Bool :=
  (S.executor e).accepts (S.graph.spec t) &&
    (!S.policy.retry.preferDifferentExecutor || decide (e ∉ (r.tasks t).avoid) ||
      !r.hasOtherUsableExecutor t e)

/-- First ready task in queue order the executor should take. -/
def pickTask (r : SchedulerRun S) (e : S.ExecutorIndex) : Option S.Task :=
  r.readyQueue.tasks.find? (r.takes e)

/-- The record of the lease `grant` issues. -/
def newLease (r : SchedulerRun S) (t : S.Task) (e : S.ExecutorIndex) (speculative : Bool) :
    LeaseRecord S :=
  let spec := S.graph.spec t
  let leasePolicy := leasePolicyFor S.policy spec.taskType
  let duration := leaseDuration leasePolicy spec.resources.estSeconds
  { task := t
    executor := e
    lease :=
      { leaseId := "lease_" ++ toString r.nextLeaseNumber
        attempt := (r.tasks t).attemptsStarted + 1
        duration
        heartbeatInterval := leasePolicy.heartbeatInterval }
    grantSequence := r.nextLeaseNumber
    grantedAt := r.now
    expiresAt := addMillis r.now duration
    deadlineAt := addMillis r.now (attemptDeadline leasePolicy spec.resources.estSeconds)
    speculative }

def grant (r : SchedulerRun S) (t : S.Task) (e : S.ExecutorIndex) (speculative : Bool) :
    SchedulerRun S :=
  let record := r.newLease t e speculative
  let lease := record.lease
  let r := { r.tick with nextLeaseNumber := r.nextLeaseNumber + 1 }
  let r := r.modifyTask t fun task =>
    { task with
      attemptsStarted := lease.attempt
      phase := .leased
      activeLeases := insert lease.leaseId task.activeLeases }
  let r := { r with readyQueue := r.readyQueue.erase t }
  let r := r.modifyExecutor e fun record => { record with active := record.active + 1 }
  let r := r.modifyStats fun stats =>
    { stats with
      attemptsStarted := stats.attemptsStarted + 1
      speculativeAttempts := stats.speculativeAttempts + if speculative then 1 else 0 }
  let r := r.emit .leased record ""
  let r := { r with leases := r.leases.insert lease.leaseId record }
  r.perform (.assign e t lease)

def hasFreeSlot (r : SchedulerRun S) (e : S.ExecutorIndex) : Bool :=
  !(r.executors e).quarantined && decide ((r.executors e).active < (S.executor e).slots)

/-- The inner loop of `dispatch`. Every round takes a slot, so `slots()` rounds
are enough. -/
def fillSlots (e : S.ExecutorIndex) : Nat → SchedulerRun S → SchedulerRun S
  | 0, r => r
  | rounds + 1, r =>
    if r.hasFreeSlot e then
      match r.pickTask e with
      | none => r
      | some t => fillSlots e rounds (r.grant t e false)
    else r

def backingOff (r : SchedulerRun S) (e : S.ExecutorIndex) : Bool :=
  decide ((r.executors e).declinedUntil > r.now)

def dispatchTo (r : SchedulerRun S) (e : S.ExecutorIndex) : SchedulerRun S :=
  if r.backingOff e then r.tick else fillSlots e (S.executor e).slots r.tick

/-- Whether a straggler's lease may be duplicated on executor `e`. -/
def mayDuplicate (r : SchedulerRun S) (e : S.ExecutorIndex) (lease : LeaseRecord S) : Bool :=
  decide (lease.executor ≠ e) && decide ((r.tasks lease.task).phase ≠ .committed) &&
    decide ((r.tasks lease.task).activeLeases.card = 1) &&
    decide (e ∉ (r.tasks lease.task).avoid) &&
    (S.executor e).accepts (S.graph.spec lease.task)

/-- The longest-running lease that may be duplicated on `e`; of equally old
ones the first in table order. -/
def oldestDuplicable (r : SchedulerRun S) (e : S.ExecutorIndex) : Option (LeaseRecord S) :=
  (r.leases.values.filter (r.mayDuplicate e)).foldl
    (fun oldest lease =>
      match oldest with
      | none => some lease
      | some found => if lease.grantedAt < found.grantedAt then some lease else some found)
    none

/-- The inner loop of `dispatch_speculative`. -/
def fillSlotsSpeculative (e : S.ExecutorIndex) : Nat → SchedulerRun S → SchedulerRun S
  | 0, r => r
  | rounds + 1, r =>
    if r.hasFreeSlot e then
      match r.oldestDuplicable e with
      | none => r
      | some lease => fillSlotsSpeculative e rounds (r.grant lease.task e true)
    else r

def dispatchSpeculativeTo (r : SchedulerRun S) (e : S.ExecutorIndex) : SchedulerRun S :=
  if r.backingOff e then r.tick else fillSlotsSpeculative e (S.executor e).slots r.tick

def dispatchSpeculative (r : SchedulerRun S) : SchedulerRun S :=
  (List.finRange S.executorCount).foldl dispatchSpeculativeTo r

def dispatch (r : SchedulerRun S) : SchedulerRun S :=
  let r := (List.finRange S.executorCount).foldl dispatchTo r
  if S.policy.speculativeDuplicates && r.readyQueue.tasks.isEmpty then r.dispatchSpeculative else r

/-! ## The main loop -/

/-- Looks at the executors in turn, reading the clock once for each that is not
quarantined, and stops at the first that is backing off. -/
def anyBackingOff : List S.ExecutorIndex → SchedulerRun S → Bool × SchedulerRun S
  | [], r => (false, r)
  | e :: rest, r =>
    if (r.executors e).quarantined then anyBackingOff rest r
    else if r.backingOff e then (true, r.tick)
    else anyBackingOff rest r.tick

def anyExecutorBackingOff (r : SchedulerRun S) : Bool × SchedulerRun S :=
  anyBackingOff (List.finRange S.executorCount) r

def nextWait (r : SchedulerRun S) : Millis :=
  let overLeases := r.leases.values.foldl
    (fun wait lease => min wait (max 0 (min lease.expiresAt lease.deadlineAt - r.now)))
    S.policy.maxIdleWait
  (List.finRange S.executorCount).foldl
    (fun wait e =>
      let record := r.executors e
      if !record.quarantined && decide (record.declinedUntil > r.now) then
        min wait (record.declinedUntil - r.now)
      else wait)
    overLeases

def abandonOutstandingLeases (r : SchedulerRun S) : SchedulerRun S :=
  { r with
    leases := .empty
    log := r.log ++ r.leases.entries.map fun entry => .cancel entry.2.executor entry.1 }

def setStatus (r : SchedulerRun S) (status : BuildStatus) : SchedulerRun S :=
  { r with outcome := { r.outcome with status } }

/-- Marks one resumed result committed. -/
def applyResumedResult (r : SchedulerRun S) (committed : CommittedResult) :
    Except ExecError (SchedulerRun S) :=
  let result := committed.result
  match S.graph.find result.taskId with
  | none =>
    .error ⟨.invalidValue, "resumed result names task `" ++ result.taskId ++
      "`, which is not in the task graph"⟩
  | some t =>
    if (r.tasks t).phase = .committed then
      .error ⟨.invalidValue, "task `" ++ result.taskId ++ "` is resumed twice"⟩
    else
      match findResultDefect S.codec (S.graph.spec t) result.attempt result committed.payloads with
      | some defect =>
        .error ⟨.invalidValue,
          "resumed result for task `" ++ result.taskId ++ "` is invalid: " ++ defect⟩
      | none =>
        if result.status ≠ .succeeded then
          .error ⟨.invalidValue,
            "resumed result for task `" ++ result.taskId ++ "` is not a success"⟩
        else
          let r := r.modifyTask t fun task =>
            { task with
              phase := .committed
              committedAttempt := result.attempt
              committedExecutorId := committed.executorId
              committedOutputDigest := result.outputDigest }
          let r := { r with readySet := (r.readySet.markComplete t).2 }
          .ok (r.modifyStats fun stats => { stats with resumed := stats.resumed + 1 })

def applyResumed (r : SchedulerRun S) (resumed : List CommittedResult) :
    Except ExecError (SchedulerRun S) :=
  resumed.foldlM applyResumedResult r

/-- A waiting task whose dependencies are all complete starts ready. -/
def markInitiallyReady (r : SchedulerRun S) (t : S.Task) : SchedulerRun S :=
  if (r.tasks t).phase = .waiting ∧ r.readySet.DepsComplete t then r.requeue t else r

/-- The prelude of `execute()`. -/
def prepare (r : SchedulerRun S) : SchedulerRun S :=
  (List.finRange S.graph.size).foldl markInitiallyReady r

end SchedulerRun

/-- Where the main loop stands. -/
inductive Stage
  | head
  | dispatched
  | applying (events : List InboxEvent)
  | finished

structure RunState (S : SchedulerSetup) where
  run : SchedulerRun S
  stage : Stage

/-- What the surroundings decide in a step. -/
structure RoundInput where
  cancelRequested : Bool := false
  events : List InboxEvent := []

variable {S : SchedulerSetup}

def kNoUsableExecutorMessage : String :=
  "tasks remain but no executor that accepts them is usable (every one is " ++
    "quarantined or none accepts their task type)"

/-- One step of `execute()`: a loop head with its dispatch, the dead-end check
with the wait, one event, or the expiry pass. -/
def RunState.advance (input : RoundInput) (s : RunState S) : Option (RunState S) :=
  match s.stage with
  | .head =>
    if s.run.failed then some ⟨s.run.abandonOutstandingLeases, .finished⟩
    else if input.cancelRequested then
      some ⟨(s.run.setStatus .cancelled).abandonOutstandingLeases, .finished⟩
    else if s.run.readySet.allComplete && s.run.leases.isEmpty then
      some ⟨(s.run.setStatus .succeeded).abandonOutstandingLeases, .finished⟩
    else some ⟨s.run.dispatch, .dispatched⟩
  | .dispatched =>
    if s.run.leases.isEmpty then
      let (backingOff, run) := s.run.anyExecutorBackingOff
      if backingOff then some ⟨run.tick.perform (.waited run.nextWait), .applying input.events⟩
      else
        some ⟨(run.failBuild .noUsableExecutor "" kNoUsableExecutorMessage).abandonOutstandingLeases,
          .finished⟩
    else some ⟨s.run.tick.perform (.waited s.run.nextWait), .applying input.events⟩
  | .applying (event :: rest) => some ⟨s.run.apply event, .applying rest⟩
  | .applying [] => some ⟨s.run.expireLeases, .head⟩
  | .finished => none

/-- The runs of `Scheduler::run` with the given resumed results. -/
def schedulerSystem (S : SchedulerSetup) (resumed : List CommittedResult) :
    Lib.System (RunState S) where
  init s := ∃ r, (SchedulerRun.start S).applyResumed resumed = .ok r ∧ s = ⟨r.prepare, .head⟩
  step s t := ∃ input, s.advance input = some t

/-! ## A run of one task on one executor -/

def soloSpec : TaskSpec := { buildSessionId := "session", taskId := "task", taskType := "probe" }

def soloGraph : TaskGraph where
  nodes := [{ spec := soloSpec, orderKey := { lane := "lane" } }]
  uniqueIds := by decide
  uniqueKeys := by decide
  ascending := by simp [soloSpec]
  closed := by simp [soloSpec]
  acyclic := by decide

def soloSetup : SchedulerSetup where
  codec := sampleCodec
  policy := {}
  graph := soloGraph
  executorCount := 1
  executor _ := { id := "local", slots := 1 }
  sinkError _ := none
  clock n := n
  policyValid := validateSchedulerPolicy_default
  executorsValid := rfl

/-- The run before its first round. -/
def soloStart : RunState soloSetup := ⟨(SchedulerRun.start soloSetup).prepare, .head⟩

theorem soloStart_reachable : (schedulerSystem soloSetup []).Reachable soloStart :=
  .start ⟨_, rfl, rfl⟩

end Svp.Exec

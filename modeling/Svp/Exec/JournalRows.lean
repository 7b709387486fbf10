import Svp.Exec.Records

/-!
# The rows of the recovery journal

The tables of `build.sqlite` that recording, committing and resuming read and write, and
what each method does to them inside its transaction. A method that throws rolls its
transaction back, so each is a function that returns the new rows or an error.

Text columns are texts and integer columns integers, whatever wrote them: a reader parses
what it finds.
-/

namespace Svp.Exec

open Lib (OrderedMap)

/-! ## The task lifecycle -/

inductive TaskState
  | planned
  | ready
  | leased
  | running
  | resultReceived
  | committed
  | failedRetryable
  | failedPermanent
deriving DecidableEq

def kTaskStateNames : List (TaskState × String) :=
  [(.planned, "planned"), (.ready, "ready"), (.leased, "leased"), (.running, "running"),
    (.resultReceived, "result_received"), (.committed, "committed"),
    (.failedRetryable, "failed_retryable"), (.failedPermanent, "failed_permanent")]

def taskStateName (state : TaskState) : String :=
  match kTaskStateNames.find? fun known => known.1 = state with
  | some known => known.2
  | none => "unknown"

def parseTaskState (name : String) : Option TaskState :=
  (kTaskStateNames.find? fun known => known.2 = name).map Prod.fst

/-- Local execution may skip `leased`. -/
def kAllowedTransitions : List (TaskState × TaskState) :=
  [(.planned, .ready),
    (.ready, .leased),
    (.ready, .running),
    -- cache hit
    (.ready, .resultReceived),
    (.leased, .running),
    -- lease expired before start
    (.leased, .ready),
    (.leased, .failedRetryable),
    (.running, .resultReceived),
    -- lease expired or worker lost
    (.running, .ready),
    (.running, .failedRetryable),
    (.running, .failedPermanent),
    (.resultReceived, .committed),
    -- result invalid
    (.resultReceived, .failedRetryable),
    (.resultReceived, .failedPermanent),
    (.failedRetryable, .ready),
    -- retries exhausted
    (.failedRetryable, .failedPermanent)]

def isTaskTransitionAllowed (current next : TaskState) : Bool :=
  kAllowedTransitions.contains (current, next)

@[simp] theorem parseTaskState_taskStateName (state : TaskState) :
    parseTaskState (taskStateName state) = some state := by
  cases state <;> decide

theorem taskStateName_injective : Function.Injective taskStateName := by
  intro a b same
  have parsed := congrArg parseTaskState same
  simpa using parsed

/-- No edge leaves `committed`. -/
theorem not_allowed_from_committed (next : TaskState) :
    isTaskTransitionAllowed .committed next = false := by
  cases next <;> decide

/-! ## Errors -/

inductive JournalErrorCode
  | ioError
  | databaseError
  | duplicateRecord
  | sourceMismatch
  | unknownTask
  | invalidTransition
  | invalidArgument
  | artifactMismatch
deriving DecidableEq

structure JournalError where
  code : JournalErrorCode
  message : String
deriving DecidableEq

/-- What a call on the journal throws. -/
inductive JournalFailure
  | journal (error : JournalError)
  | exec (error : ExecError)
deriving DecidableEq

def journalError {α : Type} (code : JournalErrorCode) (message : String) :
    Except JournalFailure α :=
  .error (.journal ⟨code, message⟩)

/-- A call of the record code, whose errors pass through. -/
def ofExec {α : Type} : Except ExecError α → Except JournalFailure α
  | .ok a => .ok a
  | .error e => .error (.exec e)

@[simp] theorem ofExec_eq_ok {α : Type} {x : Except ExecError α} {a : α} :
    ofExec x = .ok a ↔ x = .ok a := by
  cases x <;> simp [ofExec]

/-! ## Records -/

inductive BuildSessionStatus
  | active
  | succeeded
  | failed
  | interrupted

def buildSessionStatusName : BuildSessionStatus → String
  | .active => "active"
  | .succeeded => "succeeded"
  | .failed => "failed"
  | .interrupted => "interrupted"

structure BuildSessionRecord where
  id : String
  startedUtc : String
  svpVersion : String
  builderVersion : String
  status : BuildSessionStatus := .active

structure SourceFingerprintRecord where
  sourceId : String
  path : String
  sizeBytes : Nat
  mtimeNs : Option Int := none
  blake3 : Blake3Digest

structure JournalTaskRecord where
  taskId : String
  taskType : String
  cacheKey : Option Blake3Digest := none
  dependsOn : List String := []

structure ArtifactProvenanceRecord where
  processorId : String
  parametersBlake3 : Blake3Digest
  modelRefs : List String := []

/-- One task output to commit. `blake3` is the digest its producer declared; `content` are
the bytes handed in, or those of the file to copy. -/
structure JournalArtifactInput where
  artifactId : String
  blake3 : Blake3Digest
  content : Bytes
  provenance : ArtifactProvenanceRecord

structure CacheHitRecord where
  cacheKey : Blake3Digest
  artifactId : String
  verified : Bool := false

structure TaskCommit where
  taskId : String
  outputBlake3 : Blake3Digest
  artifacts : List JournalArtifactInput
  cacheHit : Option CacheHitRecord := none

/-- A published blob, as its artifact row records it. -/
structure CommittedBlob where
  relativePath : String
  bytes : Nat
deriving DecidableEq

inductive WorkerSessionStatus
  | active
  | ended
  | lost
  | quarantined

def workerSessionStatusName : WorkerSessionStatus → String
  | .active => "active"
  | .ended => "ended"
  | .lost => "lost"
  | .quarantined => "quarantined"

structure WorkerSessionRecord where
  workerSessionId : String
  workerId : String
  runtimeId : Option Blake3Digest := none
  startedUtc : String
  endedUtc : Option String := none
  status : WorkerSessionStatus := .active

inductive AttemptOutcome
  | leased
  | running
  | succeeded
  | failed
  | lost
  | abandoned
  | duplicate

def attemptOutcomeName : AttemptOutcome → String
  | .leased => "leased"
  | .running => "running"
  | .succeeded => "succeeded"
  | .failed => "failed"
  | .lost => "lost"
  | .abandoned => "abandoned"
  | .duplicate => "duplicate"

structure TaskAttemptRecord where
  taskId : String
  attempt : Nat
  workerSessionId : Option String := none
  leaseId : Option String := none
  leasedUtc : Option String := none
  startedUtc : Option String := none
  completedUtc : Option String := none
  queueMs : Option Nat := none
  transferMs : Option Nat := none
  computeMs : Option Nat := none
  cpuMs : Option Nat := none
  peakRssBytes : Option Nat := none
  outcome : AttemptOutcome := .leased
  error : Option String := none

/-! ## Tables -/

structure BuildSessionRow where
  startedUtc : String
  svpVersion : String
  builderVersion : String
  status : String

structure SourceRow where
  path : String
  sizeBytes : Int
  mtimeNs : Option Int
  blake3 : String

structure TaskRow where
  taskType : String
  status : String
  cacheKey : Option String
  startedUtc : Option String := none
  completedUtc : Option String := none
  outputBlake3 : Option String := none
deriving DecidableEq

structure ArtifactRow where
  taskId : String
  relativePath : String
  blake3 : String
  byteLength : Int
deriving DecidableEq

structure ArtifactProvenanceRow where
  processorId : String
  parametersBlake3 : String
  modelRefsJson : Bytes
deriving DecidableEq

structure CacheHitRow where
  cacheKey : String
  artifactId : String
  verified : Int
deriving DecidableEq

structure WorkerSessionRow where
  workerId : String
  runtimeId : Option String
  startedUtc : String
  endedUtc : Option String
  status : String

structure TaskAttemptRow where
  workerSessionId : Option String
  leaseId : Option String
  leasedUtc : Option String
  startedUtc : Option String
  completedUtc : Option String
  queueMs : Option Int
  transferMs : Option Int
  computeMs : Option Int
  cpuMs : Option Int
  peakRssBytes : Option Int
  outcome : String
  error : Option String

/-- The tables, each under its primary key. -/
structure JournalRows where
  buildSession : OrderedMap String BuildSessionRow := .empty
  source : OrderedMap String SourceRow := .empty
  task : OrderedMap String TaskRow := .empty
  taskDependency : OrderedMap (String ×ₗ String) Unit := .empty
  artifact : OrderedMap String ArtifactRow := .empty
  provenance : OrderedMap String ArtifactProvenanceRow := .empty
  cacheHit : OrderedMap String CacheHitRow := .empty
  workerSession : OrderedMap String WorkerSessionRow := .empty
  taskAttempt : OrderedMap (String ×ₗ Nat) TaskAttemptRow := .empty

section Sql

variable {κ α : Type} [LinearOrder κ]

/-- `INSERT`: an existing primary key is a constraint violation. -/
def insertRow (key : String) (table : OrderedMap κ α) (k : κ) (row : α) :
    Except JournalFailure (OrderedMap κ α) :=
  if table.contains k then
    journalError .duplicateRecord ("step: UNIQUE constraint failed: " ++ key)
  else .ok (table.insert k row)

/-- `UPDATE ... WHERE` the primary key is `k`. -/
def updateRow (table : OrderedMap κ α) (k : κ) (set : α → α) : OrderedMap κ α :=
  match table.find? k with
  | some row => table.insert k (set row)
  | none => table

theorem insertRow_eq_ok {key : String} {table table' : OrderedMap κ α} {k : κ} {row : α} :
    insertRow key table k row = .ok table' ↔
      table.find? k = none ∧ table' = table.insert k row := by
  rw [insertRow, OrderedMap.contains]
  cases found : table.find? k with
  | none => simp [eq_comm]
  | some old => simp [journalError]

theorem updateRow_of_found {table : OrderedMap κ α} {k : κ} {set : α → α} {row : α}
    (found : table.find? k = some row) : updateRow table k set = table.insert k (set row) := by
  unfold updateRow
  rw [found]

theorem find?_updateRow (table : OrderedMap κ α) (k : κ) (set : α → α) (k' : κ) :
    (updateRow table k set).find? k' =
      if k' = k then (table.find? k).map set else table.find? k' := by
  unfold updateRow
  cases found : table.find? k with
  | none =>
    show table.find? k' = if k' = k then none else table.find? k'
    split
    · next same => rw [same, found]
    · rfl
  | some row => exact OrderedMap.find?_insert table k k' (set row)

end Sql

/-- The largest SQLite integer. -/
def kMaxSqliteInteger : Nat := 2 ^ 63 - 1

def bindUnsigned (value : Nat) : Except JournalFailure Int :=
  if value ≤ kMaxSqliteInteger then .ok value
  else journalError .invalidArgument
    ("value " ++ toString value ++ " exceeds the SQLite INTEGER range")

def bindOptional : Option Nat → Except JournalFailure (Option Int)
  | none => .ok none
  | some value => do return some (← bindUnsigned value)

theorem bindUnsigned_eq_ok {value : Nat} {column : Int} :
    bindUnsigned value = .ok column ↔ value ≤ kMaxSqliteInteger ∧ column = value := by
  unfold bindUnsigned
  split
  · next small => simp [small, eq_comm]
  · next large => simp [large, journalError]

/-! ## Recording -/

def requireRecordIdentifier (value what : String) : Except JournalFailure Unit :=
  if isRecordIdentifier value then .ok ()
  else journalError .invalidArgument (what ++ " must be [A-Za-z0-9._-]+: \"" ++ value ++ "\"")

namespace JournalRows

def recordBuildSession (rows : JournalRows) (session : BuildSessionRecord) :
    Except JournalFailure JournalRows := do
  requireRecordIdentifier session.id "build session id"
  let buildSession ← insertRow "build_session.id" rows.buildSession session.id
    { startedUtc := session.startedUtc, svpVersion := session.svpVersion,
      builderVersion := session.builderVersion, status := buildSessionStatusName session.status }
  return { rows with buildSession }

/-- The row `insert_source` writes. -/
def insertSource (rows : JournalRows) (source : SourceFingerprintRecord) :
    Except JournalFailure JournalRows := do
  requireRecordIdentifier source.sourceId "source id"
  let sizeBytes ← bindUnsigned source.sizeBytes
  let table ← insertRow "source_fingerprint.source_id" rows.source source.sourceId
    { path := source.path, sizeBytes, mtimeNs := source.mtimeNs, blake3 := blake3Hex source.blake3 }
  return { rows with source := table }

/-- The update alone: a session that is not recorded is left so. -/
def markBuildSession (rows : JournalRows) (sessionId : String) (status : BuildSessionStatus) :
    JournalRows :=
  { rows with
    buildSession := updateRow rows.buildSession sessionId fun row =>
      { row with status := buildSessionStatusName status } }

def setBuildSessionStatus (rows : JournalRows) (sessionId : String) (status : BuildSessionStatus) :
    Except JournalFailure JournalRows :=
  if rows.buildSession.contains sessionId then .ok (rows.markBuildSession sessionId status)
  else journalError .invalidArgument ("unknown build session \"" ++ sessionId ++ "\"")

/-- Inserts the task as `planned`, with its dependencies. -/
def recordTask (rows : JournalRows) (task : JournalTaskRecord) :
    Except JournalFailure JournalRows := do
  requireRecordIdentifier task.taskId "task id"
  if task.taskType = "" then
    journalError .invalidArgument ("task " ++ task.taskId ++ " has an empty task type")
  else
    task.dependsOn.forM fun dependency => requireRecordIdentifier dependency "dependency task id"
    let table ← insertRow "task.task_id" rows.task task.taskId
      { taskType := task.taskType, status := taskStateName .planned,
        cacheKey := task.cacheKey.map blake3Prefixed }
    let dependencies ← task.dependsOn.foldlM (fun table dependency =>
      insertRow "task_dependency.task_id, task_dependency.depends_on_task_id" table
        (toLex (task.taskId, dependency)) ()) rows.taskDependency
    return { rows with task := table, taskDependency := dependencies }

def readTaskState (rows : JournalRows) (taskId : String) :
    Except JournalFailure (Option TaskState) :=
  match rows.task.find? taskId with
  | none => .ok none
  | some row =>
    match parseTaskState row.status with
    | some state => .ok (some state)
    | none => journalError .databaseError
        ("task " ++ taskId ++ " has unknown status \"" ++ row.status ++ "\"")

def requireTaskState (rows : JournalRows) (taskId : String) : Except JournalFailure TaskState := do
  match ← rows.readTaskState taskId with
  | some state => return state
  | none => journalError .unknownTask ("task " ++ taskId ++ " is not recorded")

/-- One edge of the lifecycle. Entering `running` stamps the start. -/
def setTaskState (rows : JournalRows) (taskId : String) (next : TaskState) (now : String) :
    Except JournalFailure JournalRows := do
  let current ← rows.requireTaskState taskId
  if next = .committed ∨ isTaskTransitionAllowed current next = false then
    journalError .invalidTransition
      ("task " ++ taskId ++ ": " ++ taskStateName current ++ " -> " ++ taskStateName next ++
        " is not allowed" ++ (if next = .committed then " (use commit_task)" else ""))
  else
    return { rows with
      task := updateRow rows.task taskId fun row =>
        { row with
          status := taskStateName next
          startedUtc := if next = .running then some now else row.startedUtc } }

def recordWorkerSession (rows : JournalRows) (session : WorkerSessionRecord) :
    Except JournalFailure JournalRows := do
  requireRecordIdentifier session.workerSessionId "worker session id"
  return { rows with
    workerSession := rows.workerSession.insert session.workerSessionId
      { workerId := session.workerId, runtimeId := session.runtimeId.map blake3Prefixed,
        startedUtc := session.startedUtc, endedUtc := session.endedUtc,
        status := workerSessionStatusName session.status } }

/-- Recording an attempt again replaces its row. -/
def recordTaskAttempt (rows : JournalRows) (attempt : TaskAttemptRecord) :
    Except JournalFailure JournalRows := do
  requireRecordIdentifier attempt.taskId "task id"
  let queueMs ← bindOptional attempt.queueMs
  let transferMs ← bindOptional attempt.transferMs
  let computeMs ← bindOptional attempt.computeMs
  let cpuMs ← bindOptional attempt.cpuMs
  let peakRssBytes ← bindOptional attempt.peakRssBytes
  return { rows with
    taskAttempt := rows.taskAttempt.insert (toLex (attempt.taskId, attempt.attempt))
      { workerSessionId := attempt.workerSessionId, leaseId := attempt.leaseId,
        leasedUtc := attempt.leasedUtc, startedUtc := attempt.startedUtc,
        completedUtc := attempt.completedUtc, queueMs, transferMs, computeMs, cpuMs,
        peakRssBytes, outcome := attemptOutcomeName attempt.outcome, error := attempt.error } }

/-- The task's dependencies, in the order the journal reads them. -/
def dependsOn (rows : JournalRows) (taskId : String) : List String :=
  rows.taskDependency.entries.filterMap fun entry =>
    if (ofLex entry.1).1 = taskId then some (ofLex entry.1).2 else none

end JournalRows

/-! ## Committing -/

/-- Notes one more artifact id of a commit. -/
def noteArtifactId (ids : List String) (artifact : JournalArtifactInput) :
    Except JournalFailure (List String) := do
  requireRecordIdentifier artifact.artifactId "artifact id"
  if artifact.artifactId ∈ ids then
    journalError .invalidArgument
      ("artifact " ++ artifact.artifactId ++ " appears twice in one commit")
  else return artifact.artifactId :: ids

def validateCommit (commit : TaskCommit) : Except JournalFailure Unit := do
  let ids ← commit.artifacts.foldlM noteArtifactId []
  match commit.cacheHit with
  | none => return ()
  | some hit =>
    if hit.artifactId ∈ ids then return ()
    else
      journalError .invalidArgument
        ("cache hit artifact " ++ hit.artifactId ++ " is not one of the committed artifacts")

section Codec

variable (codec : Codec)

def modelRefsJson (modelRefs : List String) : Except JournalFailure Bytes :=
  ofExec (encodeCanonicalJson codec.json (.array (modelRefs.map .string)))

/-- The two rows of one committed artifact. -/
def JournalRows.insertArtifact (taskId : String) (rows : JournalRows)
    (stored : JournalArtifactInput × CommittedBlob) : Except JournalFailure JournalRows := do
  let (artifact, blob) := stored
  let byteLength ← bindUnsigned blob.bytes
  let artifacts ← insertRow "artifact.artifact_id" rows.artifact artifact.artifactId
    { taskId, relativePath := blob.relativePath, blake3 := blake3Hex artifact.blake3, byteLength }
  let modelRefs ← modelRefsJson codec artifact.provenance.modelRefs
  let provenance ← insertRow "artifact_provenance.artifact_id" rows.provenance artifact.artifactId
    { processorId := artifact.provenance.processorId,
      parametersBlake3 := blake3Hex artifact.provenance.parametersBlake3,
      modelRefsJson := modelRefs }
  return { rows with artifact := artifacts, provenance }

def CacheHitRecord.row (hit : CacheHitRecord) : CacheHitRow :=
  { cacheKey := blake3Prefixed hit.cacheKey, artifactId := hit.artifactId,
    verified := if hit.verified then 1 else 0 }

def JournalRows.insertCacheHit (rows : JournalRows) (taskId : String) :
    Option CacheHitRecord → Except JournalFailure JournalRows
  | none => .ok rows
  | some hit => do
    let cacheHit ← insertRow "cache_hit.task_id" rows.cacheHit taskId hit.row
    return { rows with cacheHit }

/-- The transaction of `commit_task`: the rows of every artifact, the cache hit, and the
task's own row. -/
def JournalRows.recordCommit (rows : JournalRows) (commit : TaskCommit)
    (blobs : List CommittedBlob) (now : String) : Except JournalFailure JournalRows := do
  let rows ← (commit.artifacts.zip blobs).foldlM (insertArtifact codec commit.taskId) rows
  let rows ← rows.insertCacheHit commit.taskId commit.cacheHit
  return { rows with
    task := updateRow rows.task commit.taskId fun row =>
      { row with
        status := taskStateName .committed
        outputBlake3 := some (blake3Hex commit.outputBlake3)
        completedUtc := some now } }

end Codec

end Svp.Exec

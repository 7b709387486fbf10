import Svp.Exec.JournalRecovery
import Svp.Exec.Scheduler
import Svp.Exec.TaskResultCodec

/-!
# Committed results in the journal

The scheduler's side of the journal. The commit sink walks a task's row to
`result_received` and commits the outputs of a verified result, with a record of the result
itself as one more artifact. A resumed build reads them back, so that reducers are handed
exactly the results the interrupted runs committed.
-/

namespace Svp.Exec

open Lib (OrderedMap Durable System)
open Lib.Durable (look check fail Meets)

/-! ## The record of a committed result -/

def kCommittedResultRecordSchema : String := "svp-journal-committed-result-v1"

def kCommittedResultPath : String := "committed_result"

structure CommittedResultRecord where
  result : TaskResult
  executorId : String

def committedResultRecordJson (taskResult : Json) (executorId : String) : Json :=
  .object [("executor_id", .string executorId), ("schema", .string kCommittedResultRecordSchema),
    ("task_result", taskResult)]

section Codec

variable (codec : Codec)

def encodeCommittedResultRecord (result : TaskResult) (executorId : String) :
    Except ExecError Bytes := do
  let taskResult ← taskResultToJson codec result
  encodeCanonicalJson codec.json (committedResultRecordJson taskResult executorId)

def decodeCommittedResultRecord (bytes : Bytes) : Except ExecError CommittedResultRecord := do
  let record ← decodeCanonicalJson codec.json bytes
  requireObject record kCommittedResultPath
  rejectUnknownFields record ["executor_id", "schema", "task_result"] kCommittedResultPath
  let schema ← requiredString record "schema" kCommittedResultPath
  require (schema = kCommittedResultRecordSchema) .invalidValue
    ("committed_result.schema is not " ++ kCommittedResultRecordSchema)
  let taskResult ← requiredObject record "task_result" kCommittedResultPath
  let result ← taskResultFromJson codec taskResult
  let executorId ← requiredString record "executor_id" kCommittedResultPath
  return { result, executorId }

/-- The JSON library reads back what it writes of this result. -/
def ReadsBack (committed : CommittedResult) : Prop :=
  let record := committedResultRecordJson (taskResultJson committed.result) committed.executorId
  codec.json.parse (dump codec.json record) = .ok record

theorem decodeCommittedResultRecord_encode {committed : CommittedResult} {bytes : Bytes}
    (readsBack : ReadsBack codec committed)
    (encoded : encodeCommittedResultRecord codec committed.result committed.executorId = .ok bytes) :
    decodeCommittedResultRecord codec bytes = .ok ⟨committed.result, committed.executorId⟩ := by
  obtain ⟨taskResult, written, encoded⟩ := bind_eq_ok.mp encoded
  have read := taskResultFromJson_taskResultToJson codec written
  obtain ⟨_, -, same⟩ := bind_eq_ok.mp written
  obtain rfl : taskResultJson committed.result = taskResult := by simpa [pure, Except.pure] using same
  have decoded := decode_encode codec.json readsBack encoded
  generalize recordIs : committedResultRecordJson (taskResultJson committed.result)
    committed.executorId = record at decoded
  have object : requireObject record kCommittedResultPath = .ok () := by rw [← recordIs]; rfl
  have known : rejectUnknownFields record ["executor_id", "schema", "task_result"]
      kCommittedResultPath = .ok () := by
    rw [← recordIs]
    exact rejectUnknownFields_of _ (by simp [committedResultRecordJson, Json.fields])
  have schema : requiredString record "schema" kCommittedResultPath =
      .ok kCommittedResultRecordSchema := by
    rw [← recordIs]
    exact requiredString_of _ rfl
  have taskResult : requiredObject record "task_result" kCommittedResultPath =
      .ok (taskResultJson committed.result) := by
    rw [← recordIs]
    exact requiredObject_of _ rfl
  have executorId : requiredString record "executor_id" kCommittedResultPath =
      .ok committed.executorId := by
    rw [← recordIs]
    exact requiredString_of _ rfl
  simp only [decodeCommittedResultRecord, decoded, object, known, schema, require, decide_true,
    if_true, taskResult, read, executorId, bind, Except.bind, pure, Except.pure]

/-! ## The commit sink -/

def journalResultArtifactId (taskId : String) : String := taskId ++ ".result"

def journalOutputArtifactId (taskId : String) (outputIndex : Nat) : String :=
  taskId ++ ".output." ++ toString outputIndex

/-- The edge from the state toward `result_received`. -/
def nextTowardResult : TaskState → Option TaskState
  | .planned => some .ready
  | .failedRetryable => some .ready
  | .ready => some .running
  | .leased => some .running
  | .running => some .resultReceived
  | .resultReceived => none
  | .committed => none
  | .failedPermanent => none

def invalidValue (message : String) : JournalFailure := .exec ⟨.invalidValue, message⟩

/-- The loop. No state is more than three edges from `result_received`, so four rounds
are never used up (`advanceFrom_meets`). -/
def advanceFrom (taskId now : String) : Nat → TaskState → JournalM Unit
  | 0, _ => return ()
  | rounds + 1, state =>
    if state = .resultReceived then return ()
    else
      match nextTowardResult state with
      | none => fail (invalidValue ("task `" ++ taskId ++ "` is " ++ taskStateName state ++
          " in the recovery journal and cannot commit a result"))
      | some next => do
        transaction fun rows => rows.setTaskState taskId next now
        advanceFrom taskId now rounds next

def advanceToResultReceived (taskId now : String) : JournalM Unit := do
  let journal ← look
  match ← check (journal.rows.readTaskState taskId) with
  | none => fail (invalidValue ("task `" ++ taskId ++ "` is not recorded in the recovery journal"))
  | some state => advanceFrom taskId now 4 state

def provenanceOf (spec : TaskSpec) : ArtifactProvenanceRecord :=
  { processorId := spec.taskType ++ "@" ++ toString spec.taskTypeVersion
    parametersBlake3 := spec.parametersBlake3
    modelRefs := spec.modelRefs.map TaskModelRef.modelBundleId }

def requireResultOf (spec : TaskSpec) (committed : CommittedResult) (journalSession : String) :
    Except JournalFailure Unit :=
  if spec.buildSessionId ≠ journalSession then
    .error (invalidValue ("task `" ++ spec.taskId ++ "` belongs to build session `" ++
      spec.buildSessionId ++ "`, the journal to `" ++ journalSession ++ "`"))
  else if committed.result.taskId ≠ spec.taskId ∨ committed.result.status ≠ .succeeded ∨
      committed.payloads.length ≠ committed.result.outputs.length then
    .error (invalidValue ("the result handed to the journal for task `" ++ spec.taskId ++
      "` is not its verified success"))
  else if committed.result.attempt > 2 ^ 32 - 1 then
    .error (invalidValue ("task `" ++ spec.taskId ++
      "` attempt number exceeds the journal's range"))
  else .ok ()

/-- `cpu_ms` is a sum of 64-bit counters. -/
def attemptRow (result : TaskResult) : TaskAttemptRecord :=
  { taskId := result.taskId
    attempt := result.attempt
    workerSessionId := some result.execution.workerSessionId
    queueMs := some result.execution.timingMs.queue
    computeMs := some result.execution.timingMs.compute
    cpuMs := some ((result.execution.cpuMs.user + result.execution.cpuMs.system) % 2 ^ 64)
    peakRssBytes := some result.execution.peakRssBytes
    outcome := .succeeded }

/-- One artifact for each output, from the `index`-th on. -/
def outputArtifacts (taskId : String) (provenance : ArtifactProvenanceRecord) :
    Nat → List ArtifactRef → List FramePayload → List JournalArtifactInput
  | index, ref :: refs, payload :: payloads =>
    { artifactId := journalOutputArtifactId taskId index, blake3 := ref.blake3, content := payload,
      provenance } :: outputArtifacts taskId provenance (index + 1) refs payloads
  | _, _, _ => []

/-- The record of the result, as one more artifact. -/
def resultArtifact (spec : TaskSpec) (record : Bytes) : JournalArtifactInput :=
  { artifactId := journalResultArtifactId spec.taskId, blake3 := codec.blake3 record,
    content := record, provenance := provenanceOf spec }

/-- What the sink commits: the outputs and the record of the result. -/
def sinkCommit (spec : TaskSpec) (committed : CommittedResult) : Except ExecError TaskCommit := do
  let record ← encodeCommittedResultRecord codec committed.result committed.executorId
  return { taskId := spec.taskId
           outputBlake3 := committed.result.outputDigest
           artifacts := outputArtifacts spec.taskId (provenanceOf spec) 0 committed.result.outputs
               committed.payloads ++ [resultArtifact codec spec record] }

/-- `JournalResultCommitSink::commit`; the attempt row comes after the commit, so that no
row claims a success that was not committed. -/
def commitToSink (names : Nat → String) (startedUtc completedUtc : String) (spec : TaskSpec)
    (committed : CommittedResult) : JournalM Unit := do
  let journal ← look
  check (requireResultOf spec committed journal.buildSessionId)
  advanceToResultReceived spec.taskId startedUtc
  let commit ← check (ofExec (sinkCommit codec spec committed))
  commitTask codec names completedUtc commit
  transaction fun rows => rows.recordTaskAttempt (attemptRow committed.result)

/-! ## Reading back -/

structure JournalArtifactRecord where
  artifactId : String
  blake3 : Blake3Digest
  byteLength : Nat
  /-- The file's name in `blobs/completed/`. -/
  path : String

structure JournalCommittedTask where
  taskId : String
  outputBlake3 : Blake3Digest
  artifacts : List JournalArtifactRecord

def artifactRecord (taskId : String) (artifact : String × ArtifactRow) :
    Except JournalFailure JournalArtifactRecord :=
  let malformed := journalError .databaseError ("artifact " ++ artifact.1 ++ " of task " ++ taskId ++
    " is not a well-formed completed-blob record")
  match parseBlake3Hex artifact.2.blake3 with
  | none => malformed
  | some blake3 =>
    if artifact.2.byteLength < 0 ∨
        artifact.2.relativePath ≠ journalCompletedRelativePath artifact.2.blake3 then malformed
    else .ok { artifactId := artifact.1, blake3, byteLength := artifact.2.byteLength.toNat,
               path := artifact.2.blake3 }

def readOutputBlake3 (rows : JournalRows) (taskId : String) : Except JournalFailure Blake3Digest :=
  match ((rows.task.find? taskId).bind TaskRow.outputBlake3).bind parseBlake3Hex with
  | some output => .ok output
  | none => journalError .databaseError
      ("committed task " ++ taskId ++ " has no well-formed output_blake3")

/-- `none` where the task is not committed. -/
def committedTask (rows : JournalRows) (taskId : String) :
    Except JournalFailure (Option JournalCommittedTask) := do
  let state ← rows.requireTaskState taskId
  if state ≠ .committed then return none
  else
    let outputBlake3 ← readOutputBlake3 rows taskId
    let artifacts ← (rows.artifact.entries.filter fun artifact => artifact.2.taskId = taskId).mapM
      (artifactRecord taskId)
    return some { taskId, outputBlake3, artifacts }

def findArtifact (task : JournalCommittedTask) (artifactId : String) :
    Except JournalFailure JournalArtifactRecord :=
  match task.artifacts.find? fun artifact => artifact.artifactId = artifactId with
  | some artifact => .ok artifact
  | none => .error (invalidValue ("committed task `" ++ task.taskId ++
      "` has no journal artifact `" ++ artifactId ++ "`"))

/-- Every read verifies. -/
def readVerified (journal : Journal) (artifact : JournalArtifactRecord) :
    Except JournalFailure Bytes :=
  let mismatch := .error (.exec ⟨.digestMismatch, "journal artifact `" ++ artifact.artifactId ++
    "` (" ++ journalCompletedRelativePath artifact.path ++ ") does not verify"⟩)
  match journal.completed.find? artifact.path with
  | some (.regular bytes) =>
    if bytes.length = artifact.byteLength ∧ codec.blake3 bytes = artifact.blake3 then .ok bytes
    else mismatch
  | _ => mismatch

/-- The loop over the outputs. -/
def readOutputPayloads (journal : Journal) (task : JournalCommittedTask) (taskId : String) :
    Nat → List ArtifactRef → Except JournalFailure (List FramePayload)
  | _, [] => .ok []
  | index, ref :: refs => do
    let artifact ← findArtifact task (journalOutputArtifactId taskId index)
    if artifact.blake3 ≠ ref.blake3 ∨ artifact.byteLength ≠ ref.bytes then
      .error (invalidValue ("journal artifact `" ++ artifact.artifactId ++
        "` is not the output its record names"))
    else
      let payload ← readVerified codec journal artifact
      let payloads ← readOutputPayloads journal task taskId (index + 1) refs
      return payload :: payloads

def readCommittedResult (journal : Journal) (task : JournalCommittedTask) (spec : TaskSpec) :
    Except JournalFailure CommittedResult := do
  let recordArtifact ← findArtifact task (journalResultArtifactId spec.taskId)
  let recordBytes ← readVerified codec journal recordArtifact
  let record ← ofExec (decodeCommittedResultRecord codec recordBytes)
  if record.result.taskId ≠ spec.taskId ∨ record.result.status ≠ .succeeded ∨
      record.result.outputDigest ≠ task.outputBlake3 ∨
      task.artifacts.length ≠ record.result.outputs.length + 1 then
    .error (invalidValue ("journal record of committed task `" ++ spec.taskId ++
      "` does not match its task row and artifacts"))
  else
    let payloads ← readOutputPayloads codec journal task spec.taskId 0 record.result.outputs
    return { result := record.result, payloads, executorId := record.executorId }

/-- The result of one task of the graph, where it is committed. -/
def loadCommittedResult (journal : Journal) (spec : TaskSpec) :
    Except JournalFailure (Option CommittedResult) := do
  match ← committedTask journal.rows spec.taskId with
  | none => return none
  | some task => return some (← readCommittedResult codec journal task spec)

def loadCommittedResults (journal : Journal) (graph : TaskGraph) :
    Except JournalFailure (List CommittedResult) := do
  let results ← graph.nodes.mapM fun node => loadCommittedResult codec journal node.spec
  return results.reduceOption

/-! ## The scheduler's resume -/

def requireSession (journal : Journal) (spec : TaskSpec) : Except JournalFailure Unit :=
  if spec.buildSessionId ≠ journal.buildSessionId then
    .error (invalidValue ("task `" ++ spec.taskId ++ "` belongs to build session `" ++
      spec.buildSessionId ++ "`, the journal to `" ++ journal.buildSessionId ++ "`"))
  else .ok ()

def taskRow (spec : TaskSpec) : JournalTaskRecord :=
  { taskId := spec.taskId, taskType := spec.taskType, cacheKey := some spec.cacheKey,
    dependsOn := spec.dependsOn }

def graphMismatch {α : Type} (taskId what : String) : Except JournalFailure α :=
  .error (invalidValue ("the recovery journal does not describe this task graph: task `" ++ taskId ++
    "` " ++ what ++ "; start a new build instead of resuming"))

/-- Nothing else than the committed work may be reused. -/
def requireSameTask (journaled : ResumedTask) (spec : TaskSpec) : Except JournalFailure Unit :=
  if journaled.taskType ≠ spec.taskType then graphMismatch spec.taskId "has another task type"
  else if journaled.dependsOn ≠ spec.dependsOn then
    graphMismatch spec.taskId "has other dependencies"
  else if journaled.cacheKey ≠ some spec.cacheKey then
    graphMismatch spec.taskId "has another cache key"
  else .ok ()

def requirePlanned (graph : TaskGraph) (journaled : ResumedTask) : Except JournalFailure Unit :=
  match graph.nodes.find? fun node => node.spec.taskId = journaled.taskId with
  | none => graphMismatch journaled.taskId "is journaled but not planned"
  | some node => requireSameTask journaled node.spec

def recordTaskGraph (graph : TaskGraph) : JournalM Unit := do
  let journal ← look
  check (graph.nodes.forM fun node => requireSession journal node.spec)
  graph.nodes.forM fun node => transaction fun rows => rows.recordTask (taskRow node.spec)

structure SchedulerResumeState where
  report : ResumeReport
  committed : List CommittedResult

def resumeSchedulerState (graph : TaskGraph) (currentSources : List SourceFingerprintRecord) :
    JournalM SchedulerResumeState := do
  let journal ← look
  check (graph.nodes.forM fun node => requireSession journal node.spec)
  let report ← resume codec currentSources
  check (report.tasks.forM (requirePlanned graph))
  let missing := graph.nodes.filter fun node =>
    !report.tasks.any fun journaled => journaled.taskId = node.spec.taskId
  missing.forM fun node => transaction fun rows => rows.recordTask (taskRow node.spec)
  let journal ← look
  let committed ← check (loadCommittedResults codec journal graph)
  return { report, committed }

end Codec

/-! ## The sink's calls -/

variable {codec : Codec} {allowed : TaskCommit → Prop} {contents : Set Bytes} {s t : Journal}

/-- One journal call, as a step of the journal's runs. -/
theorem call_leads {start : Journal} (before : (journalSystem codec allowed).Leads start s)
    (call : JournalCall) (within : call.Within allowed) :
    Meets (call.run codec) s ((journalSystem codec allowed).Leads start) fun r t =>
      r = (call.run codec s).result ∧ t = (call.run codec s).state ∧
        (journalSystem codec allowed).Leads start t := by
  refine ⟨fun t mem => before.tail ?_, rfl, rfl, before.tail (.call s call within)⟩
  exact .crash s t call within (.inr (.inl mem)) t.pending

/-- How many edges the state is from `result_received`. -/
def edgesToResult : TaskState → Nat
  | .planned => 3
  | .failedRetryable => 3
  | .ready => 2
  | .leased => 2
  | .running => 1
  | .resultReceived => 0
  | .committed => 0
  | .failedPermanent => 0

theorem edgesToResult_next {state next : TaskState} (edge : nextTowardResult state = some next) :
    edgesToResult state = edgesToResult next + 1 := by
  cases state <;> cases edge <;> rfl

theorem requireTaskState_setTaskState {rows rows' : JournalRows} {taskId now : String}
    {next : TaskState} (ok : rows.setTaskState taskId next now = .ok rows') :
    rows'.requireTaskState taskId = .ok next := by
  obtain ⟨current, state, ok⟩ := bind_eq_ok.mp ok
  obtain ⟨row, found, -⟩ := requireTaskState_eq_ok.mp state
  split at ok
  · cases ok
  · cases ok
    have written : (updateRow rows.task taskId fun row =>
        { row with
          status := taskStateName next
          startedUtc := if next = .running then some now else row.startedUtc }).find? taskId =
        some { row with
          status := taskStateName next
          startedUtc := if next = .running then some now else row.startedUtc } := by
      rw [find?_updateRow, if_pos rfl, found]
      rfl
    exact requireTaskState_eq_ok.mpr ⟨_, written, rfl⟩

theorem rows_of_transaction {change : JournalRows → Except JournalFailure JournalRows}
    (ok : (transaction change s).result = .ok ()) :
    change s.rows = .ok (transaction change s).state.rows := by
  have done : Meets (transaction change) s (fun _ => True) fun r t =>
      r = .ok () → change s.rows = .ok t.rows :=
    transaction_meets (fun rows changed => ⟨trivial, fun _ => changed⟩) fun e _ failed => by
      cases failed
  exact done.atTheEnd ok

theorem advanceFrom_meets {start : Journal} {taskId now : String} {rounds : Nat} {state : TaskState}
    (before : (journalSystem codec allowed).Leads start s) (enough : edgesToResult state < rounds)
    (current : s.rows.requireTaskState taskId = .ok state) :
    Meets (advanceFrom taskId now rounds state) s ((journalSystem codec allowed).Leads start) fun
      | .ok _ => fun t => (journalSystem codec allowed).Leads start t ∧
          t.rows.requireTaskState taskId = .ok .resultReceived
      | .error _ => (journalSystem codec allowed).Leads start := by
  induction rounds generalizing s state with
  | zero => exact absurd enough (Nat.not_lt_zero _)
  | succ rounds ih =>
    unfold advanceFrom
    split
    · next arrived => exact .ret ⟨before, arrived ▸ current⟩
    · split
      · exact .fail before
      · next next edge =>
        rw [edgesToResult_next edge] at enough
        have call : Meets (transaction fun rows => rows.setTaskState taskId next now) s _ _ :=
          call_leads before (.setTaskState taskId next now) trivial
        refine .andThen call (fun _ u post => ?_) fun e u post => post.2.2
        obtain ⟨ok, rfl, after⟩ := post
        exact ih after (Nat.lt_of_succ_lt_succ enough)
          (requireTaskState_setTaskState (rows_of_transaction ok.symm))

theorem edgesToResult_lt (state : TaskState) : edgesToResult state < 4 := by
  cases state <;> decide

theorem advanceToResultReceived_meets {start : Journal} {taskId now : String}
    (before : (journalSystem codec allowed).Leads start s) :
    Meets (advanceToResultReceived taskId now) s ((journalSystem codec allowed).Leads start) fun
      | .ok _ => fun t => (journalSystem codec allowed).Leads start t ∧
          t.rows.requireTaskState taskId = .ok .resultReceived
      | .error _ => (journalSystem codec allowed).Leads start := by
  unfold advanceToResultReceived
  refine .lookThen (.checkThen (fun state read => ?_) fun _ _ => before)
  cases state with
  | none => exact .fail before
  | some state =>
    have current : s.rows.requireTaskState taskId = .ok state := by
      rw [JournalRows.requireTaskState, read]
      rfl
    exact advanceFrom_meets before (edgesToResult_lt state) current

/-- Wherever it is cut off, the sink has made some calls on the journal; where it returns, the
commit is one of them. -/
theorem commitToSink_meets {spec : TaskSpec} {committed : CommittedResult}
    {names : Nat → String} {startedUtc completedUtc : String}
    (allows : ∀ commit, sinkCommit codec spec committed = .ok commit → allowed commit) :
    Meets (commitToSink codec names startedUtc completedUtc spec committed) s
      ((journalSystem codec allowed).Leads s) fun
      | .ok _ => fun t => ∃ commit u, sinkCommit codec spec committed = .ok commit ∧
          (journalSystem codec allowed).Leads s u ∧
          (commitTask codec names completedUtc commit u).result = .ok () ∧
          (journalSystem codec allowed).Leads (commitTask codec names completedUtc commit u).state t
      | .error _ => (journalSystem codec allowed).Leads s := by
  unfold commitToSink
  refine .lookThen (.checkThen (fun _ _ => ?_) fun _ _ => .refl)
  refine .andThen (advanceToResultReceived_meets .refl) (fun _ u post => ?_) fun e u post => post
  refine .checkThen (fun commit made => ?_) fun _ _ => post.1
  rw [ofExec_eq_ok] at made
  have call : Meets (commitTask codec names completedUtc commit) u _ _ :=
    call_leads post.1 (.commitTask names completedUtc commit) (allows commit made)
  refine .andThen call (fun _ v done => ?_) fun e v done => done.2.2
  obtain ⟨ok, rfl, after⟩ := done
  have last : Meets (transaction fun rows => rows.recordTaskAttempt (attemptRow committed.result))
      (commitTask codec names completedUtc commit u).state
      ((journalSystem codec allowed).Leads (commitTask codec names completedUtc commit u).state) _ :=
    call_leads .refl (.recordTaskAttempt (attemptRow committed.result)) trivial
  refine last.mono (fun w run => after.trans run) fun r w done => ?_
  cases r with
  | ok _ => exact ⟨commit, u, made, post.1, ok.symm, done.2.2⟩
  | error e => exact after.trans done.2.2

/-- Whatever its result, the sink is a run of journal calls. -/
theorem commitToSink_leads {spec : TaskSpec} {committed : CommittedResult}
    (names : Nat → String) (startedUtc completedUtc : String)
    (allows : ∀ commit, sinkCommit codec spec committed = .ok commit → allowed commit) :
    (journalSystem codec allowed).Leads s
      (commitToSink codec names startedUtc completedUtc spec committed s).state := by
  have meets : Meets (commitToSink codec names startedUtc completedUtc spec committed) s _ _ :=
    commitToSink_meets allows
  have ended := meets.atTheEnd
  generalize commitToSink codec names startedUtc completedUtc spec committed s = sink at ended ⊢
  cases result : sink.result with
  | error e =>
    rw [result] at ended
    exact ended
  | ok _ =>
    rw [result] at ended
    obtain ⟨commit, u, made, before, -, after⟩ := ended
    exact (before.tail (.call u (.commitTask names completedUtc commit) (allows commit made))).trans
      after

/-! ## What a commit left is read back -/

/-- The artifact as a reader finds it. -/
def JournalArtifactInput.record (artifact : JournalArtifactInput) : JournalArtifactRecord :=
  { artifactId := artifact.artifactId, blake3 := artifact.blake3,
    byteLength := artifact.content.length, path := blake3Hex artifact.blake3 }

theorem artifactRecord_row (artifact : JournalArtifactInput) (taskId : String) :
    artifactRecord taskId (artifact.artifactId, artifact.row taskId) = .ok artifact.record := by
  have parsed : parseBlake3Hex (artifact.row taskId).blake3 = some artifact.blake3 :=
    parseBlake3Hex_blake3Hex artifact.blake3
  have valid : ¬ ((artifact.row taskId).byteLength < 0 ∨ (artifact.row taskId).relativePath ≠
      journalCompletedRelativePath (artifact.row taskId).blake3) := by
    simp [JournalArtifactInput.row]
  unfold artifactRecord
  simp only [parsed, if_neg valid]
  rfl

/-- A committed task is read with the artifacts of its commit. -/
theorem committedTask_of_rowsOf {commit : TaskCommit} {row : TaskRow}
    (committed : s.rows.Committed commit.taskId row) (rowsOf : RowsOf codec s.rows row commit)
    (distinct : (commit.artifacts.map JournalArtifactInput.artifactId).Nodup) :
    ∃ task, committedTask s.rows commit.taskId = .ok (some task) ∧
      task.outputBlake3 = commit.outputBlake3 ∧
      task.artifacts.length = commit.artifacts.length ∧
      ∀ artifact ∈ commit.artifacts, findArtifact task artifact.artifactId = .ok artifact.record := by
  have state : s.rows.requireTaskState commit.taskId = .ok .committed :=
    requireTaskState_eq_ok.mpr ⟨row, committed.1, committed.2⟩
  have output : readOutputBlake3 s.rows commit.taskId = .ok commit.outputBlake3 := by
    unfold readOutputBlake3
    rw [committed.1, Option.bind_some, rowsOf.output, Option.bind_some, parseBlake3Hex_blake3Hex]
  generalize inRows : (s.rows.artifact.entries.filter fun artifact =>
    artifact.2.taskId = commit.taskId) = entries
  have entry : ∀ e, e ∈ entries ↔ ∃ artifact ∈ commit.artifacts,
      e = (artifact.artifactId, artifact.row commit.taskId) := by
    intro e
    rw [← inRows, List.mem_filter, decide_eq_true_iff, ← OrderedMap.find?_eq_some, rowsOf.artifacts]
    exact exists_congr fun artifact => and_congr_right fun _ =>
      ⟨fun same => Prod.ext same.1.symm same.2, fun same => ⟨same ▸ rfl, same ▸ rfl⟩⟩
  obtain ⟨records, read, pairs⟩ := mapM_exists (f := artifactRecord commit.taskId) (l := entries)
    fun e mem => by
      obtain ⟨artifact, -, rfl⟩ := (entry e).mp mem
      exact ⟨_, artifactRecord_row artifact commit.taskId⟩
  refine ⟨⟨commit.taskId, commit.outputBlake3, records⟩, ?_, rfl, ?_, fun artifact mem => ?_⟩
  · simp only [committedTask, state, output, inRows, read, bind, Except.bind, pure, Except.pure,
      ne_eq, not_true_eq_false, if_false]
  · have keys : (entries.map Prod.fst).Nodup :=
      inRows ▸ s.rows.artifact.keys_nodup.sublist (List.filter_sublist.map Prod.fst)
    have same : (entries.map Prod.fst).Perm (commit.artifacts.map JournalArtifactInput.artifactId) := by
      refine (List.perm_ext_iff_of_nodup keys distinct).mpr fun id => ?_
      simp only [List.mem_map, entry]
      constructor
      · rintro ⟨e, ⟨artifact, mem, rfl⟩, rfl⟩
        exact ⟨artifact, mem, rfl⟩
      · rintro ⟨artifact, mem, rfl⟩
        exact ⟨_, ⟨artifact, mem, rfl⟩, rfl⟩
    have lengths := same.length_eq
    rw [List.length_map, List.length_map, pairs.length_eq] at lengths
    exact lengths
  · -- an id is that of one row only
    have listed : artifact.record ∈ records := (mem_of_forall₂ pairs).mpr
      ⟨_, (entry _).mpr ⟨artifact, mem, rfl⟩, artifactRecord_row artifact commit.taskId⟩
    unfold findArtifact
    cases found : records.find? fun record => record.artifactId = artifact.artifactId with
    | none => exact absurd (List.find?_eq_none.mp found _ listed) (by simp [JournalArtifactInput.record])
    | some record =>
      have named : record.artifactId = artifact.artifactId := by simpa using List.find?_some found
      obtain ⟨e, inEntries, made⟩ := (mem_of_forall₂ pairs).mp (List.mem_of_find?_eq_some found)
      obtain ⟨other, otherMem, rfl⟩ := (entry e).mp inEntries
      rw [artifactRecord_row] at made
      cases made
      have sameId : other.artifactId = artifact.artifactId := named
      have one : other = artifact :=
        (List.inj_on_of_nodup_map distinct) otherMem mem sameId
      rw [one]

theorem readVerified_of_stored {artifact : JournalArtifactInput}
    (hashed : codec.blake3 artifact.content = artifact.blake3)
    (stored : s.completed.find? (blake3Hex artifact.blake3) = some (.regular artifact.content)) :
    readVerified codec s artifact.record = .ok artifact.content := by
  have file : s.completed.find? artifact.record.path = some (.regular artifact.content) := stored
  unfold readVerified
  rw [file]
  exact if_pos ⟨rfl, hashed⟩

theorem journalOutputArtifactId_injective (taskId : String) :
    Function.Injective (journalOutputArtifactId taskId) := by
  intro a b same
  have tail : toString a = toString b := (String.append_right_inj (taskId ++ ".output.")).mp same
  exact Nat.repr_inj.mp tail

theorem journalOutputArtifactId_ne (taskId : String) (index : Nat) :
    journalOutputArtifactId taskId index ≠ journalResultArtifactId taskId := by
  intro same
  unfold journalOutputArtifactId journalResultArtifactId at same
  rw [String.append_assoc, String.append_right_inj] at same
  have tail := congrArg String.toList same
  rw [String.toList_append] at tail
  have second := congrArg (fun chars : List Char => chars[1]?) tail
  simp at second

/-- The ids of the outputs are those from the first index on. -/
theorem artifactId_outputArtifacts {taskId : String} {provenance : ArtifactProvenanceRecord}
    {index : Nat} {refs : List ArtifactRef} {payloads : List FramePayload} {id : String}
    (mem : id ∈ (outputArtifacts taskId provenance index refs payloads).map
      JournalArtifactInput.artifactId) :
    ∃ i, index ≤ i ∧ id = journalOutputArtifactId taskId i := by
  induction refs generalizing index payloads with
  | nil => simp [outputArtifacts] at mem
  | cons ref refs ih =>
    cases payloads with
    | nil => simp [outputArtifacts] at mem
    | cons payload payloads =>
      rcases List.mem_cons.mp mem with rfl | mem
      · exact ⟨index, le_refl _, rfl⟩
      · obtain ⟨i, above, named⟩ := ih mem
        exact ⟨i, Nat.le_of_succ_le above, named⟩

theorem nodup_outputArtifacts (taskId : String) (provenance : ArtifactProvenanceRecord)
    (index : Nat) (refs : List ArtifactRef) (payloads : List FramePayload) :
    ((outputArtifacts taskId provenance index refs payloads).map
      JournalArtifactInput.artifactId).Nodup := by
  induction refs generalizing index payloads with
  | nil => exact List.nodup_nil
  | cons ref refs ih =>
    cases payloads with
    | nil => exact List.nodup_nil
    | cons payload payloads =>
      refine List.nodup_cons.mpr ⟨fun again => ?_, ih _ _⟩
      obtain ⟨i, above, named⟩ := artifactId_outputArtifacts again
      have same := journalOutputArtifactId_injective taskId named
      omega

theorem length_outputArtifacts (taskId : String) (provenance : ArtifactProvenanceRecord)
    (index : Nat) {refs : List ArtifactRef} {payloads : List FramePayload}
    (count : payloads.length = refs.length) :
    (outputArtifacts taskId provenance index refs payloads).length = refs.length := by
  induction refs generalizing index payloads with
  | nil => rfl
  | cons ref refs ih =>
    cases payloads with
    | nil => cases count
    | cons payload payloads =>
      exact congrArg (· + 1) (ih (index + 1) (Nat.succ.inj count))

/-- The loop reads the payloads back in order. -/
theorem readOutputPayloads_of_found {task : JournalCommittedTask} {taskId : String}
    {provenance : ArtifactProvenanceRecord} {index : Nat} {refs : List ArtifactRef}
    {payloads : List FramePayload}
    (sizes : List.Forall₂ (fun ref payload => payload.length = ref.bytes ∧
      codec.blake3 payload = ref.blake3) refs payloads)
    (found : ∀ artifact ∈ outputArtifacts taskId provenance index refs payloads,
      findArtifact task artifact.artifactId = .ok artifact.record ∧
        readVerified codec s artifact.record = .ok artifact.content) :
    readOutputPayloads codec s task taskId index refs = .ok payloads := by
  induction sizes generalizing index with
  | nil => rfl
  | @cons ref payload refs payloads size rest ih =>
    obtain ⟨⟨first, verified⟩, others⟩ := List.forall_mem_cons.mp found
    have same : ¬ (ref.blake3 ≠ ref.blake3 ∨ payload.length ≠ ref.bytes) := by
      simp [size.1]
    dsimp only at first verified
    simp only [readOutputPayloads, first, JournalArtifactInput.record, bind, Except.bind, if_neg same]
    simp only [JournalArtifactInput.record] at verified
    rw [verified, ih others]
    rfl

/-! ## Results that were handed over -/

/-- What the scheduler hands to the sink: a verified success. -/
structure Deliverable (codec : Codec) (spec : TaskSpec) (committed : CommittedResult) : Prop where
  verified : ∃ attempt,
    findResultDefect codec spec attempt committed.result committed.payloads = none
  succeeded : committed.result.status = .succeeded
  readsBack : ReadsBack codec committed

/-- As long as its blobs are intact a committed result is read back exactly. -/
theorem loadCommittedResult_of_rowsOf {spec spec' : TaskSpec} {committed : CommittedResult}
    (deliverable : Deliverable codec spec committed) (sameTask : spec'.taskId = spec.taskId)
    {commit : TaskCommit} (made : sinkCommit codec spec committed = .ok commit) {row : TaskRow}
    (isCommitted : s.rows.Committed commit.taskId row) (rowsOf : RowsOf codec s.rows row commit)
    (stored : AreStored codec s.completed commit.artifacts) :
    loadCommittedResult codec s spec' = .ok (some committed) := by
  obtain ⟨attempt, verified⟩ := deliverable.verified
  obtain ⟨-, taskId, -, count, payloads⟩ := (findResultDefect_eq_none codec).mp verified
  have sizes := (findPayloadDefect_eq_none codec count).mp payloads
  obtain ⟨record, encoded, made⟩ := bind_eq_ok.mp made
  cases made
  have distinct : ((outputArtifacts spec.taskId (provenanceOf spec) 0 committed.result.outputs
      committed.payloads ++ [resultArtifact codec spec record]).map
      JournalArtifactInput.artifactId).Nodup := by
    rw [List.map_append, List.nodup_append]
    refine ⟨nodup_outputArtifacts _ _ _ _ _, List.nodup_singleton _, fun id output other last same => ?_⟩
    obtain ⟨i, -, rfl⟩ := artifactId_outputArtifacts output
    exact journalOutputArtifactId_ne spec.taskId i (same.trans (List.mem_singleton.mp last))
  obtain ⟨task, read, output, length, found⟩ := committedTask_of_rowsOf isCommitted rowsOf distinct
  dsimp only at read output length found stored
  have available : ∀ artifact ∈ outputArtifacts spec.taskId (provenanceOf spec) 0
      committed.result.outputs committed.payloads ++ [resultArtifact codec spec record],
      findArtifact task artifact.artifactId = .ok artifact.record ∧
        readVerified codec s artifact.record = .ok artifact.content := fun artifact mem =>
    ⟨found artifact mem, readVerified_of_stored (stored artifact mem).1 (stored artifact mem).2⟩
  obtain ⟨outputs, last⟩ := List.forall_mem_append.mp available
  obtain ⟨recordFound, recordRead⟩ := last _ (List.mem_singleton_self _)
  have decoded := decodeCommittedResultRecord_encode codec deliverable.readsBack encoded
  have matching : ¬ (committed.result.taskId ≠ spec.taskId ∨ committed.result.status ≠ .succeeded ∨
      committed.result.outputDigest ≠ task.outputBlake3 ∨
      task.artifacts.length ≠ committed.result.outputs.length + 1) := by
    rw [List.length_append, length_outputArtifacts _ _ _ count] at length
    simp [taskId, deliverable.succeeded, output, length]
  have payloadsRead := readOutputPayloads_of_found sizes outputs
  have whole : readCommittedResult codec s task spec' = .ok committed := by
    change findArtifact task (journalResultArtifactId spec.taskId) = _ at recordFound
    change readVerified codec s _ = .ok record at recordRead
    unfold readCommittedResult
    rw [sameTask]
    simp only [recordFound, recordRead, decoded, ofExec, if_neg matching, payloadsRead, bind,
      Except.bind, pure, Except.pure]
  unfold loadCommittedResult
  rw [sameTask, read]
  simp only [whole, bind, Except.bind, pure, Except.pure]

/-- The commits the sink makes of the results handed to it. -/
def SinkCommits (codec : Codec) (handed : TaskSpec → CommittedResult → Prop) (commit : TaskCommit) :
    Prop :=
  ∃ spec committed, handed spec committed ∧ sinkCommit codec spec committed = .ok commit

section Handed

variable {handed : TaskSpec → CommittedResult → Prop}

/-- A result of the task that was handed over. -/
def IsHanded (handed : TaskSpec → CommittedResult → Prop) (node : TaskNode)
    (committed : CommittedResult) : Prop :=
  ∃ spec, handed spec committed ∧ spec.taskId = node.spec.taskId

/-- Where every blob is intact, every task of the graph that is committed loads a result that
was handed over, and the others load none. -/
theorem loadCommittedResults_of_intact (apart : Set.InjOn codec.blake3 contents)
    (known : ∀ commit, SinkCommits codec handed commit →
      ∀ artifact ∈ commit.artifacts, artifact.content ∈ contents)
    (deliverable : ∀ spec committed, handed spec committed → Deliverable codec spec committed)
    (sound : Sound codec (SinkCommits codec handed) contents s) (intact : AllIntact codec s)
    {graph : TaskGraph} (recorded : ∀ node ∈ graph.nodes, s.rows.task.contains node.spec.taskId) :
    ∃ results, loadCommittedResults codec s graph = .ok results ∧
      List.Forall₂ (IsHanded handed)
        (graph.nodes.filter fun node => s.rows.isCommitted node.spec.taskId) results := by
  have one : ∀ node ∈ graph.nodes,
      (s.rows.isCommitted node.spec.taskId = true ∧ ∃ committed, IsHanded handed node committed ∧
        loadCommittedResult codec s node.spec = .ok (some committed)) ∨
      (s.rows.isCommitted node.spec.taskId = false ∧
        loadCommittedResult codec s node.spec = .ok none) := by
    intro node mem
    cases isCommitted : s.rows.isCommitted node.spec.taskId with
    | true =>
      obtain ⟨row, committed⟩ := JournalRows.isCommitted_iff.mp isCommitted
      obtain ⟨commit, allows, task, rowsOf⟩ := sound.recorded.committed _ row committed
      have stored := areStored_of_intact apart known sound intact allows rowsOf
      obtain ⟨spec, result, given, made⟩ := allows
      have own : commit.taskId = spec.taskId := by
        obtain ⟨_, -, same⟩ := bind_eq_ok.mp made
        cases same
        rfl
      exact .inl ⟨rfl, result, ⟨spec, given, own.symm.trans task⟩,
        loadCommittedResult_of_rowsOf (deliverable spec result given) (task.symm.trans own) made
          (task ▸ committed) rowsOf stored⟩
    | false =>
      obtain ⟨row, found⟩ := Option.isSome_iff_exists.mp (recorded node mem)
      obtain ⟨state, status⟩ := (sound.recorded.wellFormed _ row found).1
      have current := requireTaskState_eq_ok.mpr ⟨row, found, status⟩
      have open_ : state ≠ .committed := by
        rintro rfl
        exact Bool.false_ne_true (isCommitted.symm.trans
          (JournalRows.isCommitted_iff.mpr ⟨row, found, status⟩))
      refine .inr ⟨rfl, ?_⟩
      simp only [loadCommittedResult, committedTask, current, bind, Except.bind, ne_eq, open_,
        not_false_eq_true, if_true, pure, Except.pure]
  unfold loadCommittedResults
  clear recorded
  generalize graph.nodes = nodes at one ⊢
  induction nodes with
  | nil => exact ⟨[], rfl, .nil⟩
  | cons node rest ih =>
    obtain ⟨first, others⟩ := List.forall_mem_cons.mp one
    obtain ⟨results, loaded, pairs⟩ := ih others
    obtain ⟨read, ran, same⟩ := bind_eq_ok.mp loaded
    cases same
    rcases first with ⟨isCommitted, committed, isHanded, firstRead⟩ | ⟨isCommitted, firstRead⟩
    · refine ⟨committed :: read.reduceOption, bind_eq_ok.mpr ⟨some committed :: read,
        mapM_cons_eq_ok.mpr ⟨_, _, firstRead, ran, rfl⟩, rfl⟩, ?_⟩
      simp only [List.filter_cons, isCommitted, if_true]
      exact .cons isHanded pairs
    · refine ⟨read.reduceOption, bind_eq_ok.mpr ⟨none :: read,
        mapM_cons_eq_ok.mpr ⟨_, _, firstRead, ran, rfl⟩, rfl⟩, ?_⟩
      simp only [List.filter_cons, isCommitted, Bool.false_eq_true, if_false]
      exact pairs

end Handed

/-- What the sink returned for is what a later build loads, however often the process crashed
in between. -/
theorem committed_result_loads (apart : Set.InjOn codec.blake3 contents)
    (known : ∀ commit, allowed commit → ∀ artifact ∈ commit.artifacts, artifact.content ∈ contents)
    (reached : (journalSystem codec allowed).Reachable s) {spec : TaskSpec}
    {committed : CommittedResult} (deliverable : Deliverable codec spec committed)
    (allows : ∀ commit, sinkCommit codec spec committed = .ok commit → allowed commit)
    {names : Nat → String} {startedUtc completedUtc : String}
    (returned : (commitToSink codec names startedUtc completedUtc spec committed s).result = .ok ())
    (run : (journalSystem codec allowed).Leads
      (commitToSink codec names startedUtc completedUtc spec committed s).state t) :
    loadCommittedResult codec t spec = .ok (some committed) := by
  have meets : Meets (commitToSink codec names startedUtc completedUtc spec committed) s _ _ :=
    commitToSink_meets allows
  have ended := meets.atTheEnd
  rw [returned] at ended
  obtain ⟨commit, u, made, before, ok, after⟩ := ended
  obtain ⟨sound, intact⟩ := reachable_intact apart known (reached.run before)
  have done := (commitTask_meets apart sound.filled names completedUtc
    (known commit (allows commit made))).atTheEnd
  rw [ok] at done
  obtain ⟨keeps, row, isCommitted, rowsOf⟩ := done.keeps sound (allows commit made)
  have later := leads_keeps apart known (after.trans run) keeps.sound
  obtain ⟨intactLater, lasts⟩ := later.intact (keeps.intact intact).1
  have rowsOfLater := lasts.rowsOf commit row isCommitted rowsOf
  exact loadCommittedResult_of_rowsOf deliverable rfl made (lasts.committed _ row isCommitted)
    rowsOfLater (areStored_of_intact apart known later.sound intactLater (allows commit made)
      rowsOfLater)

/-- Whatever happened to the files before, after a resume every later build loads what is
committed, each result as it was handed over, and no task with intact blobs is lost. -/
theorem load_after_resume {handed : TaskSpec → CommittedResult → Prop}
    (apart : Set.InjOn codec.blake3 contents)
    (known : ∀ commit, SinkCommits codec handed commit →
      ∀ artifact ∈ commit.artifacts, artifact.content ∈ contents)
    (deliverable : ∀ spec committed, handed spec committed → Deliverable codec spec committed)
    (reached : (damagedSystem codec (SinkCommits codec handed) contents).Reachable s)
    {sources : List SourceFingerprintRecord} {report : ResumeReport}
    (returned : (resume codec sources s).result = .ok report)
    (run : (journalSystem codec (SinkCommits codec handed)).Leads (resume codec sources s).state t)
    {graph : TaskGraph} (recorded : ∀ node ∈ graph.nodes, t.rows.task.contains node.spec.taskId) :
    (∃ results, loadCommittedResults codec t graph = .ok results ∧
      List.Forall₂ (IsHanded handed)
        (graph.nodes.filter fun node => t.rows.isCommitted node.spec.taskId) results) ∧
    ∀ id row, s.rows.Committed id row → ¬ Failing codec s.completed s.rows id →
      t.rows.Committed id row := by
  have sound := reachable_sound apart known reached
  have done := done_of_returned returned
  have resumed := keeps_of_resumeCut apart known sound (resumeCut_of_done done)
  have resumes := done.resumes apart known sound
  have intact : AllIntact codec (resume codec sources s).state := by
    obtain ⟨-, rows, abandoned, -, ended⟩ := done
    rw [ended] at resumes ⊢
    exact fun a r found => resumes.intact (swept_referencedOnly rows s.completed) found
  have later := leads_keeps apart known run resumed.sound
  obtain ⟨intactLater, lasts⟩ := later.intact intact
  refine ⟨loadCommittedResults_of_intact apart known deliverable later.sound intactLater recorded,
    fun id row committed fine => ?_⟩
  exact lasts.committed id row ((resumes.committed id row).mpr ⟨committed, fine⟩)

/-! ## One result -/

/-- The verified success of the one task. -/
def soloResult : CommittedResult where
  result :=
    { taskId := "task", attempt := 1, outputs := [emptyOutput], outputDigest := emptyOutputDigest
      execution := { workerSessionId := "w" } }
  payloads := [[]]
  executorId := "local"

def soloRecord : Json :=
  committedResultRecordJson (taskResultJson soloResult.result) soloResult.executorId

def textLibrary : JsonLibrary where
  floatText _ := []
  floatText_plain := noFloatText_plain
  parse _ := .error "parse error"

/-- The JSON library on the text of one record. -/
def recordLibrary (record : Json) : JsonLibrary where
  floatText _ := []
  floatText_plain := noFloatText_plain
  parse text :=
    if text = dump textLibrary record then .ok record else .error "parse error"

theorem recordLibrary_parsesBack (record : Json) :
    (recordLibrary record).parse (dump (recordLibrary record) record) = .ok record := by
  have floats : (recordLibrary record).floatText = textLibrary.floatText := rfl
  rw [dump_congr floats]
  exact if_pos rfl

def recordCodec : Codec where
  blake3 := sampleCodec.blake3
  json := recordLibrary soloRecord

theorem soloResult_deliverable : Deliverable recordCodec soloSpec soloResult where
  verified := ⟨1, by decide⟩
  succeeded := rfl
  readsBack := recordLibrary_parsesBack soloRecord

def IsSolo (spec : TaskSpec) (committed : CommittedResult) : Prop :=
  spec = soloSpec ∧ committed = soloResult

def soloContents : Set Bytes := {[], dump textLibrary soloRecord}

theorem solo_apart : Set.InjOn recordCodec.blake3 soloContents := by
  have text : dump textLibrary soloRecord ≠ utf8 "[\"svp-task-output-digest-v1\",[]]" := by
    intro same
    have first := congrArg List.head? same
    cases first
  have some_ : dump textLibrary soloRecord ≠ [] := List.cons_ne_nil _ _
  refine Set.injOn_pair.mpr fun same => absurd same ?_
  show emptyBytesDigest ≠ if dump textLibrary soloRecord = [] then emptyBytesDigest else
    if dump textLibrary soloRecord = utf8 "[\"svp-task-output-digest-v1\",[]]" then
      emptyOutputsDigest
    else emptyOutputDigest
  rw [if_neg some_, if_neg text]
  decide

theorem solo_known : ∀ commit, SinkCommits recordCodec IsSolo commit →
    ∀ artifact ∈ commit.artifacts, artifact.content ∈ soloContents := by
  rintro commit ⟨spec, committed, ⟨rfl, rfl⟩, made⟩ artifact mem
  have text : encodeCommittedResultRecord recordCodec soloResult.result soloResult.executorId =
      .ok (dump textLibrary soloRecord) := by rfl
  obtain ⟨record, encoded, made⟩ := bind_eq_ok.mp made
  cases made
  rw [text] at encoded
  cases encoded
  rcases List.mem_cons.mp mem with rfl | mem
  · exact .inl rfl
  · rw [List.mem_singleton.mp mem]
    exact .inr rfl

/-- The journal of a build with this task. -/
def soloJournal : Journal :=
  ((JournalCall.recordTask (taskRow soloSpec)).run recordCodec sampleJournal).state

theorem soloJournal_reachable :
    (journalSystem recordCodec (SinkCommits recordCodec IsSolo)).Reachable soloJournal :=
  .next (.start ⟨sampleSession, [], rfl⟩) (.call sampleJournal (.recordTask (taskRow soloSpec)) trivial)

/-- After the sink returned. -/
def soloCommitted : Journal :=
  (commitToSink recordCodec toString "t0" "t1" soloSpec soloResult soloJournal).state

set_option maxRecDepth 10000 in
theorem solo_returns :
    (commitToSink recordCodec toString "t0" "t1" soloSpec soloResult soloJournal).result =
      .ok () := by rfl

theorem solo_loads : loadCommittedResult recordCodec soloCommitted soloSpec =
    .ok (some soloResult) :=
  committed_result_loads solo_apart solo_known soloJournal_reachable soloResult_deliverable
    (fun _ made => ⟨soloSpec, soloResult, ⟨rfl, rfl⟩, made⟩) solo_returns .refl

set_option maxRecDepth 10000 in
theorem solo_sources : verifySources soloCommitted.rows [] = .ok () := by rfl

set_option maxRecDepth 10000 in
theorem solo_recorded :
    (resume recordCodec [] soloCommitted).state.rows.task.contains "task" = true := by rfl

theorem solo_loads_after_resume : ∃ results,
    loadCommittedResults recordCodec (resume recordCodec [] soloCommitted).state soloGraph =
      .ok results ∧
    List.Forall₂ (IsHanded IsSolo) (soloGraph.nodes.filter fun node =>
      (resume recordCodec [] soloCommitted).state.rows.isCommitted node.spec.taskId) results := by
  have reached : (journalSystem recordCodec (SinkCommits recordCodec IsSolo)).Reachable
      soloCommitted := soloJournal_reachable.run (commitToSink_leads toString "t0" "t1"
    fun _ made => ⟨soloSpec, soloResult, ⟨rfl, rfl⟩, made⟩)
  obtain ⟨sound, -⟩ := reachable_intact solo_apart solo_known reached
  obtain ⟨report, returned, -⟩ := resume_returns solo_apart solo_known sound solo_sources
  refine (load_after_resume solo_apart solo_known (fun spec committed isSolo => ?_)
    (damaged_of_reachable reached) returned .refl fun node mem => ?_).1
  · obtain ⟨rfl, rfl⟩ := isSolo
    exact soloResult_deliverable
  · rw [List.mem_singleton.mp mem]
    exact solo_recorded

end Svp.Exec

import Svp.Exec.JournalRows
import Svp.Lib.DurableCalls

/-!
# The recovery journal

The journal directory of one build: its rows, `blobs/pending/` and `blobs/completed/`. A
commit stages every artifact in `pending/`, verifies it, renames it into `completed/` under
its BLAKE3, and only then records the rows in one transaction. `resume` puts the directory
back in order after a crash.

Each method is a `Lib.Durable` call, so that a crash may cut it off between any two of its
writes: a file written, renamed or removed, or a transaction committed. SQLite transactions
and renames are atomic, and reads succeed; what a crash leaves in `pending/` is arbitrary,
partly written files included. `journalSystem` is every run of such calls, and
`damagedSystem` also lets the files of `completed/` change behind the journal's back.
-/

namespace Svp.Exec

open Lib (OrderedMap Durable System)
open Lib.Durable (look write check fail)

/-! ## The directory -/

inductive BlobFile
  | regular (bytes : Bytes)
  | directory
  /-- A symbolic link or another kind of file. -/
  | special
deriving DecidableEq

structure Journal where
  buildSessionId : String
  rows : JournalRows
  pending : OrderedMap String BlobFile := .empty
  completed : OrderedMap String BlobFile := .empty

abbrev JournalM := Durable Journal JournalFailure

def kCompletedRelativeDir : String := "blobs/completed/"

def journalCompletedRelativePath (blake3Hex : String) : String := kCompletedRelativeDir ++ blake3Hex

/-- `initialize_new_journal`: the session and the sources, and no blobs. -/
def createJournal (session : BuildSessionRecord) (sources : List SourceFingerprintRecord) :
    Except JournalFailure Journal := do
  let rows ← ({} : JournalRows).recordBuildSession session
  let rows ← sources.foldlM JournalRows.insertSource rows
  return { buildSessionId := session.id, rows }

/-- A method that is one transaction. -/
def transaction (change : JournalRows → Except JournalFailure JournalRows) : JournalM Unit := do
  let journal ← look
  let rows ← check (change journal.rows)
  write fun journal => { journal with rows }

def failWith {α : Type} (code : JournalErrorCode) (message : String) : JournalM α :=
  fail (.journal ⟨code, message⟩)

section Codec

variable (codec : Codec)

/-! ## Verified blobs -/

inductive BlobCheck
  | valid
  | missing
  | notRegularFile
  | sizeMismatch
  | digestMismatch
deriving DecidableEq

def checkBlob (files : OrderedMap String BlobFile) (name : String) (expected : Blake3Digest)
    (expectedBytes : Nat) : BlobCheck :=
  match files.find? name with
  | none => .missing
  | some (.regular bytes) =>
    if bytes.length ≠ expectedBytes then .sizeMismatch
    else if codec.blake3 bytes = expected then .valid
    else .digestMismatch
  | some _ => .notRegularFile

structure StagedBlob where
  pendingName : String
  digest : Blake3Digest
  bytes : Nat

inductive StageResult
  | staged (blob : StagedBlob)
  | ioError (message : String)
  | digestMismatch

def discardStagedBlob (pendingName : String) : JournalM Unit :=
  write fun journal => { journal with pending := journal.pending.erase pendingName }

/-- Reads the pending file back and compares it with what was written and expected. -/
def verifyStaged (blob : StagedBlob) (expected : Blake3Digest) : JournalM StageResult := do
  let journal ← look
  match journal.pending.find? blob.pendingName with
  | some (.regular onDisk) =>
    if codec.blake3 onDisk ≠ blob.digest ∨ onDisk.length ≠ blob.bytes ∨ expected ≠ blob.digest then
      discardStagedBlob blob.pendingName
      return .digestMismatch
    else return .staged blob
  | _ =>
    discardStagedBlob blob.pendingName
    return .ioError "No such file or directory"

/-- The pending file is created exclusively; on an error it is removed whatever it was. -/
def stageBlobBytes (pendingName : String) (bytes : Bytes) (expected : Blake3Digest) :
    JournalM StageResult := do
  let journal ← look
  if journal.pending.contains pendingName then
    discardStagedBlob pendingName
    return .ioError "File exists"
  else
    write fun journal =>
      { journal with pending := journal.pending.insert pendingName (.regular bytes) }
    verifyStaged codec ⟨pendingName, codec.blake3 bytes, bytes.length⟩ expected

/-- Renames the staged file onto `name`, replacing a file there. -/
def publishStagedBlob (blob : StagedBlob) (name : String) : JournalM (Option String) := do
  let journal ← look
  match journal.pending.find? blob.pendingName, journal.completed.find? name with
  | none, _ => return some "No such file or directory"
  | some _, some .directory => return some "Is a directory"
  | some file, _ =>
    write fun journal =>
      { journal with
        pending := journal.pending.erase blob.pendingName
        completed := journal.completed.insert name file }
    return none

/-! ## Committing a task -/

def discardAll (staged : List StagedBlob) : JournalM Unit :=
  staged.forM fun blob => discardStagedBlob blob.pendingName

/-- The staging loop of `store_task_artifacts`; `names` are the pending names drawn. -/
def stageArtifacts (names : Nat → String) :
    List JournalArtifactInput → List StagedBlob → JournalM (List StagedBlob)
  | [], staged => return staged
  | artifact :: rest, staged => do
    match ← stageBlobBytes codec (names staged.length) artifact.content artifact.blake3 with
    | .staged blob => stageArtifacts names rest (staged ++ [blob])
    | .digestMismatch =>
      discardAll staged
      failWith .artifactMismatch ("artifact " ++ artifact.artifactId ++
        " does not hash to its declared blake3 " ++ blake3Hex artifact.blake3)
    | .ioError message =>
      discardAll staged
      failWith .ioError ("stage artifact " ++ artifact.artifactId ++ ": " ++ message)

/-- Content that another task committed already is shared; otherwise the blob is published,
and where that fails the blobs still staged are discarded. -/
def publishOrShare (blob : StagedBlob) (rest : List StagedBlob) : JournalM Unit := do
  let hex := blake3Hex blob.digest
  let journal ← look
  if checkBlob codec journal.completed hex blob.digest blob.bytes = .valid then
    discardStagedBlob blob.pendingName
  else
    match ← publishStagedBlob blob hex with
    | none => return ()
    | some message =>
      discardAll (blob :: rest)
      failWith .ioError ("commit artifact blob " ++ hex ++ ": " ++ message)

/-- The publishing loop. -/
def publishArtifacts : List StagedBlob → JournalM (List CommittedBlob)
  | [] => return []
  | blob :: rest => do
    publishOrShare codec blob rest
    let committed ← publishArtifacts rest
    return ⟨journalCompletedRelativePath (blake3Hex blob.digest), blob.bytes⟩ :: committed

def storeTaskArtifacts (names : Nat → String) (artifacts : List JournalArtifactInput) :
    JournalM (List CommittedBlob) := do
  let staged ← stageArtifacts codec names artifacts []
  publishArtifacts codec staged

/-- Blobs first: a crash after them leaves blobs no row names, never a row that names
missing bytes. -/
def commitTask (names : Nat → String) (now : String) (commit : TaskCommit) : JournalM Unit := do
  check (validateCommit commit)
  let journal ← look
  let current ← check (journal.rows.requireTaskState commit.taskId)
  if current ≠ .resultReceived then
    failWith .invalidTransition ("task " ++ commit.taskId ++ " is " ++ taskStateName current ++
      "; only result_received tasks can be committed")
  else
    let blobs ← storeTaskArtifacts codec names commit.artifacts
    transaction fun rows => rows.recordCommit codec commit blobs now

/-! ## Resuming -/

/-- What a source is: its path and its time of modification may have changed. -/
def verifySources (rows : JournalRows) (currentSources : List SourceFingerprintRecord) :
    Except JournalFailure Unit := do
  currentSources.forM fun source =>
    match rows.source.find? source.sourceId with
    | none => journalError .sourceMismatch
        ("source " ++ source.sourceId ++ " is not part of the journaled build")
    | some recorded =>
      if (recorded.sizeBytes % 2 ^ 64).toNat ≠ source.sizeBytes ∨
          recorded.blake3 ≠ blake3Hex source.blake3 then
        journalError .sourceMismatch ("source " ++ source.sourceId ++ " (" ++ source.path ++
          ") changed since the journal was written")
      else .ok ()
  rows.source.entries.forM fun recorded =>
    if recorded.1 ∈ currentSources.map (·.sourceId) then .ok ()
    else journalError .sourceMismatch
      ("journaled source " ++ recorded.1 ++ " was not supplied for resume")

inductive DemotionReason
  | artifactMissing
  | artifactNotRegularFile
  | artifactSizeMismatch
  | artifactHashMismatch
  /-- The path or digest column is not that of a completed blob. -/
  | artifactRecordInvalid
  /-- Committed without an output digest. -/
  | outputDigestMissing
deriving DecidableEq

structure DemotedTask where
  taskId : String
  /-- Empty where the output digest is missing. -/
  artifactId : String
  reason : DemotionReason

structure ResumedTask where
  taskId : String
  taskType : String
  state : TaskState
  cacheKey : Option Blake3Digest
  dependsOn : List String

structure ResumeReport where
  tasks : List ResumedTask
  demoted : List DemotedTask
  discardedPendingBlobs : Nat
  discardedCompletedBlobs : Nat
  abandonedAttempts : Nat

def discardPending : JournalM Nat := do
  let journal ← look
  journal.pending.entries.forM fun entry => discardStagedBlob entry.1
  return journal.pending.entries.length

def demotionFor : BlobCheck → Option DemotionReason
  | .valid => none
  | .missing => some .artifactMissing
  | .notRegularFile => some .artifactNotRegularFile
  | .sizeMismatch => some .artifactSizeMismatch
  | .digestMismatch => some .artifactHashMismatch

/-- What the verifier found for each path so far. -/
abbrev VerifierResults := OrderedMap String (Option DemotionReason)

/-- Hashes each completed blob once, however many artifacts share it. -/
def checkArtifact (completed : OrderedMap String BlobFile) (results : VerifierResults)
    (row : ArtifactRow) : Option DemotionReason × VerifierResults :=
  match parseBlake3Hex row.blake3 with
  | none => (some .artifactRecordInvalid, results)
  | some digest =>
    if row.byteLength < 0 ∨ row.relativePath ≠ journalCompletedRelativePath row.blake3 then
      (some .artifactRecordInvalid, results)
    else
      match results.find? row.relativePath with
      | some cached => (cached, results)
      | none =>
        let result :=
          demotionFor (checkBlob codec completed row.blake3 digest row.byteLength.toNat)
        (result, results.insert row.relativePath result)

/-- The first artifact that fails. -/
def checkArtifacts (completed : OrderedMap String BlobFile) :
    List (String × ArtifactRow) → VerifierResults → Option (String × DemotionReason) × VerifierResults
  | [], results => (none, results)
  | (artifactId, row) :: rest, results =>
    match checkArtifact codec completed results row with
    | (some reason, results) => (some (artifactId, reason), results)
    | (none, results) => checkArtifacts completed rest results

def demoteTask (rows : JournalRows) (taskId : String) : JournalRows :=
  { rows with
    provenance := rows.provenance.filter fun artifactId _ =>
      !(rows.artifact.find? artifactId).any fun row => row.taskId = taskId
    artifact := rows.artifact.filter fun _ row => row.taskId ≠ taskId
    cacheHit := rows.cacheHit.erase taskId
    task := updateRow rows.task taskId fun row =>
      { row with status := taskStateName .planned, outputBlake3 := none, completedUtc := none } }

/-- One committed task: verified, and demoted where that fails. -/
def verifyCommittedTask (completed : OrderedMap String BlobFile)
    (done : JournalRows × VerifierResults × List DemotedTask) (task : String × TaskRow) :
    JournalRows × VerifierResults × List DemotedTask :=
  let (rows, results, demoted) := done
  if task.2.outputBlake3.isNone then
    (demoteTask rows task.1, results, demoted ++ [⟨task.1, "", .outputDigestMissing⟩])
  else
    let artifacts := rows.artifact.entries.filter fun artifact => artifact.2.taskId = task.1
    match checkArtifacts codec completed artifacts results with
    | (some (artifactId, reason), results) =>
      (demoteTask rows task.1, results, demoted ++ [⟨task.1, artifactId, reason⟩])
    | (none, results) => (rows, results, demoted)

def verifyCommittedTasks (rows : JournalRows) (completed : OrderedMap String BlobFile) :
    JournalRows × List DemotedTask :=
  let committed := rows.task.entries.filter fun task => task.2.status = taskStateName .committed
  let done := committed.foldl (verifyCommittedTask codec completed) (rows, .empty, [])
  (done.1, done.2.2)

/-- An attempt nobody will answer for. -/
def TaskAttemptRow.isOpen (row : TaskAttemptRow) : Bool :=
  row.outcome = attemptOutcomeName .leased ∨ row.outcome = attemptOutcomeName .running

def TaskAttemptRow.abandon (row : TaskAttemptRow) : TaskAttemptRow :=
  if row.isOpen then { row with outcome := attemptOutcomeName .abandoned } else row

def WorkerSessionRow.lose (row : WorkerSessionRow) : WorkerSessionRow :=
  if row.status = workerSessionStatusName .active then
    { row with status := workerSessionStatusName .lost }
  else row

namespace JournalRows

def isCommitted (rows : JournalRows) (taskId : String) : Bool :=
  (rows.task.find? taskId).any fun row => parseTaskState row.status = some .committed

/-- Nothing that was in flight is trusted. -/
def resumedState (rows : JournalRows) (taskId : String) (row : TaskRow) : TaskState :=
  if (parseTaskState row.status).getD .planned = .committed then .committed
  else if (rows.dependsOn taskId).all rows.isCommitted then .ready
  else .planned

def readCacheKey (taskId : String) : Option String → Except JournalFailure (Option Blake3Digest)
  | none => .ok none
  | some text =>
    match parseBlake3Prefixed text with
    | some digest => .ok (some digest)
    | none => journalError .databaseError ("task " ++ taskId ++ " has a malformed cache_key")

def resumedTask (rows : JournalRows) (task : String × TaskRow) :
    Except JournalFailure ResumedTask := do
  let cacheKey ← readCacheKey task.1 task.2.cacheKey
  return { taskId := task.1, taskType := task.2.taskType, state := rows.resumedState task.1 task.2,
           cacheKey, dependsOn := rows.dependsOn task.1 }

/-- The row as it is written back; a committed task's row is left. -/
def resetTask (rows : JournalRows) (taskId : String) (row : TaskRow) : TaskRow :=
  if (parseTaskState row.status).getD .planned = .committed then row
  else { row with status := taskStateName (rows.resumedState taskId row) }

def resetIncompleteTasks (rows : JournalRows) :
    Except JournalFailure (JournalRows × List ResumedTask) := do
  let tasks ← rows.task.entries.mapM rows.resumedTask
  return ({ rows with task := rows.task.map rows.resetTask }, tasks)

def abandonOpenAttempts (rows : JournalRows) : JournalRows × Nat :=
  ({ rows with
      taskAttempt := rows.taskAttempt.map fun _ row => row.abandon
      workerSession := rows.workerSession.map fun _ row => row.lose },
    rows.taskAttempt.entries.countP fun entry => entry.2.isOpen)

end JournalRows

/-- The transaction of `resume`: the rows it writes, and what it reports of them. -/
def resumeRows (buildSessionId : String) (rows : JournalRows)
    (completed : OrderedMap String BlobFile) :
    Except JournalFailure (JournalRows × List DemotedTask × List ResumedTask × Nat) := do
  let (rows, demoted) := verifyCommittedTasks codec rows completed
  let (rows, tasks) ← rows.resetIncompleteTasks
  let (rows, abandoned) := rows.abandonOpenAttempts
  return (rows.markBuildSession buildSessionId .active, demoted, tasks, abandoned)

def isReferenced (rows : JournalRows) (name : String) : Bool :=
  rows.artifact.entries.any fun artifact =>
    artifact.2.relativePath = journalCompletedRelativePath name

/-- After the transaction, so that no row still needs what is removed. -/
def discardUnreferencedCompleted : JournalM Nat := do
  let journal ← look
  let unreferenced := journal.completed.entries.filter fun entry =>
    !isReferenced journal.rows entry.1
  unreferenced.forM fun entry =>
    write fun journal => { journal with completed := journal.completed.erase entry.1 }
  return unreferenced.length

def resume (currentSources : List SourceFingerprintRecord) : JournalM ResumeReport := do
  let journal ← look
  check (verifySources journal.rows currentSources)
  let discardedPendingBlobs ← discardPending
  let journal ← look
  let (rows, demoted, tasks, abandonedAttempts) ←
    check (resumeRows codec journal.buildSessionId journal.rows journal.completed)
  write fun journal => { journal with rows }
  let discardedCompletedBlobs ← discardUnreferencedCompleted
  return { tasks, demoted, discardedPendingBlobs, discardedCompletedBlobs, abandonedAttempts }

/-! ## Every run -/

/-- One call on an open journal. -/
inductive JournalCall
  | recordBuildSession (session : BuildSessionRecord)
  | setBuildSessionStatus (sessionId : String) (status : BuildSessionStatus)
  | recordTask (task : JournalTaskRecord)
  | setTaskState (taskId : String) (next : TaskState) (now : String)
  | commitTask (names : Nat → String) (now : String) (commit : TaskCommit)
  | recordWorkerSession (session : WorkerSessionRecord)
  | recordTaskAttempt (attempt : TaskAttemptRecord)
  | resume (currentSources : List SourceFingerprintRecord)

def JournalCall.run : JournalCall → JournalM Unit
  | recordBuildSession session => transaction (·.recordBuildSession session)
  | setBuildSessionStatus sessionId status => transaction (·.setBuildSessionStatus sessionId status)
  | recordTask task => transaction (·.recordTask task)
  | setTaskState taskId next now => transaction (·.setTaskState taskId next now)
  | commitTask names now commit => Exec.commitTask codec names now commit
  | recordWorkerSession session => transaction (·.recordWorkerSession session)
  | recordTaskAttempt attempt => transaction (·.recordTaskAttempt attempt)
  | resume currentSources => do
    let _ ← Exec.resume codec currentSources
    return ()

/-- The commits of a call are among the `allowed` ones. -/
def JournalCall.Within (allowed : TaskCommit → Prop) : JournalCall → Prop
  | commitTask _ _ commit => allowed commit
  | _ => True

/-- A call that ends, or one that a crash cuts off: then `pending/` may hold anything. -/
inductive JournalStep (allowed : TaskCommit → Prop) : Journal → Journal → Prop
  | call (journal : Journal) (call : JournalCall) (within : call.Within allowed) :
      JournalStep allowed journal (call.run codec journal).state
  | crash (journal left : Journal) (call : JournalCall) (within : call.Within allowed)
      (cut : (call.run codec).Left journal left) (pending : OrderedMap String BlobFile) :
      JournalStep allowed journal { left with pending }

/-- The runs of one journal, from its creation. -/
def journalSystem (allowed : TaskCommit → Prop) : System Journal where
  init journal := ∃ session sources, createJournal session sources = .ok journal
  step := JournalStep codec allowed

/-- Every file of the directory is one of `contents`. -/
def FilledFrom (contents : Set Bytes) (files : OrderedMap String BlobFile) : Prop :=
  ∀ name bytes, files.find? name = some (.regular bytes) → bytes ∈ contents

/-- As `journalSystem`, where files of the directory may also be lost, replaced or added
between two calls. -/
def damagedSystem (allowed : TaskCommit → Prop) (contents : Set Bytes) : System Journal where
  init := (journalSystem codec allowed).init
  step journal journal' := JournalStep codec allowed journal journal' ∨
    ∃ pending completed, FilledFrom contents completed ∧
      journal' = { journal with pending, completed }

end Codec

end Svp.Exec

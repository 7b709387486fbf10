import Svp.Exec.JournalResume

/-!
# What survives a crash

`Keeps` is what every call on a journal does, wherever it ends or is cut off: the rows stay
consistent, and where every blob was intact it stays so and every committed task keeps its
rows. Over the runs of `journalSystem` this says that a committed result is never lost
(`committed_lasts`); where `completed/` may be damaged (`damagedSystem`), that a resume keeps
exactly the tasks whose blobs are all intact (`resume_recovers`), and that it may itself be
cut off and started again (`resume_again`).
-/

namespace Svp.Exec

open Lib (OrderedMap Durable System)
open Lib.Durable (Meets Left)

variable {codec : Codec} {allowed : TaskCommit → Prop} {contents : Set Bytes}

/-! ## What every call keeps -/

/-- Consistent rows over a directory of known files. -/
structure Sound (codec : Codec) (allowed : TaskCommit → Prop) (contents : Set Bytes)
    (s : Journal) : Prop where
  recorded : Recorded codec allowed s.rows
  filled : FilledFrom contents s.completed

/-- Every blob a row names is intact. -/
def AllIntact (codec : Codec) (s : Journal) : Prop :=
  ∀ a r, s.rows.artifact.find? a = some r → Intact codec s.completed r

structure Keeps (codec : Codec) (allowed : TaskCommit → Prop) (contents : Set Bytes)
    (s t : Journal) : Prop where
  sound : Sound codec allowed contents t
  intact : AllIntact codec s → AllIntact codec t ∧ Lasts codec s.rows t.rows

variable {s t : Journal}

theorem Lasts.refl (rows : JournalRows) : Lasts codec rows rows :=
  ⟨fun _ _ committed => committed, fun _ _ _ rowsOf => rowsOf⟩

theorem Lasts.trans {rows rows' rows'' : JournalRows} (first : Lasts codec rows rows')
    (second : Lasts codec rows' rows'') : Lasts codec rows rows'' where
  committed id row committed := second.committed id row (first.committed id row committed)
  rowsOf commit row committed rowsOf :=
    second.rowsOf commit row (first.committed _ row committed)
      (first.rowsOf commit row committed rowsOf)

theorem Keeps.refl (sound : Sound codec allowed contents s) : Keeps codec allowed contents s s :=
  ⟨sound, fun intact => ⟨intact, .refl s.rows⟩⟩

/-- `pending/` does not matter. -/
theorem Keeps.withPending (keeps : Keeps codec allowed contents s t)
    (pending : OrderedMap String BlobFile) :
    Keeps codec allowed contents s { t with pending } :=
  ⟨⟨keeps.sound.recorded, keeps.sound.filled⟩, keeps.intact⟩

theorem Keeps.of_sameCommitted (sound : Sound codec allowed contents s) {rows : JournalRows}
    (same : SameCommitted s.rows rows) (recorded : Recorded codec allowed rows) :
    Keeps codec allowed contents s { s with rows } := by
  refine ⟨⟨recorded, sound.filled⟩, fun intact => ⟨fun a r found => ?_, same.lasts⟩⟩
  change rows.artifact.find? a = some r at found
  rw [same.artifact] at found
  exact intact a r found

theorem Keeps.of_beside (sound : Sound codec allowed contents s) {rows : JournalRows}
    (task : rows.task = s.rows.task) (artifact : rows.artifact = s.rows.artifact)
    (provenance : rows.provenance = s.rows.provenance)
    (cacheHit : rows.cacheHit = s.rows.cacheHit) :
    Keeps codec allowed contents s { s with rows } := by
  have same := SameCommitted.beside task artifact provenance cacheHit
  refine .of_sameCommitted sound same (same.recorded sound.recorded fun id row found => ?_)
  rw [task] at found
  exact sound.recorded.wellFormed id row found

theorem Keeps.of_grows (sound : Sound codec allowed contents s)
    (grows : Grows codec contents s t) : Keeps codec allowed contents s t := by
  refine ⟨⟨grows.rows ▸ sound.recorded, grows.filled⟩, fun intact => ?_⟩
  rw [grows.rows]
  refine ⟨fun a r found => ?_, .refl s.rows⟩
  rw [grows.rows] at found
  obtain ⟨bytes, stored, named, length⟩ := intact a r found
  exact ⟨bytes, grows.kept _ bytes stored named, named, length⟩

theorem CommitDone.keeps (sound : Sound codec allowed contents s) {commit : TaskCommit}
    (allows : allowed commit) {now : String}
    (done : CommitDone codec contents commit now s t) :
    Keeps codec allowed contents s t ∧
      ∃ row, t.rows.Committed commit.taskId row ∧ RowsOf codec t.rows row commit := by
  have hashed : ∀ artifact ∈ commit.artifacts, codec.blake3 artifact.content = artifact.blake3 :=
    fun artifact mem => (done.stored artifact mem).1
  have open_ : TaskState.resultReceived ≠ .committed := by decide
  obtain ⟨recorded, lasts, own, rowsAfter⟩ :=
    sound.recorded.recordCommit allows done.received open_ hashed done.recorded
  refine ⟨⟨⟨recorded, done.filled⟩, fun intact => ⟨fun a r found => ?_, lasts⟩⟩, own⟩
  rcases (rowsAfter a r).mp found with old | ⟨artifact, mem, -, rfl⟩
  · obtain ⟨bytes, stored, named, length⟩ := intact a r old
    exact ⟨bytes, done.kept _ bytes stored named, named, length⟩
  · obtain ⟨hash, stored⟩ := done.stored artifact mem
    exact ⟨artifact.content, stored, congrArg blake3Hex hash, rfl⟩

/-- A transaction from a state whose directory stays as it is. -/
theorem transaction_keeps (sound : Sound codec allowed contents s)
    {change : JournalRows → Except JournalFailure JournalRows}
    (keeps : ∀ rows, change s.rows = .ok rows → Keeps codec allowed contents s { s with rows }) :
    Meets (transaction change) s (Keeps codec allowed contents s)
      fun _ => Keeps codec allowed contents s :=
  transaction_meets (fun rows ok => ⟨keeps rows ok, keeps rows ok⟩) fun _ _ => .refl sound

theorem swept_referencedOnly (rows : JournalRows) (completed : OrderedMap String BlobFile) :
    Swept rows completed (referencedOnly rows completed) := by
  intro name
  rw [find?_referencedOnly]
  split
  · exact ⟨fun _ => rfl, .inr rfl⟩
  · next unnamed => exact ⟨fun named => absurd named unnamed, .inl rfl⟩

theorem verifySources_congr {rows rows' : JournalRows} (same : rows'.source = rows.source) :
    verifySources rows' = verifySources rows := by
  unfold verifySources
  rw [same]

theorem done_of_returned {sources : List SourceFingerprintRecord} {report : ResumeReport}
    (returned : (resume codec sources s).result = .ok report) :
    ResumeDone codec sources s report (resume codec sources s).state := by
  have post := (resume_meets codec sources s).atTheEnd
  rw [returned] at post
  exact post

theorem resumeCut_of_done {sources : List SourceFingerprintRecord} {report : ResumeReport}
    (done : ResumeDone codec sources s report t) : ResumeCut codec sources s t := by
  obtain ⟨verified, rows, abandoned, ran, rfl⟩ := done
  exact .inr ⟨verified, rows, _, _, ran, rfl, swept_referencedOnly rows s.completed⟩

/-- The rows a resume writes are intact, whatever of the rest is swept. -/
theorem Resumes.intact {rows rows' : JournalRows} {completed after : OrderedMap String BlobFile}
    {demoted : List DemotedTask} {tasks : List ResumedTask}
    (resumes : Resumes codec allowed completed rows rows' demoted tasks)
    (swept : Swept rows' completed after) {a : String} {r : ArtifactRow}
    (found : rows'.artifact.find? a = some r) : Intact codec after r := by
  obtain ⟨before, fine⟩ := (resumes.artifact a r).mp found
  have intact : Intact codec completed r := by
    by_contra bad
    exact fine ⟨a, r, before, rfl, bad⟩
  obtain ⟨bytes, stored, named, length⟩ := intact
  refine ⟨bytes, ?_, named, length⟩
  rw [(swept r.blake3).1 ?_]
  · exact stored
  · obtain ⟨commit, -, artifact, -, -, rfl, -⟩ := resumes.recorded.source found
    exact List.any_eq_true.mpr ⟨_, OrderedMap.find?_eq_some.mp found, decide_eq_true rfl⟩

section Apart

variable (apart : Set.InjOn codec.blake3 contents)
  (known : ∀ commit, allowed commit → ∀ artifact ∈ commit.artifacts, artifact.content ∈ contents)

include apart known

theorem keeps_of_resumeCut (sound : Sound codec allowed contents s)
    {sources : List SourceFingerprintRecord} (cut : ResumeCut codec sources s t) :
    Keeps codec allowed contents s t := by
  rcases cut with ⟨pending, rfl⟩ | ⟨-, rows, rest, completed, ran, rfl, swept⟩
  · exact (Keeps.refl sound).withPending pending
  · obtain ⟨rows', demoted, tasks, abandoned, ran', resumes, -, -, unchanged⟩ :=
      resumeRows_resumes apart known sound.recorded s.buildSessionId s.completed
    rw [ran'] at ran
    cases ran
    refine ⟨⟨resumes.recorded, fun name bytes stored => ?_⟩, fun intact =>
      ⟨fun a r found => resumes.intact swept found, ?_⟩⟩
    · rcases (swept name).2 with gone | same
      · exact absurd (gone.symm.trans stored) (Option.some_ne_none _).symm
      · exact sound.filled name bytes (same.symm.trans stored)
    · show Lasts codec s.rows rows
      rw [unchanged]
      · exact (settle_sameCommitted s.buildSessionId).lasts
      · rintro id ⟨a, r, found, -, bad⟩
        exact bad (intact a r found)

/-- What holds from the call on, wherever it ends. -/
theorem run_meets (sound : Sound codec allowed contents s) (call : JournalCall)
    (within : call.Within allowed) : Meets (call.run codec) s (Keeps codec allowed contents s)
      fun _ => Keeps codec allowed contents s := by
  cases call with
  | recordBuildSession session =>
    unfold JournalCall.run
    refine transaction_keeps sound fun rows ok => ?_
    obtain ⟨_, -, ok⟩ := bind_eq_ok.mp ok
    obtain ⟨_, -, ok⟩ := bind_eq_ok.mp ok
    cases ok
    exact .of_beside sound rfl rfl rfl rfl
  | setBuildSessionStatus sessionId status =>
    unfold JournalCall.run
    refine transaction_keeps sound fun rows ok => ?_
    unfold JournalRows.setBuildSessionStatus at ok
    split at ok
    · cases ok
      exact .of_beside sound rfl rfl rfl rfl
    · cases ok
  | recordTask task =>
    unfold JournalCall.run
    refine transaction_keeps sound fun rows ok => ?_
    obtain ⟨same, recorded⟩ := sound.recorded.recordTask ok
    exact .of_sameCommitted sound same recorded
  | setTaskState taskId next now =>
    unfold JournalCall.run
    refine transaction_keeps sound fun rows ok => ?_
    obtain ⟨same, recorded⟩ := sound.recorded.setTaskState ok
    exact .of_sameCommitted sound same recorded
  | commitTask names now commit =>
    refine (commitTask_meets apart sound.filled names now (known commit within)).mono
      (fun t cut => ?_) fun r t post => ?_
    · rcases cut with grows | done
      · exact .of_grows sound grows
      · exact (done.keeps sound within).1
    · cases r with
      | ok _ => exact (CommitDone.keeps sound within post).1
      | error e => exact .of_grows sound post
  | recordWorkerSession session =>
    unfold JournalCall.run
    refine transaction_keeps sound fun rows ok => ?_
    obtain ⟨_, -, ok⟩ := bind_eq_ok.mp ok
    cases ok
    exact .of_beside sound rfl rfl rfl rfl
  | recordTaskAttempt attempt =>
    unfold JournalCall.run
    refine transaction_keeps sound fun rows ok => ?_
    unfold JournalRows.recordTaskAttempt at ok
    simp only [bind_eq_ok] at ok
    obtain ⟨_, -, _, -, _, -, _, -, _, -, _, -, ok⟩ := ok
    cases ok
    exact .of_beside sound rfl rfl rfl rfl
  | resume sources =>
    have meets := (resume_meets codec sources s).mono
      (fun t cut => keeps_of_resumeCut apart known sound cut) fun r t post => post
    refine .andThen meets (fun report t post => ?_) fun e t post => ?_
    · exact .ret (keeps_of_resumeCut apart known sound (resumeCut_of_done post))
    · obtain ⟨pending, rfl⟩ := post.1
      exact (Keeps.refl sound).withPending pending

theorem step_keeps (sound : Sound codec allowed contents s)
    (step : JournalStep codec allowed s t) : Keeps codec allowed contents s t := by
  cases step with
  | call call within => exact (run_meets apart known sound call within).atTheEnd
  | crash left call within cut pending =>
    exact ((run_meets apart known sound call within).left (.refl sound)
      (fun _ _ keeps => keeps) cut).withPending pending

end Apart

/-- A new journal has no tasks and no blobs. -/
theorem createJournal_empty {session : BuildSessionRecord}
    {sources : List SourceFingerprintRecord} (ok : createJournal session sources = .ok s) :
    s.completed = .empty ∧ s.rows.task = .empty ∧ s.rows.artifact = .empty ∧
      s.rows.provenance = .empty ∧ s.rows.cacheHit = .empty := by
  obtain ⟨rows, opened, ok⟩ := bind_eq_ok.mp ok
  obtain ⟨filled, inserted, ok⟩ := bind_eq_ok.mp ok
  cases ok
  obtain ⟨_, -, opened⟩ := bind_eq_ok.mp opened
  obtain ⟨_, -, opened⟩ := bind_eq_ok.mp opened
  cases opened
  refine ⟨rfl, ?_⟩
  -- each source adds a row to its own table
  suffices kept : ∀ (sources : List SourceFingerprintRecord) (rows rows' : JournalRows),
      sources.foldlM JournalRows.insertSource rows = .ok rows' →
      rows'.task = rows.task ∧ rows'.artifact = rows.artifact ∧
        rows'.provenance = rows.provenance ∧ rows'.cacheHit = rows.cacheHit from
    kept sources _ _ inserted
  intro sources
  induction sources with
  | nil =>
    intro rows rows' ok
    cases ok
    exact ⟨rfl, rfl, rfl, rfl⟩
  | cons source rest ih =>
    intro rows rows' ok
    rw [List.foldlM_cons] at ok
    obtain ⟨middle, first, ok⟩ := bind_eq_ok.mp ok
    obtain ⟨_, -, first⟩ := bind_eq_ok.mp first
    obtain ⟨_, -, first⟩ := bind_eq_ok.mp first
    obtain ⟨_, -, first⟩ := bind_eq_ok.mp first
    cases first
    have after := ih _ _ ok
    exact after

theorem init_sound (init : (journalSystem codec allowed).init s) :
    Sound codec allowed contents s ∧ AllIntact codec s := by
  obtain ⟨session, sources, ok⟩ := init
  obtain ⟨completed, task, artifact, provenance, cacheHit⟩ := createJournal_empty ok
  have noTask : ∀ id row, ¬ s.rows.Committed id row := by
    rintro id row ⟨found, -⟩
    rw [task, OrderedMap.find?_empty] at found
    cases found
  refine ⟨⟨⟨fun id row found => ?_, fun id row committed => absurd committed (noTask id row),
    fun id r found => ?_, fun id => ?_, fun id hit found => ?_⟩, fun name bytes found => ?_⟩,
    fun a r found => ?_⟩
  · rw [task, OrderedMap.find?_empty] at found
    cases found
  · rw [artifact, OrderedMap.find?_empty] at found
    cases found
  · rw [provenance, artifact, OrderedMap.find?_empty, OrderedMap.find?_empty]
    rfl
  · rw [cacheHit, OrderedMap.find?_empty] at found
    cases found
  · rw [completed, OrderedMap.find?_empty] at found
    cases found
  · rw [artifact, OrderedMap.find?_empty] at found
    cases found

/-! ## Runs with crashes -/

section Runs

variable (apart : Set.InjOn codec.blake3 contents)
  (known : ∀ commit, allowed commit → ∀ artifact ∈ commit.artifacts, artifact.content ∈ contents)

include apart known

/-- Over a whole run. -/
theorem leads_keeps (run : (journalSystem codec allowed).Leads s t)
    (sound : Sound codec allowed contents s) : Keeps codec allowed contents s t := by
  refine run.preserves (fun u v keeps step => ?_) (.refl sound)
  have next := step_keeps apart known keeps.sound step
  refine ⟨next.sound, fun intact => ?_⟩
  obtain ⟨intact, lasts⟩ := keeps.intact intact
  exact ⟨(next.intact intact).1, lasts.trans (next.intact intact).2⟩

theorem reachable_intact (reached : (journalSystem codec allowed).Reachable s) :
    Sound codec allowed contents s ∧ AllIntact codec s := by
  obtain ⟨start, init, run⟩ := reached
  obtain ⟨sound, intact⟩ := init_sound init
  have keeps := leads_keeps apart known run sound
  exact ⟨keeps.sound, (keeps.intact intact).1⟩

theorem reachable_sound (reached : (damagedSystem codec allowed contents).Reachable s) :
    Sound codec allowed contents s := by
  refine System.Reachable.invariant (S := damagedSystem codec allowed contents)
    (fun s init => (init_sound init).1) (fun s t _ sound step => ?_) reached
  rcases step with step | ⟨pending, completed, filled, rfl⟩
  · exact (step_keeps apart known sound step).sound
  · exact ⟨sound.recorded, filled⟩

/-- An intact blob of a known commit holds exactly the bytes handed in. -/
theorem areStored_of_intact (sound : Sound codec allowed contents s) (intact : AllIntact codec s)
    {commit : TaskCommit} (allows : allowed commit) {row : TaskRow}
    (rowsOf : RowsOf codec s.rows row commit) :
    AreStored codec s.completed commit.artifacts := by
  intro artifact mem
  have hashed := rowsOf.hashed artifact mem
  obtain ⟨found, -⟩ := (rowsOf.artifacts artifact.artifactId _).mpr ⟨artifact, mem, rfl, rfl⟩
  obtain ⟨bytes, stored, named, -⟩ := intact _ _ found
  have same : bytes = artifact.content :=
    apart (sound.filled _ _ stored) (known commit allows artifact mem)
      ((blake3Hex_injective named).trans hashed.symm)
  exact ⟨hashed, same ▸ stored⟩

/-- Where the sources verify a resume runs to its end. -/
theorem resume_returns (sound : Sound codec allowed contents s)
    {sources : List SourceFingerprintRecord} (verified : verifySources s.rows sources = .ok ()) :
    ∃ report, (resume codec sources s).result = .ok report ∧
      ResumeDone codec sources s report (resume codec sources s).state := by
  have post := (resume_meets codec sources s).atTheEnd
  cases result : (resume codec sources s).result with
  | error e =>
    rw [result] at post
    obtain ⟨rows, demoted, tasks, abandoned, ran, -⟩ :=
      resumeRows_resumes apart known sound.recorded s.buildSessionId s.completed
    exact absurd ⟨verified, _, ran⟩ post.2
  | ok report =>
    rw [result] at post
    exact ⟨report, rfl, post⟩

theorem ResumeDone.resumes (sound : Sound codec allowed contents s)
    {sources : List SourceFingerprintRecord} {report : ResumeReport}
    (done : ResumeDone codec sources s report t) :
    Resumes codec allowed s.completed s.rows t.rows report.demoted report.tasks := by
  obtain ⟨rows, demoted, tasks, abandoned, ran, resumes, -⟩ :=
    resumeRows_resumes apart known sound.recorded s.buildSessionId s.completed
  obtain ⟨-, rows', abandoned', ran', rfl⟩ := done
  rw [ran] at ran'
  cases ran'
  exact resumes

/-- Started again after it was cut off once, a resume ends where it would have ended. -/
theorem resume_once_more (sound : Sound codec allowed contents s)
    {sources : List SourceFingerprintRecord} (verified : verifySources s.rows sources = .ok ())
    {left : Journal} (cut : (resume codec sources).Left s left)
    (pending : OrderedMap String BlobFile) :
    Sound codec allowed contents { left with pending } ∧
      verifySources left.rows sources = .ok () ∧
      (resume codec sources { left with pending }).state = (resume codec sources s).state := by
  obtain ⟨report, -, -, rows, abandoned, ran, ended⟩ := resume_returns apart known sound verified
  rw [ended]
  have stopped : ResumeCut codec sources s left := by
    refine (resume_meets codec sources s).left (.inl ⟨_, rfl⟩) (fun r t post => ?_) cut
    cases r with
    | ok report => exact resumeCut_of_done post
    | error e => exact .inl post.1
  rcases stopped with ⟨pending', rfl⟩ | ⟨-, rows', rest, completed, ran', rfl, swept⟩
  · -- before the transaction: the second resume decides the same
    obtain ⟨report', -, -, rows', abandoned', ran', ended'⟩ :=
      resume_returns (s := { s with pending }) apart known ⟨sound.recorded, sound.filled⟩ verified
    obtain rfl : rows' = rows := congrArg Prod.fst (Except.ok.inj (ran'.symm.trans ran))
    exact ⟨⟨sound.recorded, sound.filled⟩, verified, ended'⟩
  · -- after it: there is nothing left to demote or restart
    rw [ran] at ran'
    cases ran'
    have after := keeps_of_resumeCut apart known sound
      (.inr ⟨verified, rows, _, completed, ran, rfl, swept⟩)
    obtain ⟨rows₁, demoted, tasks, abandoned₁, ran₁, resumes, source, ⟨settled, rfl⟩, -⟩ :=
      resumeRows_resumes apart known sound.recorded s.buildSessionId s.completed
    rw [ran] at ran₁
    cases ran₁
    have fine : ∀ id, ¬ Failing codec completed (settle s.buildSessionId settled) id := by
      rintro id ⟨a, r, found, -, bad⟩
      exact bad (resumes.intact swept found)
    obtain ⟨rows₂, demoted₂, tasks₂, abandoned₂, ran₂, -, -, -, unchanged⟩ :=
      resumeRows_resumes apart known after.sound.recorded s.buildSessionId completed
    rw [unchanged fine, settle_settle] at ran₂
    have still := (congrFun (verifySources_congr source) sources).trans verified
    have sound' : Sound codec allowed contents
        { s with rows := settle s.buildSessionId settled, pending, completed } :=
      ⟨after.sound.recorded, after.sound.filled⟩
    obtain ⟨report', -, -, rows', abandoned', ran', ended'⟩ :=
      resume_returns apart known sound' still
    rw [ran₂] at ran'
    cases ran'
    refine ⟨sound', still, ended'.trans ?_⟩
    rw [swept.referencedOnly]

end Runs

/-! ## A small journal -/

/-- The states that calls run to their ends reach. -/
theorem reachable_calls {calls : List JournalCall}
    (reached : (journalSystem codec allowed).Reachable s)
    (within : ∀ call ∈ calls, call.Within allowed) :
    (journalSystem codec allowed).Reachable
      (calls.foldl (fun s call => (call.run codec s).state) s) := by
  induction calls generalizing s with
  | nil => exact reached
  | cons call rest ih =>
    obtain ⟨first, others⟩ := List.forall_mem_cons.mp within
    exact ih (reached.next (.call s call first)) others

theorem damaged_of_reachable (reached : (journalSystem codec allowed).Reachable s) :
    (damagedSystem codec allowed contents).Reachable s := by
  obtain ⟨start, init, run⟩ := reached
  exact ⟨start, init, Relation.ReflTransGen.mono (fun _ _ step => .inl step) _ _ run⟩

def sampleArtifact : JournalArtifactInput :=
  { artifactId := "task.result", blake3 := emptyBytesDigest, content := [],
    provenance := { processorId := "probe", parametersBlake3 := emptyOutputsDigest } }

def sampleCommit : TaskCommit :=
  { taskId := "task", outputBlake3 := emptyOutputDigest, artifacts := [sampleArtifact] }

def sampleSession : BuildSessionRecord :=
  { id := "session", startedUtc := "t0", svpVersion := "1", builderVersion := "1" }

def sampleJournal : Journal :=
  { buildSessionId := "session"
    rows :=
      { buildSession := OrderedMap.empty.insert "session"
          { startedUtc := "t0", svpVersion := "1", builderVersion := "1", status := "active" } } }

/-- One task whose result was received. -/
def receivedJournal : Journal :=
  [JournalCall.recordTask { taskId := "task", taskType := "probe" },
    .setTaskState "task" .ready "t0",
    .setTaskState "task" .resultReceived "t1"].foldl
    (fun s call => (call.run sampleCodec s).state) sampleJournal

def committedJournal : Journal :=
  (commitTask sampleCodec toString "t2" sampleCommit receivedJournal).state

theorem sampleCommit_returns :
    (commitTask sampleCodec toString "t2" sampleCommit receivedJournal).result = .ok () := rfl

def IsSampleCommit (commit : TaskCommit) : Prop := commit = sampleCommit

theorem sample_apart : Set.InjOn sampleCodec.blake3 ({[]} : Set Bytes) := Set.injOn_singleton _ _

theorem sample_known : ∀ commit, IsSampleCommit commit → ∀ artifact ∈ commit.artifacts,
    artifact.content ∈ ({[]} : Set Bytes) := by
  rintro commit rfl artifact mem
  rw [List.mem_singleton.mp mem]
  rfl

theorem received_reachable : (journalSystem sampleCodec IsSampleCommit).Reachable receivedJournal := by
  refine reachable_calls (.start ⟨sampleSession, [], rfl⟩) fun call mem => ?_
  rcases List.mem_cons.mp mem with rfl | mem
  · trivial
  rcases List.mem_cons.mp mem with rfl | mem
  · trivial
  rw [List.mem_singleton.mp mem]
  trivial

theorem committed_reachable :
    (journalSystem sampleCodec IsSampleCommit).Reachable committedJournal :=
  received_reachable.next (.call receivedJournal (.commitTask toString "t2" sampleCommit) rfl)

/-- The row a commit leaves. -/
def sampleRow : TaskRow :=
  { taskType := "probe", status := "committed", cacheKey := none, completedUtc := some "t2",
    outputBlake3 := some (blake3Hex emptyOutputDigest) }

theorem sample_committed : committedJournal.rows.Committed "task" sampleRow := ⟨rfl, rfl⟩

/-- A resume was cut off before it removed anything, and left half a file. -/
def interruptedJournal : Journal :=
  { committedJournal with pending := OrderedMap.empty.insert "0.part" (.regular [1]) }

theorem interrupted_step :
    (journalSystem sampleCodec IsSampleCommit).step committedJournal interruptedJournal :=
  .crash committedJournal committedJournal (.resume []) trivial (.inl rfl) _

/-- The blob was lost. -/
def damagedJournal : Journal := { committedJournal with completed := .empty }

theorem damaged_reached : (damagedSystem sampleCodec IsSampleCommit {[]}).Reachable damagedJournal := by
  refine (damaged_of_reachable committed_reachable).next (.inr ⟨_, .empty, fun name bytes found => ?_, rfl⟩)
  rw [OrderedMap.find?_empty] at found
  cases found

/-! ## Crashes -/

/-- What `commitTask` returned for is never lost, however often the process crashes. -/
theorem committed_lasts (apart : Set.InjOn codec.blake3 contents)
    (known : ∀ commit, allowed commit → ∀ artifact ∈ commit.artifacts, artifact.content ∈ contents)
    (reached : (journalSystem codec allowed).Reachable s) {commit : TaskCommit}
    (allows : allowed commit) {names : Nat → String} {now : String}
    (returned : (commitTask codec names now commit s).result = .ok ())
    (run : (journalSystem codec allowed).Leads (commitTask codec names now commit s).state t) :
    ∃ row, t.rows.Committed commit.taskId row ∧ RowsOf codec t.rows row commit ∧
      AreStored codec t.completed commit.artifacts := by
  obtain ⟨sound, intact⟩ := reachable_intact apart known reached
  have done := (commitTask_meets apart sound.filled names now (known commit allows)).atTheEnd
  rw [returned] at done
  obtain ⟨keeps, row, committed, rowsOf⟩ := done.keeps sound allows
  have later := leads_keeps apart known run keeps.sound
  obtain ⟨intact, lasts⟩ := later.intact (keeps.intact intact).1
  have rowsOf := lasts.rowsOf commit row committed rowsOf
  exact ⟨row, lasts.committed _ row committed, rowsOf,
    areStored_of_intact apart known later.sound intact allows rowsOf⟩

theorem sample_lasts : ∃ row, interruptedJournal.rows.Committed "task" row ∧
    RowsOf sampleCodec interruptedJournal.rows row sampleCommit ∧
    AreStored sampleCodec interruptedJournal.completed [sampleArtifact] :=
  committed_lasts sample_apart sample_known received_reachable rfl sampleCommit_returns
    (.single interrupted_step)

/-! ## Resuming -/

/-- Crashes alone never cost a committed result. -/
theorem crash_demotes_none (apart : Set.InjOn codec.blake3 contents)
    (known : ∀ commit, allowed commit → ∀ artifact ∈ commit.artifacts, artifact.content ∈ contents)
    (reached : (journalSystem codec allowed).Reachable s)
    {sources : List SourceFingerprintRecord} {report : ResumeReport}
    (returned : (resume codec sources s).result = .ok report) :
    report.demoted = [] ∧ ∀ id row,
      (resume codec sources s).state.rows.Committed id row ↔ s.rows.Committed id row := by
  obtain ⟨sound, intact⟩ := reachable_intact apart known reached
  have resumes := (done_of_returned returned).resumes apart known sound
  have fine : ∀ id, ¬ Failing codec s.completed s.rows id := by
    rintro id ⟨a, r, found, -, bad⟩
    exact bad (intact a r found)
  refine ⟨List.eq_nil_iff_forall_not_mem.mpr fun task mem => ?_, fun id row => ?_⟩
  · exact fine _ ((resumes.demoted _).mp (List.mem_map_of_mem mem))
  · rw [resumes.committed]
    exact and_iff_left (fine id)

theorem sample_demotes_none :
    (resume sampleCodec [] committedJournal).state.rows.Committed "task" sampleRow := by
  obtain ⟨report, returned⟩ : ∃ report,
    (resume sampleCodec [] committedJournal).result = .ok report := ⟨_, rfl⟩
  exact ((crash_demotes_none sample_apart sample_known committed_reachable returned).2 "task"
    sampleRow).mpr sample_committed

/-- A resume from `s` was cut off, and left `t`. -/
def ResumeCutOff (codec : Codec) (sources : List SourceFingerprintRecord) (s t : Journal) : Prop :=
  ∃ left pending, (resume codec sources).Left s left ∧ t = { left with pending }

/-- However often it is cut off and started again, a resume ends where it would have ended. -/
theorem resume_again (apart : Set.InjOn codec.blake3 contents)
    (known : ∀ commit, allowed commit → ∀ artifact ∈ commit.artifacts, artifact.content ∈ contents)
    (reached : (damagedSystem codec allowed contents).Reachable s)
    {sources : List SourceFingerprintRecord} (verified : verifySources s.rows sources = .ok ())
    (cuts : Relation.ReflTransGen (ResumeCutOff codec sources) s t) :
    (∃ report, (resume codec sources t).result = .ok report) ∧
      (resume codec sources t).state = (resume codec sources s).state := by
  have invariant : Sound codec allowed contents t ∧ verifySources t.rows sources = .ok () ∧
      (resume codec sources t).state = (resume codec sources s).state := by
    induction cuts with
    | refl => exact ⟨reachable_sound apart known reached, verified, rfl⟩
    | tail _ cut ih =>
      obtain ⟨sound, verified, same⟩ := ih
      obtain ⟨left, pending, cut, rfl⟩ := cut
      obtain ⟨soundLeft, still, again⟩ := resume_once_more apart known sound verified cut pending
      exact ⟨soundLeft, still, again.trans same⟩
  obtain ⟨sound, verified, same⟩ := invariant
  obtain ⟨report, returned, -⟩ := resume_returns apart known sound verified
  exact ⟨⟨report, returned⟩, same⟩

theorem sample_again : (resume sampleCodec [] interruptedJournal).state =
    (resume sampleCodec [] committedJournal).state :=
  (resume_again sample_apart sample_known (damaged_of_reachable committed_reachable) rfl
    (.single ⟨committedJournal, _, .inl rfl, rfl⟩)).2

end Svp.Exec

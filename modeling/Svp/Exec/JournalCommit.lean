import Svp.Exec.RecoveryJournal

/-!
# What a commit records and stores

`Recorded` is the invariant of the rows: the rows of a committed task are exactly those of
one commit, and no other task has any. `commitTask_meets` is the crash specification of a
commit: wherever it is cut off the rows are the old ones and no verified blob is lost, and
when it returns each artifact's bytes are in `completed/` under their digest.

That BLAKE3 tells the byte strings of one journal apart is a hypothesis about the set of
them (`Set.InjOn codec.blake3 contents`).
-/

namespace Svp.Exec

open Lib (OrderedMap Durable System)
open Lib.Durable (Meets)

variable {codec : Codec} {allowed : TaskCommit → Prop} {contents : Set Bytes}
  {rows rows' : JournalRows}

/-! ## Committed tasks -/

theorem parseTaskState_eq_some {name : String} {state : TaskState} :
    parseTaskState name = some state ↔ name = taskStateName state := by
  constructor
  · intro parsed
    obtain ⟨known, found, rfl⟩ := Option.map_eq_some_iff.mp parsed
    have named : known.2 = name := by simpa using List.find?_some found
    have listed : ∀ known ∈ kTaskStateNames, taskStateName known.1 = known.2 := by decide
    rw [listed known (List.mem_of_find?_eq_some found), named]
  · rintro rfl
    exact parseTaskState_taskStateName state

/-- The task has that row, and it is committed. -/
def JournalRows.Committed (rows : JournalRows) (taskId : String) (row : TaskRow) : Prop :=
  rows.task.find? taskId = some row ∧ row.status = taskStateName .committed

theorem JournalRows.isCommitted_iff {taskId : String} :
    rows.isCommitted taskId = true ↔ ∃ row, rows.Committed taskId row := by
  unfold isCommitted Committed
  cases rows.task.find? taskId <;> simp [parseTaskState_eq_some]

/-- What every row of the task table has: a known state and a well-formed cache key. -/
def TaskRow.WellFormed (row : TaskRow) : Prop :=
  (∃ state, row.status = taskStateName state) ∧
    ∀ text ∈ row.cacheKey, ∃ digest, parseBlake3Prefixed text = some digest

/-- The row that records an artifact of the task. -/
def JournalArtifactInput.row (artifact : JournalArtifactInput) (taskId : String) : ArtifactRow :=
  { taskId, relativePath := journalCompletedRelativePath (blake3Hex artifact.blake3),
    blake3 := blake3Hex artifact.blake3, byteLength := artifact.content.length }

/-- What storing the artifact returns. -/
def JournalArtifactInput.blob (artifact : JournalArtifactInput) : CommittedBlob :=
  ⟨journalCompletedRelativePath (blake3Hex artifact.blake3), artifact.content.length⟩

/-- `row` is the provenance row of the artifact. -/
def JournalArtifactInput.IsProvenance (codec : Codec) (artifact : JournalArtifactInput)
    (row : ArtifactProvenanceRow) : Prop :=
  ∃ modelRefs, modelRefsJson codec artifact.provenance.modelRefs = .ok modelRefs ∧
    row = { processorId := artifact.provenance.processorId,
            parametersBlake3 := blake3Hex artifact.provenance.parametersBlake3,
            modelRefsJson := modelRefs }

/-- The rows of a committed task are those of the commit, no more and no fewer. -/
structure RowsOf (codec : Codec) (rows : JournalRows) (row : TaskRow) (commit : TaskCommit) :
    Prop where
  output : row.outputBlake3 = some (blake3Hex commit.outputBlake3)
  /-- Every artifact has the digest it was declared with. -/
  hashed : ∀ artifact ∈ commit.artifacts, codec.blake3 artifact.content = artifact.blake3
  artifacts : ∀ id r, rows.artifact.find? id = some r ∧ r.taskId = commit.taskId ↔
    ∃ artifact ∈ commit.artifacts, artifact.artifactId = id ∧ r = artifact.row commit.taskId
  provenance : ∀ artifact ∈ commit.artifacts,
    ∃ p, rows.provenance.find? artifact.artifactId = some p ∧ artifact.IsProvenance codec p
  cacheHit : rows.cacheHit.find? commit.taskId = commit.cacheHit.map CacheHitRecord.row

/-- The invariant of the rows. -/
structure Recorded (codec : Codec) (allowed : TaskCommit → Prop) (rows : JournalRows) : Prop where
  wellFormed : ∀ id row, rows.task.find? id = some row → row.WellFormed
  committed : ∀ id row, rows.Committed id row →
    ∃ commit, allowed commit ∧ commit.taskId = id ∧ RowsOf codec rows row commit
  /-- Only committed tasks have artifacts. -/
  artifact : ∀ id r, rows.artifact.find? id = some r → ∃ row, rows.Committed r.taskId row
  provenance : ∀ id, (rows.provenance.find? id).isSome ↔ (rows.artifact.find? id).isSome
  cacheHit : ∀ id hit, rows.cacheHit.find? id = some hit → ∃ row, rows.Committed id row

/-- An artifact row is that of an artifact some allowed commit handed in. -/
theorem Recorded.source (recorded : Recorded codec allowed rows) {id : String} {r : ArtifactRow}
    (found : rows.artifact.find? id = some r) :
    ∃ commit, allowed commit ∧ ∃ artifact ∈ commit.artifacts, artifact.artifactId = id ∧
      r = artifact.row commit.taskId ∧ codec.blake3 artifact.content = artifact.blake3 := by
  obtain ⟨row, committed⟩ := recorded.artifact id r found
  obtain ⟨commit, allows, same, rowsOf⟩ := recorded.committed _ row committed
  obtain ⟨artifact, mem, named, isRow⟩ := (rowsOf.artifacts id r).mp ⟨found, same.symm⟩
  exact ⟨commit, allows, artifact, mem, named, isRow, rowsOf.hashed artifact mem⟩

/-- Rows that differ in tasks that are not committed, and in the tables beside. -/
structure SameCommitted (rows rows' : JournalRows) : Prop where
  artifact : rows'.artifact = rows.artifact
  provenance : rows'.provenance = rows.provenance
  cacheHit : rows'.cacheHit = rows.cacheHit
  committed : ∀ id row, rows'.Committed id row ↔ rows.Committed id row

/-- A committed task keeps its row, and it keeps the rows of its commit and no others. -/
structure Lasts (codec : Codec) (rows rows' : JournalRows) : Prop where
  committed : ∀ id row, rows.Committed id row → rows'.Committed id row
  rowsOf : ∀ commit row, rows.Committed commit.taskId row → RowsOf codec rows row commit →
    RowsOf codec rows' row commit

theorem SameCommitted.lasts (same : SameCommitted rows rows') : Lasts codec rows rows' where
  committed id row committed := (same.committed id row).mpr committed
  rowsOf commit row _ rowsOf := by
    refine ⟨rowsOf.output, rowsOf.hashed, ?_, ?_, ?_⟩
    · rw [same.artifact]
      exact rowsOf.artifacts
    · rw [same.provenance]
      exact rowsOf.provenance
    · rw [same.cacheHit]
      exact rowsOf.cacheHit

theorem SameCommitted.recorded (same : SameCommitted rows rows')
    (recorded : Recorded codec allowed rows)
    (wellFormed : ∀ id row, rows'.task.find? id = some row → row.WellFormed) :
    Recorded codec allowed rows' where
  wellFormed := wellFormed
  committed id row committed := by
    have before := (same.committed id row).mp committed
    obtain ⟨commit, allows, rfl, rowsOf⟩ := recorded.committed id row before
    exact ⟨commit, allows, rfl, same.lasts.rowsOf commit row before rowsOf⟩
  artifact id r found := by
    rw [same.artifact] at found
    obtain ⟨row, committed⟩ := recorded.artifact id r found
    exact ⟨row, (same.committed _ row).mpr committed⟩
  provenance id := by
    rw [same.provenance, same.artifact]
    exact recorded.provenance id
  cacheHit id hit found := by
    rw [same.cacheHit] at found
    obtain ⟨row, committed⟩ := recorded.cacheHit id hit found
    exact ⟨row, (same.committed _ row).mpr committed⟩

/-- Replacing the row of a task that is not committed by one that is not either. -/
theorem SameCommitted.insert {id : String} {row : TaskRow}
    (before : ∀ old, rows.task.find? id = some old → old.status ≠ taskStateName .committed)
    (after : row.status ≠ taskStateName .committed) (tasks : rows'.task = rows.task.insert id row)
    (artifact : rows'.artifact = rows.artifact) (provenance : rows'.provenance = rows.provenance)
    (cacheHit : rows'.cacheHit = rows.cacheHit) : SameCommitted rows rows' where
  artifact := artifact
  provenance := provenance
  cacheHit := cacheHit
  committed id' row' := by
    unfold JournalRows.Committed
    rw [tasks, OrderedMap.find?_insert]
    split
    · next same =>
      subst same
      constructor
      · rintro ⟨same, committed⟩
        exact absurd (Option.some.inj same ▸ committed) after
      · rintro ⟨found, committed⟩
        exact absurd committed (before row' found)
    · exact Iff.rfl

theorem Recorded.insertTask (recorded : Recorded codec allowed rows) {id : String} {row : TaskRow}
    (before : ∀ old, rows.task.find? id = some old → old.status ≠ taskStateName .committed)
    (after : row.status ≠ taskStateName .committed) (wellFormed : row.WellFormed)
    (tasks : rows'.task = rows.task.insert id row) (artifact : rows'.artifact = rows.artifact)
    (provenance : rows'.provenance = rows.provenance) (cacheHit : rows'.cacheHit = rows.cacheHit) :
    SameCommitted rows rows' ∧ Recorded codec allowed rows' := by
  have same : SameCommitted rows rows' :=
    .insert before after tasks artifact provenance cacheHit
  refine ⟨same, same.recorded recorded fun id' row' found => ?_⟩
  rw [tasks, OrderedMap.find?_insert] at found
  split at found
  · exact Option.some.inj found ▸ wellFormed
  · exact recorded.wellFormed id' row' found

/-! ## Calls that are one transaction -/

theorem Recorded.recordTask (recorded : Recorded codec allowed rows) {task : JournalTaskRecord}
    (ok : rows.recordTask task = .ok rows') :
    SameCommitted rows rows' ∧ Recorded codec allowed rows' := by
  unfold JournalRows.recordTask at ok
  obtain ⟨_, -, ok⟩ := bind_eq_ok.mp ok
  split at ok
  · cases ok
  obtain ⟨_, -, ok⟩ := bind_eq_ok.mp ok
  obtain ⟨table, inserted, ok⟩ := bind_eq_ok.mp ok
  obtain ⟨dependencies, -, ok⟩ := bind_eq_ok.mp ok
  obtain ⟨absent, rfl⟩ := insertRow_eq_ok.mp inserted
  cases ok
  refine recorded.insertTask (fun old found => ?_) ?_ ⟨⟨.planned, rfl⟩, fun text given => ?_⟩
    rfl rfl rfl rfl
  · rw [absent] at found
    cases found
  · show taskStateName .planned ≠ taskStateName .committed
    decide
  · obtain ⟨digest, -, rfl⟩ := Option.map_eq_some_iff.mp given
    exact ⟨digest, parseBlake3Prefixed_blake3Prefixed digest⟩

theorem requireTaskState_eq_ok {taskId : String} {state : TaskState} :
    rows.requireTaskState taskId = .ok state ↔
      ∃ row, rows.task.find? taskId = some row ∧ row.status = taskStateName state := by
  unfold JournalRows.requireTaskState JournalRows.readTaskState
  cases found : rows.task.find? taskId with
  | none => simp [bind, Except.bind, journalError]
  | some row =>
    cases parsed : parseTaskState row.status with
    | none =>
      have unknown : row.status ≠ taskStateName state := by
        intro named
        rw [named, parseTaskState_taskStateName] at parsed
        cases parsed
      simp [parsed, bind, Except.bind, journalError, unknown]
    | some known =>
      rw [parseTaskState_eq_some] at parsed
      simp [parsed, bind, Except.bind, pure, Except.pure, taskStateName_injective.eq_iff]

theorem Recorded.setTaskState (recorded : Recorded codec allowed rows) {taskId now : String}
    {next : TaskState} (ok : rows.setTaskState taskId next now = .ok rows') :
    SameCommitted rows rows' ∧ Recorded codec allowed rows' := by
  unfold JournalRows.setTaskState at ok
  obtain ⟨current, state, ok⟩ := bind_eq_ok.mp ok
  obtain ⟨row, found, status⟩ := requireTaskState_eq_ok.mp state
  split at ok
  · cases ok
  next permitted =>
  cases ok
  obtain ⟨notCommitted, edge⟩ := not_or.mp permitted
  have open_ : row.status ≠ taskStateName .committed := by
    rw [status]
    intro same
    rw [taskStateName_injective same, not_allowed_from_committed] at edge
    exact edge rfl
  refine recorded.insertTask (fun old found' => ?_) ?_ ?_ (updateRow_of_found found) rfl rfl rfl
  · rw [found] at found'
    cases found'
    exact open_
  · exact taskStateName_injective.ne notCommitted
  · exact ⟨⟨next, rfl⟩, (recorded.wellFormed taskId row found).2⟩

/-- Rows with the same tasks and artifacts. -/
theorem SameCommitted.beside (task : rows'.task = rows.task)
    (artifact : rows'.artifact = rows.artifact) (provenance : rows'.provenance = rows.provenance)
    (cacheHit : rows'.cacheHit = rows.cacheHit) : SameCommitted rows rows' :=
  ⟨artifact, provenance, cacheHit, fun id row => by unfold JournalRows.Committed; rw [task]⟩

/-! ## The rows of a commit -/

theorem insertArtifact_eq_ok {taskId : String} {artifact : JournalArtifactInput}
    (ok : rows.insertArtifact codec taskId (artifact, artifact.blob) = .ok rows') :
    ∃ p, artifact.IsProvenance codec p ∧
      rows.artifact.find? artifact.artifactId = none ∧
      rows.provenance.find? artifact.artifactId = none ∧
      rows' = { rows with
        artifact := rows.artifact.insert artifact.artifactId (artifact.row taskId)
        provenance := rows.provenance.insert artifact.artifactId p } := by
  unfold JournalRows.insertArtifact at ok
  obtain ⟨byteLength, bound, ok⟩ := bind_eq_ok.mp ok
  obtain ⟨artifacts, inserted, ok⟩ := bind_eq_ok.mp ok
  obtain ⟨modelRefs, encoded, ok⟩ := bind_eq_ok.mp ok
  obtain ⟨provenance, explained, ok⟩ := bind_eq_ok.mp ok
  obtain ⟨-, rfl⟩ := bindUnsigned_eq_ok.mp bound
  obtain ⟨noArtifact, rfl⟩ := insertRow_eq_ok.mp inserted
  obtain ⟨noProvenance, rfl⟩ := insertRow_eq_ok.mp explained
  cases ok
  exact ⟨_, ⟨modelRefs, encoded, rfl⟩, noArtifact, noProvenance, rfl⟩

/-- A new key adds one entry to a table. -/
theorem find?_insert_new {α : Type} {table : OrderedMap String α} {k k' : String} {v w : α}
    (absent : table.find? k = none) :
    (table.insert k v).find? k' = some w ↔ table.find? k' = some w ∨ k = k' ∧ w = v := by
  rw [OrderedMap.find?_insert]
  split
  · next same =>
    subst same
    rw [absent, Option.some.injEq]
    simp [eq_comm]
  · next other => simp [Ne.symm other]

/-- The loop over the artifacts adds their rows and no others. -/
theorem insertArtifacts_eq_ok {taskId : String} {artifacts : List JournalArtifactInput}
    (ok : (artifacts.zip (artifacts.map JournalArtifactInput.blob)).foldlM
      (JournalRows.insertArtifact codec taskId) rows = .ok rows') :
    (∃ artifact provenance, rows' = { rows with artifact, provenance }) ∧
    (∀ id r, rows'.artifact.find? id = some r ↔ rows.artifact.find? id = some r ∨
      ∃ artifact ∈ artifacts, artifact.artifactId = id ∧ r = artifact.row taskId) ∧
    (∀ id p, rows.provenance.find? id = some p → rows'.provenance.find? id = some p) ∧
    (∀ artifact ∈ artifacts, ∃ p,
      rows'.provenance.find? artifact.artifactId = some p ∧ artifact.IsProvenance codec p) ∧
    ∀ id, (rows'.provenance.find? id).isSome ↔ (rows.provenance.find? id).isSome ∨
      ∃ artifact ∈ artifacts, artifact.artifactId = id := by
  induction artifacts generalizing rows with
  | nil =>
    cases ok
    exact ⟨⟨_, _, rfl⟩, by simp, fun _ _ found => found, by simp, by simp⟩
  | cons first rest ih =>
    rw [List.map_cons, List.zip_cons_cons, List.foldlM_cons] at ok
    obtain ⟨middle, inserted, ok⟩ := bind_eq_ok.mp ok
    obtain ⟨p, isProvenance, noArtifact, noProvenance, rfl⟩ := insertArtifact_eq_ok inserted
    obtain ⟨⟨artifact, provenance, shape⟩, rowsAfter, kept, written, explained⟩ := ih ok
    have firstKept := kept first.artifactId p (by rw [OrderedMap.find?_insert, if_pos rfl])
    refine ⟨⟨artifact, provenance, shape⟩, fun id r => ?_, fun id q found => ?_,
      List.forall_mem_cons.mpr ⟨⟨p, firstKept, isProvenance⟩, written⟩, fun id => ?_⟩
    · rw [rowsAfter, find?_insert_new noArtifact, List.exists_mem_cons_iff, or_assoc]
    · exact kept id q ((find?_insert_new noProvenance).mpr (.inl found))
    · rw [explained, List.exists_mem_cons_iff, OrderedMap.find?_insert]
      split
      · next same => simp [same]
      · next other => simp [Ne.symm other]

/-- What a commit adds to the rows of a journal whose task is not committed yet. -/
theorem Recorded.recordCommit (recorded : Recorded codec allowed rows) {commit : TaskCommit}
    (allows : allowed commit) {now : String} {state : TaskState}
    (current : rows.requireTaskState commit.taskId = .ok state) (open_ : state ≠ .committed)
    (hashed : ∀ artifact ∈ commit.artifacts, codec.blake3 artifact.content = artifact.blake3)
    (ok : rows.recordCommit codec commit (commit.artifacts.map JournalArtifactInput.blob) now =
      .ok rows') :
    Recorded codec allowed rows' ∧ Lasts codec rows rows' ∧
      (∃ row, rows'.Committed commit.taskId row ∧ RowsOf codec rows' row commit) ∧
      ∀ id r, rows'.artifact.find? id = some r ↔ rows.artifact.find? id = some r ∨
        ∃ artifact ∈ commit.artifacts, artifact.artifactId = id ∧ r = artifact.row commit.taskId := by
  unfold JournalRows.recordCommit at ok
  obtain ⟨middle, inserted, ok⟩ := bind_eq_ok.mp ok
  obtain ⟨⟨artifact, provenance, rfl⟩, rowsAfter, kept, written, explained⟩ :=
    insertArtifacts_eq_ok inserted
  obtain ⟨last, hit, ok⟩ := bind_eq_ok.mp ok
  cases ok
  -- the cache hit adds one row under the task's own id
  have hits : ∃ cacheHit, last = { rows with artifact, provenance, cacheHit } ∧
      ∀ id, cacheHit.find? id =
        if id = commit.taskId ∧ commit.cacheHit.isSome then commit.cacheHit.map CacheHitRecord.row
        else rows.cacheHit.find? id := by
    cases given : commit.cacheHit with
    | none =>
      rw [given] at hit
      cases hit
      exact ⟨_, rfl, fun id => by simp⟩
    | some record =>
      rw [given] at hit
      obtain ⟨table, inserted, hit⟩ := bind_eq_ok.mp hit
      obtain ⟨-, rfl⟩ := insertRow_eq_ok.mp inserted
      cases hit
      refine ⟨_, rfl, fun id => ?_⟩
      rw [OrderedMap.find?_insert]
      simp
  obtain ⟨cacheHit, rfl, hits⟩ := hits
  obtain ⟨row, found, status⟩ := requireTaskState_eq_ok.mp current
  have notYet : ∀ old, ¬ rows.Committed commit.taskId old := by
    rintro old ⟨found', committed⟩
    rw [found] at found'
    cases found'
    exact open_ (taskStateName_injective (status.symm.trans committed))
  have noRows : ∀ id r, rows.artifact.find? id = some r → r.taskId ≠ commit.taskId := by
    intro id r found' same
    obtain ⟨old, committed⟩ := recorded.artifact id r found'
    exact notYet old (same ▸ committed)
  have noHit : rows.cacheHit.find? commit.taskId = none := by
    cases found' : rows.cacheHit.find? commit.taskId with
    | none => rfl
    | some old =>
      obtain ⟨old, committed⟩ := recorded.cacheHit _ _ found'
      exact absurd committed (notYet old)
  let written' : TaskRow :=
    { row with
      status := taskStateName .committed
      outputBlake3 := some (blake3Hex commit.outputBlake3)
      completedUtc := some now }
  have tasks : ∀ id, (updateRow rows.task commit.taskId fun row =>
      { row with
        status := taskStateName .committed
        outputBlake3 := some (blake3Hex commit.outputBlake3)
        completedUtc := some now }).find? id =
      if id = commit.taskId then some written' else rows.task.find? id := by
    intro id
    rw [find?_updateRow, found]
    rfl
  generalize updateRow rows.task commit.taskId _ = task at tasks
  have committedIff : ∀ id r, JournalRows.Committed { rows with artifact, provenance, cacheHit, task }
      id r ↔ (id = commit.taskId ∧ r = written') ∨ rows.Committed id r := by
    intro id r
    show task.find? id = some r ∧ _ ↔ _
    rw [tasks]
    split
    · next same =>
      subst same
      constructor
      · rintro ⟨same, -⟩
        exact .inl ⟨rfl, (Option.some.inj same).symm⟩
      · rintro (⟨-, rfl⟩ | committed)
        · exact ⟨rfl, rfl⟩
        · exact absurd committed (notYet r)
    · next other => exact (or_iff_right fun own => other own.1).symm
  have own : RowsOf codec { rows with artifact, provenance, cacheHit, task } written' commit := by
    refine ⟨rfl, hashed, fun id r => ?_, written, ?_⟩
    · constructor
      · rintro ⟨stored, task⟩
        exact ((rowsAfter id r).mp stored).resolve_left fun old => noRows id r old task
      · rintro ⟨artifact, mem, named, rfl⟩
        exact ⟨(rowsAfter id _).mpr (.inr ⟨artifact, mem, named, rfl⟩), rfl⟩
    · show cacheHit.find? commit.taskId = _
      rw [hits]
      cases given : commit.cacheHit with
      | none => simpa using noHit
      | some record => simp
  have lasts : Lasts codec rows { rows with artifact, provenance, cacheHit, task } := by
    refine ⟨fun id r before => (committedIff id r).mpr (.inr before), fun earlier r before rowsOf => ?_⟩
    have other : earlier.taskId ≠ commit.taskId := fun same => notYet r (same ▸ before)
    refine ⟨rowsOf.output, rowsOf.hashed, fun id r => ?_, fun artifact mem => ?_, ?_⟩
    · rw [← rowsOf.artifacts]
      refine and_congr_left fun task => ?_
      rw [rowsAfter]
      refine or_iff_left ?_
      rintro ⟨artifact, -, -, rfl⟩
      exact other task.symm
    · obtain ⟨p, stored, isProvenance⟩ := rowsOf.provenance artifact mem
      exact ⟨p, kept _ p stored, isProvenance⟩
    · show cacheHit.find? earlier.taskId = _
      rw [hits, if_neg fun both => other both.1]
      exact rowsOf.cacheHit
  refine ⟨⟨fun id r stored => ?_, fun id r committed => ?_, fun id r stored => ?_, fun id => ?_,
    fun id hit stored => ?_⟩, lasts, ⟨written', (committedIff _ _).mpr (.inl ⟨rfl, rfl⟩), own⟩,
    rowsAfter⟩
  · change task.find? id = some r at stored
    rw [tasks] at stored
    split at stored
    · cases stored
      exact ⟨⟨.committed, rfl⟩, (recorded.wellFormed _ row found).2⟩
    · exact recorded.wellFormed id r stored
  · rcases (committedIff id r).mp committed with ⟨rfl, rfl⟩ | before
    · exact ⟨commit, allows, rfl, own⟩
    · obtain ⟨earlier, allowsEarlier, rfl, rowsOf⟩ := recorded.committed id r before
      exact ⟨earlier, allowsEarlier, rfl, lasts.rowsOf earlier r before rowsOf⟩
  · rcases (rowsAfter id r).mp stored with old | ⟨artifact, -, -, rfl⟩
    · obtain ⟨row, committed⟩ := recorded.artifact id r old
      exact ⟨row, (committedIff _ row).mpr (.inr committed)⟩
    · exact ⟨written', (committedIff _ _).mpr (.inl ⟨rfl, rfl⟩)⟩
  · rw [explained, recorded.provenance, Option.isSome_iff_exists, Option.isSome_iff_exists]
    simp only [rowsAfter, exists_or]
    refine or_congr_right ⟨?_, ?_⟩
    · rintro ⟨artifact, mem, named⟩
      exact ⟨_, artifact, mem, named, rfl⟩
    · rintro ⟨-, artifact, mem, named, -⟩
      exact ⟨artifact, mem, named⟩
  · change cacheHit.find? id = some hit at stored
    rw [hits] at stored
    split at stored
    · next own => exact ⟨written', (committedIff id _).mpr (.inl ⟨own.1, rfl⟩)⟩
    · obtain ⟨row, committed⟩ := recorded.cacheHit id hit stored
      exact ⟨row, (committedIff id row).mpr (.inr committed)⟩

/-! ## Staging -/

section Blobs

variable {s t : Journal}

/-- `t` differs from `s` in `pending/` alone. -/
def OnlyPending (s t : Journal) : Prop := ∃ pending, t = { s with pending }

theorem discardAll_meets (staged : List StagedBlob) (only : OnlyPending s t) :
    Meets (discardAll staged) t (OnlyPending s) fun r u => r = .ok () ∧ OnlyPending s u := by
  have loop : Meets (discardAll staged) t (OnlyPending s) _ :=
    .forM (fun _ => OnlyPending s) (fun _ _ => False) only fun done blob rest u _ only => by
      obtain ⟨pending, rfl⟩ := only
      exact .write ⟨_, rfl⟩ ⟨_, rfl⟩
  refine loop.mono (fun u holds => holds) fun r u holds => ?_
  cases r with
  | ok _ => exact ⟨rfl, holds⟩
  | error e => exact holds.elim

/-- Removing staged files before a call ends with an error. -/
theorem discardAll_fails {α : Type} (staged : List StagedBlob) (only : OnlyPending s t)
    (code : JournalErrorCode) (message : String) {post : Except JournalFailure α → Journal → Prop}
    (holds : ∀ e u, OnlyPending s u → post (.error e) u) :
    Meets (discardAll staged >>= fun _ => failWith code message) t (OnlyPending s) post :=
  .andThen (discardAll_meets staged only) (fun _ u ended => .fail (holds _ u ended.2))
    (by rintro e u ⟨other, -⟩; cases other)

/-- What staging one blob returns, and the directory it leaves. -/
def Stages (codec : Codec) (s : Journal) (name : String) (bytes : Bytes) (expected : Blake3Digest) :
    Except JournalFailure StageResult → Journal → Prop
  | .ok (.staged blob), t =>
    blob = ⟨name, expected, bytes.length⟩ ∧ codec.blake3 bytes = expected ∧
      s.pending.find? name = none ∧
      t = { s with pending := s.pending.insert name (.regular bytes) }
  | .ok _, t => OnlyPending s t
  | .error _, _ => False

theorem stageBlobBytes_meets (codec : Codec) (s : Journal) (name : String) (bytes : Bytes) (expected : Blake3Digest) :
    Meets (stageBlobBytes codec name bytes expected) s (OnlyPending s)
      (Stages codec s name bytes expected) := by
  unfold stageBlobBytes
  refine .lookThen ?_
  split
  · exact .writeThen ⟨_, rfl⟩ (.ret ⟨_, rfl⟩)
  next fresh =>
  refine .writeThen ⟨_, rfl⟩ ?_
  unfold verifyStaged
  refine .lookThen ?_
  -- the file reads back as it was written
  have onDisk : (s.pending.insert name (.regular bytes)).find? name = some (.regular bytes) := by
    rw [OrderedMap.find?_insert, if_pos rfl]
  simp only [onDisk]
  split
  · exact .writeThen ⟨_, rfl⟩ (.ret ⟨_, rfl⟩)
  · next verified =>
    have expectedIs : expected = codec.blake3 bytes := by simpa using verified
    have absent : s.pending.find? name = none := by
      simpa [OrderedMap.contains] using fresh
    exact .ret ⟨by rw [expectedIs], expectedIs.symm, absent, rfl⟩

/-- The blob is the artifact's, and its pending file holds the artifact's bytes. -/
def Holds (codec : Codec) (pending : OrderedMap String BlobFile) (blob : StagedBlob)
    (artifact : JournalArtifactInput) : Prop :=
  pending.find? blob.pendingName = some (.regular artifact.content) ∧
    blob.digest = artifact.blake3 ∧ blob.bytes = artifact.content.length ∧
    codec.blake3 artifact.content = artifact.blake3

/-- The artifacts are staged, each in a pending file of its own. -/
structure Staged (codec : Codec) (pending : OrderedMap String BlobFile) (staged : List StagedBlob)
    (artifacts : List JournalArtifactInput) : Prop where
  distinct : (staged.map StagedBlob.pendingName).Nodup
  holds : List.Forall₂ (Holds codec pending) staged artifacts

/-- A pending file that no staged blob has does not matter to them. -/
theorem Staged.congr {pending pending' : OrderedMap String BlobFile} {staged : List StagedBlob}
    {artifacts : List JournalArtifactInput} (all : Staged codec pending staged artifacts)
    (same : ∀ blob ∈ staged, pending'.find? blob.pendingName = pending.find? blob.pendingName) :
    Staged codec pending' staged artifacts := by
  refine ⟨all.distinct, ?_⟩
  have holds := all.holds
  clear all
  induction holds with
  | nil => exact .nil
  | cons first rest ih =>
    refine .cons ⟨?_, first.2⟩ (ih fun blob mem => same blob (List.mem_cons_of_mem _ mem))
    rw [same _ List.mem_cons_self]
    exact first.1

theorem Staged.present {pending : OrderedMap String BlobFile} {staged : List StagedBlob}
    {artifacts : List JournalArtifactInput} (all : Staged codec pending staged artifacts)
    {blob : StagedBlob} (mem : blob ∈ staged) : pending.find? blob.pendingName ≠ none := by
  have holds := all.holds
  clear all
  induction holds with
  | nil => cases mem
  | cons first rest ih =>
    rcases List.mem_cons.mp mem with rfl | mem
    · rw [first.1]
      exact Option.some_ne_none _
    · exact ih mem

theorem Staged.concat {pending : OrderedMap String BlobFile} {staged : List StagedBlob}
    {artifacts : List JournalArtifactInput} (all : Staged codec pending staged artifacts)
    {artifact : JournalArtifactInput} {name : String} (fresh : pending.find? name = none)
    (hashed : codec.blake3 artifact.content = artifact.blake3) :
    Staged codec (pending.insert name (.regular artifact.content))
      (staged ++ [⟨name, artifact.blake3, artifact.content.length⟩]) (artifacts ++ [artifact]) := by
  have other : ∀ blob ∈ staged, blob.pendingName ≠ name := by
    intro blob mem same
    exact all.present mem (same ▸ fresh)
  have before : Staged codec (pending.insert name (.regular artifact.content)) staged artifacts :=
    all.congr fun blob mem => by rw [OrderedMap.find?_insert, if_neg (other blob mem)]
  constructor
  · rw [List.map_append, List.nodup_append]
    refine ⟨before.distinct, List.nodup_singleton _, fun a inBefore b last => ?_⟩
    obtain ⟨blob, mem, rfl⟩ := List.mem_map.mp inBefore
    rw [List.mem_singleton.mp last]
    exact other blob mem
  · refine List.rel_append before.holds (.cons ⟨?_, rfl, rfl, hashed⟩ .nil)
    rw [OrderedMap.find?_insert, if_pos rfl]

theorem stageArtifacts_meets (names : Nat → String) {rest done : List JournalArtifactInput}
    {staged : List StagedBlob} (only : OnlyPending s t)
    (all : Staged codec t.pending staged done) :
    Meets (stageArtifacts codec names rest staged) t (OnlyPending s) fun
      | .ok blobs => fun u => OnlyPending s u ∧ Staged codec u.pending blobs (done ++ rest)
      | .error _ => OnlyPending s := by
  induction rest generalizing t done staged with
  | nil =>
    rw [List.append_nil]
    exact .ret ⟨only, all⟩
  | cons artifact rest ih =>
    obtain ⟨pending, rfl⟩ := only
    have stage := stageBlobBytes_meets codec { s with pending }
      (names staged.length) artifact.content artifact.blake3
    have within : ∀ u, OnlyPending { s with pending } u → OnlyPending s u := by
      rintro u ⟨pending', rfl⟩
      exact ⟨pending', rfl⟩
    unfold stageArtifacts
    refine .andThen (stage.widen within) (fun result u post => ?_) fun e u post => post.elim
    cases result with
    | staged blob =>
      obtain ⟨rfl, hashed, fresh, rfl⟩ := post
      rw [List.append_cons]
      exact ih ⟨_, rfl⟩ (all.concat fresh hashed)
    | digestMismatch =>
      obtain ⟨pending', rfl⟩ := post
      exact discardAll_fails staged ⟨pending', rfl⟩ _ _ fun e u holds => holds
    | ioError message =>
      obtain ⟨pending', rfl⟩ := post
      exact discardAll_fails staged ⟨pending', rfl⟩ _ _ fun e u holds => holds

/-! ## Publishing -/

/-- The blob the row names is in the directory, with the recorded length and digest. -/
def Intact (codec : Codec) (completed : OrderedMap String BlobFile) (r : ArtifactRow) : Prop :=
  ∃ bytes, completed.find? r.blake3 = some (.regular bytes) ∧
    blake3Hex (codec.blake3 bytes) = r.blake3 ∧ r.byteLength = bytes.length

/-- The rows are as they were, and every verified blob of `completed/` is still there. -/
structure Grows (codec : Codec) (contents : Set Bytes) (s t : Journal) : Prop where
  rows : t.rows = s.rows
  filled : FilledFrom contents t.completed
  kept : ∀ name bytes, s.completed.find? name = some (.regular bytes) →
    blake3Hex (codec.blake3 bytes) = name → t.completed.find? name = some (.regular bytes)

theorem Grows.of_onlyPending (filled : FilledFrom contents s.completed) (only : OnlyPending s t) :
    Grows codec contents s t := by
  obtain ⟨pending, rfl⟩ := only
  exact ⟨rfl, filled, fun _ _ found _ => found⟩

theorem Grows.trans {u : Journal} (first : Grows codec contents s t)
    (second : Grows codec contents t u) : Grows codec contents s u :=
  ⟨second.rows.trans first.rows, second.filled, fun name bytes found named =>
    second.kept name bytes (first.kept name bytes found named) named⟩

theorem checkBlob_eq_valid {files : OrderedMap String BlobFile} {name : String}
    {expected : Blake3Digest} {expectedBytes : Nat} :
    checkBlob codec files name expected expectedBytes = .valid ↔
      ∃ bytes, files.find? name = some (.regular bytes) ∧ bytes.length = expectedBytes ∧
        codec.blake3 bytes = expected := by
  unfold checkBlob
  cases files.find? name with
  | none => simp
  | some file =>
    cases file with
    | regular bytes =>
      simp only [Option.some.injEq, BlobFile.regular.injEq, exists_eq_left', ne_eq]
      split_ifs <;> simp_all
    | directory => simp
    | special => simp

theorem publishStagedBlob_meets {blob : StagedBlob} {name : String} {file : BlobFile}
    (inPending : t.pending.find? blob.pendingName = some file) {cut : Journal → Prop}
    (onTheWay : cut { t with
      pending := t.pending.erase blob.pendingName, completed := t.completed.insert name file }) :
    Meets (publishStagedBlob blob name) t cut fun r u =>
      (∃ message, r = .ok (some message)) ∧ u = t ∨
      r = .ok none ∧ u = { t with
        pending := t.pending.erase blob.pendingName, completed := t.completed.insert name file } := by
  unfold publishStagedBlob
  refine .lookThen ?_
  rw [inPending]
  cases t.completed.find? name with
  | none => exact .writeThen onTheWay (.ret (.inr ⟨rfl, rfl⟩))
  | some old =>
    cases old with
    | directory => exact .ret (.inl ⟨⟨_, rfl⟩, rfl⟩)
    | regular _ => exact .writeThen onTheWay (.ret (.inr ⟨rfl, rfl⟩))
    | special => exact .writeThen onTheWay (.ret (.inr ⟨rfl, rfl⟩))

/-- One published or shared blob: the artifact's bytes are in `completed/`. -/
theorem publishOrShare_meets (apart : Set.InjOn codec.blake3 contents)
    (filled : FilledFrom contents t.completed) {blob : StagedBlob} {rest : List StagedBlob}
    {artifact : JournalArtifactInput} {artifacts : List JournalArtifactInput}
    (all : Staged codec t.pending (blob :: rest) (artifact :: artifacts))
    (known : artifact.content ∈ contents) :
    Meets (publishOrShare codec blob rest) t (Grows codec contents t) fun
      | .ok _ => fun u => Grows codec contents t u ∧ Staged codec u.pending rest artifacts ∧
          u.completed.find? (blake3Hex artifact.blake3) = some (.regular artifact.content)
      | .error _ => Grows codec contents t := by
  obtain ⟨⟨inPending, digest, bytes, hashed⟩, others⟩ := List.forall₂_cons.mp all.holds
  obtain ⟨apartFrom, distinct⟩ := List.nodup_cons.mp all.distinct
  have later : Staged codec (t.pending.erase blob.pendingName) rest artifacts := by
    refine Staged.congr ⟨distinct, others⟩ fun other mem => ?_
    rw [OrderedMap.find?_erase, if_neg]
    intro same
    exact apartFrom (same ▸ List.mem_map_of_mem mem)
  have sameBytes : ∀ found ∈ contents, codec.blake3 found = artifact.blake3 →
      found = artifact.content :=
    fun found mem same => apart mem known (same.trans hashed.symm)
  unfold publishOrShare
  refine .lookThen ?_
  rw [digest, bytes]
  split
  · next valid =>
    obtain ⟨found, stored, -, same⟩ := checkBlob_eq_valid.mp valid
    have shared := sameBytes found (filled _ found stored) same
    exact .write (.of_onlyPending filled ⟨_, rfl⟩)
      ⟨.of_onlyPending filled ⟨_, rfl⟩, later, shared ▸ stored⟩
  · have published : Grows codec contents t { t with
        pending := t.pending.erase blob.pendingName
        completed := t.completed.insert (blake3Hex artifact.blake3) (.regular artifact.content) } := by
      refine ⟨rfl, fun name found stored => ?_, fun name found stored named => ?_⟩
      · change (t.completed.insert _ _).find? name = _ at stored
        rw [OrderedMap.find?_insert] at stored
        split at stored
        · cases stored
          exact known
        · exact filled name found stored
      · show (t.completed.insert _ _).find? name = _
        rw [OrderedMap.find?_insert]
        split
        · next same =>
          have digestIs := blake3Hex_injective (named.trans same)
          rw [sameBytes found (filled name found stored) digestIs]
        · exact stored
    refine .andThen (publishStagedBlob_meets inPending published) (fun result u post => ?_)
      fun e u post => ?_
    · rcases post with ⟨⟨message, failed⟩, rfl⟩ | ⟨renamed, rfl⟩
      · cases failed
        refine (discardAll_fails (blob :: rest) ⟨_, rfl⟩ _ _
          fun e u only => Grows.of_onlyPending filled only).mono (fun u only => ?_) fun r u post => post
        exact .of_onlyPending filled only
      · cases renamed
        exact .ret ⟨published, later, by rw [OrderedMap.find?_insert, if_pos rfl]⟩
    · rcases post with ⟨⟨message, failed⟩, -⟩ | ⟨renamed, -⟩
      · cases failed
      · cases renamed

/-- The artifacts verified, and their bytes in `completed/` under their digests. -/
def AreStored (codec : Codec) (completed : OrderedMap String BlobFile)
    (artifacts : List JournalArtifactInput) : Prop :=
  ∀ artifact ∈ artifacts, codec.blake3 artifact.content = artifact.blake3 ∧
    completed.find? (blake3Hex artifact.blake3) = some (.regular artifact.content)

theorem publishArtifacts_meets (apart : Set.InjOn codec.blake3 contents)
    (filled : FilledFrom contents t.completed) {staged : List StagedBlob}
    {artifacts : List JournalArtifactInput} (all : Staged codec t.pending staged artifacts)
    (known : ∀ artifact ∈ artifacts, artifact.content ∈ contents) :
    Meets (publishArtifacts codec staged) t (Grows codec contents t) fun
      | .ok blobs => fun u => Grows codec contents t u ∧ AreStored codec u.completed artifacts ∧
          blobs = artifacts.map JournalArtifactInput.blob
      | .error _ => Grows codec contents t := by
  induction staged generalizing t artifacts with
  | nil =>
    obtain rfl := List.forall₂_nil_left_iff.mp all.holds
    exact .ret ⟨.of_onlyPending filled ⟨_, rfl⟩, List.forall_mem_nil _, rfl⟩
  | cons blob rest ih =>
    obtain ⟨artifact, artifacts, holds, -, rfl⟩ := List.forall₂_cons_left_iff.mp all.holds
    obtain ⟨knownFirst, knownRest⟩ := List.forall_mem_cons.mp known
    unfold publishArtifacts
    refine .andThen (publishOrShare_meets apart filled all knownFirst) (fun _ u first => ?_)
      fun e u stopped => stopped
    obtain ⟨grows, later, stored⟩ := first
    have loop := ih grows.filled later knownRest
    refine .andThen (loop.widen fun v next => grows.trans next) (fun blobs v post => ?_) fun e v stopped => grows.trans stopped
    obtain ⟨next, storedRest, rfl⟩ := post
    have lasting := next.kept _ _ stored (congrArg blake3Hex holds.2.2.2)
    refine .ret ⟨grows.trans next,
      List.forall_mem_cons.mpr ⟨⟨holds.2.2.2, lasting⟩, storedRest⟩, ?_⟩
    rw [List.map_cons, holds.2.1, holds.2.2.1]
    rfl

theorem storeTaskArtifacts_meets (apart : Set.InjOn codec.blake3 contents)
    (filled : FilledFrom contents s.completed) (names : Nat → String)
    {artifacts : List JournalArtifactInput}
    (known : ∀ artifact ∈ artifacts, artifact.content ∈ contents) :
    Meets (storeTaskArtifacts codec names artifacts) s (Grows codec contents s) fun
      | .ok blobs => fun u => Grows codec contents s u ∧ AreStored codec u.completed artifacts ∧
          blobs = artifacts.map JournalArtifactInput.blob
      | .error _ => Grows codec contents s := by
  have nothing : Staged codec s.pending [] [] := ⟨List.nodup_nil, .nil⟩
  have stage : Meets (stageArtifacts codec names artifacts []) s (OnlyPending s) _ :=
    stageArtifacts_meets names ⟨_, rfl⟩ nothing
  unfold storeTaskArtifacts
  refine .andThen (stage.widen fun u only => .of_onlyPending filled only) (fun staged u post => ?_) fun e u only => .of_onlyPending filled only
  obtain ⟨only, all⟩ := post
  have grows : Grows codec contents s u := .of_onlyPending filled only
  refine (publishArtifacts_meets apart grows.filled all known).mono (fun v next => grows.trans next)
    fun r v post => ?_
  cases r with
  | ok blobs => exact ⟨grows.trans post.1, post.2⟩
  | error e => exact grows.trans post

/-! ## The commit as a whole -/

/-- What a commit that returned has done: stored its artifacts, then recorded its rows. -/
structure CommitDone (codec : Codec) (contents : Set Bytes) (commit : TaskCommit) (now : String)
    (s t : Journal) : Prop where
  received : s.rows.requireTaskState commit.taskId = .ok .resultReceived
  stored : AreStored codec t.completed commit.artifacts
  recorded : s.rows.recordCommit codec commit
    (commit.artifacts.map JournalArtifactInput.blob) now = .ok t.rows
  filled : FilledFrom contents t.completed
  kept : ∀ name bytes, s.completed.find? name = some (.regular bytes) →
    blake3Hex (codec.blake3 bytes) = name → t.completed.find? name = some (.regular bytes)

theorem transaction_meets {change : JournalRows → Except JournalFailure JournalRows}
    {cut : Journal → Prop} {post : Except JournalFailure Unit → Journal → Prop}
    (done : ∀ rows, change s.rows = .ok rows → cut { s with rows } ∧ post (.ok ()) { s with rows })
    (failed : ∀ e, change s.rows = .error e → post (.error e) s) :
    Meets (transaction change) s cut post := by
  unfold transaction
  refine .lookThen (.checkThen (fun rows ok => ?_) fun e error => failed e error)
  exact .write (done rows ok).1 (done rows ok).2

/-- Cut off anywhere, a commit has either changed no row or done everything; an error has
changed no row. -/
theorem commitTask_meets (apart : Set.InjOn codec.blake3 contents)
    (filled : FilledFrom contents s.completed) (names : Nat → String) (now : String)
    {commit : TaskCommit} (known : ∀ artifact ∈ commit.artifacts, artifact.content ∈ contents) :
    Meets (commitTask codec names now commit) s
      (fun t => Grows codec contents s t ∨ CommitDone codec contents commit now s t) fun
      | .ok _ => CommitDone codec contents commit now s
      | .error _ => Grows codec contents s := by
  have unchanged : Grows codec contents s s := .of_onlyPending filled ⟨_, rfl⟩
  unfold commitTask
  refine .checkThen (fun _ _ => .lookThen (.checkThen (fun state received => ?_)
    fun e _ => unchanged)) fun e _ => unchanged
  split
  · exact .fail unchanged
  · next isReceived =>
    obtain rfl := not_not.mp isReceived
    have store := storeTaskArtifacts_meets apart filled names known
    refine .andThen (store.widen fun u grows => .inl grows) (fun blobs u post => ?_) fun e u grows => grows
    obtain ⟨grows, stored, rfl⟩ := post
    refine transaction_meets (fun rows ok => ?_) fun e _ => grows
    rw [grows.rows] at ok
    have done : CommitDone codec contents commit now s { u with rows } :=
      ⟨received, stored, ok, grows.filled, grows.kept⟩
    exact ⟨.inr done, done⟩

end Blobs

end Svp.Exec

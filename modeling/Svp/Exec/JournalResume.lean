import Svp.Exec.JournalCommit

/-!
# What a resume leaves

`resume` clears `pending/`, verifies every committed task in one transaction, and then
clears `completed/` of what no row names. The transaction is the only part that decides:
`Resumes` says which tasks stay committed, which rows stay, and where every other task
restarts. A resume cut off at any point can be started again, and then leaves what it would
have left (`resume_again`).
-/

namespace Svp.Exec

open Lib (OrderedMap Durable System)
open Lib.Durable (Meets)

variable {codec : Codec} {allowed : TaskCommit → Prop} {contents : Set Bytes}

/-! ## Clearing the directories -/

theorem discardPending_meets (s : Journal) :
    Meets discardPending s (OnlyPending s) fun r t =>
      (∃ n, r = .ok n) ∧ t = { s with pending := .empty } := by
  unfold discardPending
  refine .lookThen ?_
  have loop : Meets (s.pending.entries.forM fun entry => discardStagedBlob entry.1) s
      (OnlyPending s) _ :=
    .forM (fun done t => ∃ pending, t = { s with pending } ∧
      ∀ entry ∈ pending.entries, entry ∈ s.pending.entries ∧ entry.1 ∉ done.map Prod.fst)
      (fun _ _ => False) ⟨s.pending, rfl, fun entry mem => ⟨mem, List.not_mem_nil⟩⟩
    (fun done entry rest t _ holds => by
      obtain ⟨pending, rfl, left⟩ := holds
      refine .write ⟨_, rfl⟩ ⟨_, rfl, fun other mem => ?_⟩
      obtain ⟨otherKey, mem⟩ := OrderedMap.mem_erase.mp mem
      obtain ⟨given, notDone⟩ := left other mem
      refine ⟨given, ?_⟩
      rw [List.map_append, List.mem_append, not_or]
      exact ⟨notDone, fun last => otherKey (List.mem_singleton.mp last)⟩)
  refine .andThen loop (fun _ t post => ?_) fun e t post => post.elim
  obtain ⟨pending, rfl, left⟩ := post
  have empty : pending = .empty := by
    refine OrderedMap.ext_entries (List.eq_nil_iff_forall_not_mem.mpr fun entry mem => ?_)
    obtain ⟨given, notDone⟩ := left entry mem
    exact notDone (List.mem_map_of_mem given)
  exact .ret ⟨⟨_, rfl⟩, by rw [empty]⟩

/-- Part of what no row names is gone from `completed/`. -/
def Swept (rows : JournalRows) (before after : OrderedMap String BlobFile) : Prop :=
  ∀ name, (isReferenced rows name = true → after.find? name = before.find? name) ∧
    (after.find? name = none ∨ after.find? name = before.find? name)

/-- What rows name. -/
def referencedOnly (rows : JournalRows) (completed : OrderedMap String BlobFile) :
    OrderedMap String BlobFile :=
  completed.filter fun name _ => isReferenced rows name

theorem find?_referencedOnly (rows : JournalRows) (completed : OrderedMap String BlobFile)
    (name : String) : (referencedOnly rows completed).find? name =
      if isReferenced rows name then completed.find? name else none := by
  unfold referencedOnly
  rw [OrderedMap.find?_filter]
  cases completed.find? name with
  | none => rw [Option.filter_none, ite_self]
  | some file => rw [Option.filter_some]

theorem Swept.referencedOnly {rows : JournalRows} {before after : OrderedMap String BlobFile}
    (swept : Swept rows before after) : referencedOnly rows after = referencedOnly rows before := by
  refine OrderedMap.ext_find? fun name => ?_
  rw [find?_referencedOnly, find?_referencedOnly]
  split
  · next named => exact (swept name).1 named
  · rfl

theorem discardUnreferencedCompleted_meets (s : Journal) :
    Meets discardUnreferencedCompleted s
      (fun t => ∃ completed, t = { s with completed } ∧ Swept s.rows s.completed completed)
      fun r t => (∃ n, r = .ok n) ∧
        t = { s with completed := referencedOnly s.rows s.completed } := by
  unfold discardUnreferencedCompleted
  refine .lookThen ?_
  have sweptOf : ∀ (done : List (String × BlobFile)) (completed : OrderedMap String BlobFile),
      (∀ entry ∈ done, isReferenced s.rows entry.1 = false) →
      (∀ name, completed.find? name =
        if name ∈ done.map Prod.fst then none else s.completed.find? name) →
      Swept s.rows s.completed completed := by
    intro done completed unreferenced found name
    rw [found]
    split
    · next gone =>
      obtain ⟨entry, mem, rfl⟩ := List.mem_map.mp gone
      have unnamed := unreferenced entry mem
      exact ⟨fun named => absurd (unnamed.symm.trans named) Bool.false_ne_true, .inl rfl⟩
    · exact ⟨fun _ => rfl, .inr rfl⟩
  have loop : Meets ((s.completed.entries.filter fun entry => !isReferenced s.rows entry.1).forM
      fun entry => Lib.Durable.write (ε := JournalFailure) fun journal : Journal =>
        { journal with completed := journal.completed.erase entry.1 }) s
      (fun t => ∃ completed, t = { s with completed } ∧ Swept s.rows s.completed completed) _ :=
    .forM (fun done t => ∃ completed, t = { s with completed } ∧
      ∀ name, completed.find? name =
        if name ∈ done.map Prod.fst then none else s.completed.find? name)
      (fun _ _ => False)
      ⟨s.completed, rfl, fun name => by rw [List.map_nil, if_neg List.not_mem_nil]⟩
    (fun done entry rest t whole holds => by
      obtain ⟨completed, rfl, found⟩ := holds
      have next : ∀ name, (completed.erase entry.1).find? name =
          if name ∈ (done ++ [entry]).map Prod.fst then none else s.completed.find? name := by
        intro name
        rw [OrderedMap.find?_erase, found]
        simp only [List.map_append, List.mem_append, List.map_cons, List.map_nil, List.mem_singleton]
        split_ifs <;> simp_all
      refine .write ⟨_, rfl, sweptOf (done ++ [entry]) _ (fun other mem => ?_) next⟩ ⟨_, rfl, next⟩
      have inList : other ∈ s.completed.entries.filter fun entry => !isReferenced s.rows entry.1 := by
        rw [whole, List.append_cons]
        exact List.mem_append_left _ mem
      simpa using (List.mem_filter.mp inList).2)
  refine .andThen loop (fun _ t post => ?_) fun e t post => post.elim
  obtain ⟨completed, rfl, found⟩ := post
  refine .ret ⟨⟨_, rfl⟩, ?_⟩
  have swept : completed = referencedOnly s.rows s.completed := by
    refine OrderedMap.ext_find? fun name => ?_
    rw [found, find?_referencedOnly]
    cases stored : s.completed.find? name with
    | none => rw [ite_self, ite_self]
    | some file =>
      have listed : name ∈ ((s.completed.entries.filter fun entry =>
          !isReferenced s.rows entry.1).map Prod.fst) ↔ isReferenced s.rows name = false := by
        constructor
        · intro gone
          obtain ⟨entry, mem, rfl⟩ := List.mem_map.mp gone
          simpa using (List.mem_filter.mp mem).2
        · intro unnamed
          exact List.mem_map.mpr ⟨(name, file), List.mem_filter.mpr
            ⟨OrderedMap.find?_eq_some.mp stored, by simpa using unnamed⟩, rfl⟩
      simp only [listed]
      cases isReferenced s.rows name <;> rfl
  rw [swept]

/-! ## The resume as a whole -/

/-- The state a resume that returned leaves. -/
def ResumeDone (codec : Codec) (sources : List SourceFingerprintRecord) (s : Journal)
    (report : ResumeReport) (t : Journal) : Prop :=
  verifySources s.rows sources = .ok () ∧
    ∃ rows abandoned, resumeRows codec s.buildSessionId s.rows s.completed =
        .ok (rows, report.demoted, report.tasks, abandoned) ∧
      t = { s with rows, pending := .empty, completed := referencedOnly rows s.completed }

/-- A state a resume passes through: before its transaction, or after it. -/
def ResumeCut (codec : Codec) (sources : List SourceFingerprintRecord) (s t : Journal) : Prop :=
  OnlyPending s t ∨ verifySources s.rows sources = .ok () ∧
    ∃ rows rest completed, resumeRows codec s.buildSessionId s.rows s.completed = .ok (rows, rest) ∧
      t = { s with rows, pending := .empty, completed } ∧ Swept rows s.completed completed

theorem resume_meets (codec : Codec) (sources : List SourceFingerprintRecord) (s : Journal) :
    Meets (resume codec sources) s (ResumeCut codec sources s) fun
      | .ok report => ResumeDone codec sources s report
      | .error _ => fun t => OnlyPending s t ∧ ¬ (verifySources s.rows sources = .ok () ∧
          ∃ done, resumeRows codec s.buildSessionId s.rows s.completed = .ok done) := by
  unfold resume
  refine .lookThen (.checkThen (fun _ verified => ?_) fun e failed => ?_)
  · have clear := discardPending_meets s
    refine .andThen (clear.widen fun t only => .inl only) (fun count t post => ?_) fun e t post => ?_
    · obtain ⟨-, rfl⟩ := post
      refine .lookThen (.checkThen (fun done ran => ?_) fun e failed => ?_)
      · obtain ⟨rows, demoted, tasks, abandoned⟩ := done
        refine .writeThen (.inr ⟨verified, rows, _, s.completed, ran, rfl, fun name => ?_⟩) ?_
        · exact ⟨fun _ => rfl, .inr rfl⟩
        have sweep := discardUnreferencedCompleted_meets { s with rows, pending := .empty }
        have within : ∀ u, (∃ completed, u = { s with rows, pending := .empty, completed } ∧
            Swept rows s.completed completed) → ResumeCut codec sources s u := by
          rintro u ⟨completed, same, swept⟩
          exact .inr ⟨verified, rows, _, completed, ran, same, swept⟩
        refine .andThen (sweep.widen within) (fun removed u post => ?_) fun e u post => ?_
        · exact .ret ⟨verified, rows, abandoned, ran, post.2⟩
        · obtain ⟨⟨n, other⟩, -⟩ := post
          cases other
      · refine ⟨⟨_, rfl⟩, fun both => ?_⟩
        obtain ⟨done, ran⟩ := both.2
        rw [ran] at failed
        cases failed
    · obtain ⟨⟨n, other⟩, -⟩ := post
      cases other
  · refine ⟨⟨s.pending, rfl⟩, fun both => ?_⟩
    rw [both.1] at failed
    cases failed

/-! ## Verifying the artifacts -/

section Verify

variable {completed : OrderedMap String BlobFile} {rows : JournalRows} {results : VerifierResults}

theorem journalCompletedRelativePath_injective :
    Function.Injective journalCompletedRelativePath := by
  intro a b same
  exact (String.append_right_inj kCompletedRelativeDir).mp same

/-- What verifying the artifact finds. -/
def verdict (codec : Codec) (completed : OrderedMap String BlobFile)
    (artifact : JournalArtifactInput) : Option DemotionReason :=
  demotionFor (checkBlob codec completed (blake3Hex artifact.blake3) artifact.blake3
    artifact.content.length)

theorem demotionFor_eq_none {result : BlobCheck} : demotionFor result = none ↔ result = .valid := by
  cases result <;> simp [demotionFor]

theorem verdict_eq_none {artifact : JournalArtifactInput} {taskId : String} :
    verdict codec completed artifact = none ↔ Intact codec completed (artifact.row taskId) := by
  unfold verdict Intact
  rw [demotionFor_eq_none, checkBlob_eq_valid]
  refine exists_congr fun bytes => and_congr_right fun _ => ?_
  show _ ↔ blake3Hex _ = blake3Hex _ ∧ (artifact.content.length : Int) = bytes.length
  rw [blake3Hex_injective.eq_iff, Nat.cast_inj, and_comm, eq_comm (a := bytes.length)]

/-- An artifact whose bytes are among `contents` and hash to its digest. -/
def Genuine (codec : Codec) (contents : Set Bytes) (artifact : JournalArtifactInput) : Prop :=
  artifact.content ∈ contents ∧ codec.blake3 artifact.content = artifact.blake3

/-- What the verifier remembers is what it would find again. -/
def ResultsRight (codec : Codec) (contents : Set Bytes) (completed : OrderedMap String BlobFile)
    (results : VerifierResults) : Prop :=
  ∀ artifact, Genuine codec contents artifact → ∀ found,
    results.find? (journalCompletedRelativePath (blake3Hex artifact.blake3)) = some found →
    found = verdict codec completed artifact

/-- One digest, one content: the verdict goes by the path alone. -/
theorem verdict_of_path (apart : Set.InjOn codec.blake3 contents) {a b : JournalArtifactInput}
    (genuineA : Genuine codec contents a) (genuineB : Genuine codec contents b)
    (path : journalCompletedRelativePath (blake3Hex a.blake3) =
      journalCompletedRelativePath (blake3Hex b.blake3)) :
    verdict codec completed a = verdict codec completed b := by
  have digests := blake3Hex_injective (journalCompletedRelativePath_injective path)
  have bytes := apart genuineA.1 genuineB.1 ((genuineA.2.trans digests).trans genuineB.2.symm)
  unfold verdict
  rw [digests, bytes]

theorem checkArtifact_row (apart : Set.InjOn codec.blake3 contents)
    (right : ResultsRight codec contents completed results) {artifact : JournalArtifactInput}
    (genuine : Genuine codec contents artifact) (taskId : String) :
    (checkArtifact codec completed results (artifact.row taskId)).1 =
        verdict codec completed artifact ∧
      ResultsRight codec contents completed
        (checkArtifact codec completed results (artifact.row taskId)).2 := by
  have parsed : parseBlake3Hex (artifact.row taskId).blake3 = some artifact.blake3 :=
    parseBlake3Hex_blake3Hex artifact.blake3
  have valid : ¬ ((artifact.row taskId).byteLength < 0 ∨ (artifact.row taskId).relativePath ≠
      journalCompletedRelativePath (artifact.row taskId).blake3) := by
    simp [JournalArtifactInput.row]
  unfold checkArtifact
  simp only [parsed, if_neg valid]
  cases cached : results.find? (artifact.row taskId).relativePath with
  | some found => exact ⟨right artifact genuine found cached, right⟩
  | none =>
    refine ⟨rfl, fun other genuineOther found stored => ?_⟩
    rw [OrderedMap.find?_insert] at stored
    split at stored
    · next same =>
      cases stored
      exact (verdict_of_path apart genuineOther genuine same).symm
    · exact right other genuineOther found stored

/-- The loop over one task's artifacts fails where one of them is not intact. -/
theorem checkArtifacts_row (apart : Set.InjOn codec.blake3 contents)
    (right : ResultsRight codec contents completed results) {l : List (String × ArtifactRow)}
    (genuine : ∀ entry ∈ l, ∃ artifact taskId, Genuine codec contents artifact ∧
      entry.2 = artifact.row taskId) :
    ((checkArtifacts codec completed l results).1 = none ↔
        ∀ entry ∈ l, Intact codec completed entry.2) ∧
      ResultsRight codec contents completed (checkArtifacts codec completed l results).2 := by
  induction l generalizing results with
  | nil => exact ⟨by simp [checkArtifacts], right⟩
  | cons entry rest ih =>
    obtain ⟨artifactId, row⟩ := entry
    obtain ⟨⟨artifact, taskId, genuineFirst, isRow⟩, genuineRest⟩ := List.forall_mem_cons.mp genuine
    obtain rfl : row = artifact.row taskId := isRow
    obtain ⟨found, next⟩ := checkArtifact_row apart right genuineFirst taskId
    rw [List.forall_mem_cons, ← verdict_eq_none, ← found]
    unfold checkArtifacts
    generalize checkArtifact codec completed results (artifact.row taskId) = outcome at next ⊢
    cases outcome with
    | mk reason results =>
      cases reason with
      | some reason => exact ⟨by simp, next⟩
      | none =>
        obtain ⟨restFound, restRight⟩ := ih next genuineRest
        exact ⟨by simpa using restFound, restRight⟩

/-! ## Demoting the tasks that fail -/

/-- Demoting a committed task takes away its rows and nothing else. -/
theorem Recorded.demoteTask (recorded : Recorded codec allowed rows) {id : String} {row : TaskRow}
    (committed : rows.Committed id row) :
    Recorded codec allowed (demoteTask rows id) ∧
      (∀ id' row', (Exec.demoteTask rows id).Committed id' row' ↔
        rows.Committed id' row' ∧ id' ≠ id) ∧
      ∀ a r, (Exec.demoteTask rows id).artifact.find? a = some r ↔
        rows.artifact.find? a = some r ∧ r.taskId ≠ id := by
  have tasks : ∀ id', (Exec.demoteTask rows id).task.find? id' =
      if id' = id then
        some { row with status := taskStateName .planned, outputBlake3 := none, completedUtc := none }
      else rows.task.find? id' := by
    intro id'
    show (updateRow rows.task id _).find? id' = _
    rw [find?_updateRow, committed.1]
    rfl
  have committedIff : ∀ id' row', (Exec.demoteTask rows id).Committed id' row' ↔
      rows.Committed id' row' ∧ id' ≠ id := by
    intro id' row'
    unfold JournalRows.Committed
    rw [tasks]
    split
    · next same =>
      refine iff_of_false ?_ fun both => both.2 same
      rintro ⟨same, status⟩
      cases same
      have planned : taskStateName .planned ≠ taskStateName .committed := by decide
      exact absurd status planned
    · next other => exact (and_iff_left other).symm
  have artifacts : ∀ a r, (Exec.demoteTask rows id).artifact.find? a = some r ↔
      rows.artifact.find? a = some r ∧ r.taskId ≠ id := by
    intro a r
    show (rows.artifact.filter _).find? a = _ ↔ _
    rw [OrderedMap.find?_filter, Option.filter_eq_some_iff, decide_eq_true_iff]
  have provenance : ∀ a p, (Exec.demoteTask rows id).provenance.find? a = some p ↔
      rows.provenance.find? a = some p ∧ ∀ r, rows.artifact.find? a = some r → r.taskId ≠ id := by
    intro a p
    show (rows.provenance.filter _).find? a = _ ↔ _
    rw [OrderedMap.find?_filter, Option.filter_eq_some_iff]
    cases rows.artifact.find? a <;> simp
  have hits : ∀ id', (Exec.demoteTask rows id).cacheHit.find? id' =
      if id' = id then none else rows.cacheHit.find? id' :=
    fun id' => OrderedMap.find?_erase rows.cacheHit id id'
  refine ⟨⟨fun id' row' found => ?_, fun id' row' still => ?_, fun a r found => ?_, fun a => ?_,
    fun id' hit found => ?_⟩, committedIff, artifacts⟩
  · rw [tasks] at found
    split at found
    · cases found
      exact ⟨⟨.planned, rfl⟩, (recorded.wellFormed id row committed.1).2⟩
    · exact recorded.wellFormed id' row' found
  · obtain ⟨before, other⟩ := (committedIff id' row').mp still
    obtain ⟨commit, allows, rfl, rowsOf⟩ := recorded.committed id' row' before
    refine ⟨commit, allows, rfl, rowsOf.output, rowsOf.hashed, fun a r => ?_,
      fun artifact mem => ?_, ?_⟩
    · rw [artifacts, ← rowsOf.artifacts, and_assoc]
      refine and_congr_right fun _ => and_iff_right_of_imp fun task => ?_
      exact task ▸ other
    · obtain ⟨p, found, isProvenance⟩ := rowsOf.provenance artifact mem
      refine ⟨p, (provenance _ p).mpr ⟨found, fun r stored => ?_⟩, isProvenance⟩
      obtain ⟨own, task⟩ := (rowsOf.artifacts artifact.artifactId _).mpr ⟨artifact, mem, rfl, rfl⟩
      rw [own] at stored
      cases stored
      exact task ▸ other
    · rw [hits, if_neg other]
      exact rowsOf.cacheHit
  · obtain ⟨before, other⟩ := (artifacts a r).mp found
    obtain ⟨owner, owned⟩ := recorded.artifact a r before
    exact ⟨owner, (committedIff _ owner).mpr ⟨owned, other⟩⟩
  · rw [Option.isSome_iff_exists, Option.isSome_iff_exists]
    simp only [provenance, artifacts]
    have both := recorded.provenance a
    rw [Option.isSome_iff_exists, Option.isSome_iff_exists] at both
    constructor
    · rintro ⟨p, found, others⟩
      obtain ⟨r, stored⟩ := both.mp ⟨p, found⟩
      exact ⟨r, stored, others r stored⟩
    · rintro ⟨r, stored, other⟩
      obtain ⟨p, found⟩ := both.mpr ⟨r, stored⟩
      refine ⟨p, found, fun r' stored' => ?_⟩
      rw [stored] at stored'
      cases stored'
      exact other
  · rw [hits] at found
    split at found
    · cases found
    · next other =>
      obtain ⟨owner, owned⟩ := recorded.cacheHit id' hit found
      exact ⟨owner, (committedIff _ owner).mpr ⟨owned, other⟩⟩

/-- Some artifact the task recorded is not intact. -/
def Failing (codec : Codec) (completed : OrderedMap String BlobFile) (rows : JournalRows)
    (taskId : String) : Prop :=
  ∃ a r, rows.artifact.find? a = some r ∧ r.taskId = taskId ∧ ¬ Intact codec completed r

/-- After the tasks `done` are verified: of these the failing ones are demoted. -/
structure Verified (codec : Codec) (allowed : TaskCommit → Prop) (contents : Set Bytes)
    (completed : OrderedMap String BlobFile) (rows : JournalRows) (done : List String)
    (state : JournalRows × VerifierResults × List DemotedTask) : Prop where
  recorded : Recorded codec allowed state.1
  right : ResultsRight codec contents completed state.2.1
  committed : ∀ id row, state.1.Committed id row ↔
    rows.Committed id row ∧ (id ∈ done → ¬ Failing codec completed rows id)
  artifact : ∀ a r, state.1.artifact.find? a = some r ↔
    rows.artifact.find? a = some r ∧ (r.taskId ∈ done → ¬ Failing codec completed rows r.taskId)
  demoted : ∀ id, id ∈ state.2.2.map DemotedTask.taskId ↔
    id ∈ done ∧ Failing codec completed rows id
  tasks : ∀ id, (state.1.task.find? id).isSome ↔ (rows.task.find? id).isSome
  /-- Where nothing fails nothing changes. -/
  same : (∀ id ∈ done, ¬ Failing codec completed rows id) → state.1 = rows
  /-- Sources, sessions, attempts and dependencies are left alone. -/
  beside : ∃ task artifact provenance cacheHit,
    state.1 = { rows with task, artifact, provenance, cacheHit }

theorem verifyCommittedTask_verified (apart : Set.InjOn codec.blake3 contents)
    (known : ∀ commit, allowed commit → ∀ artifact ∈ commit.artifacts, artifact.content ∈ contents)
    {done : List String} {state : JournalRows × VerifierResults × List DemotedTask}
    (verified : Verified codec allowed contents completed rows done state)
    {task : String × TaskRow} (committed : rows.Committed task.1 task.2) (new : task.1 ∉ done) :
    Verified codec allowed contents completed rows (done ++ [task.1])
      (verifyCommittedTask codec completed state task) := by
  obtain ⟨now, results, demoted⟩ := state
  obtain ⟨id, row⟩ := task
  have still : now.Committed id row := (verified.committed id row).mpr ⟨committed, fun old => (new old).elim⟩
  obtain ⟨commit, -, rfl, rowsOf⟩ := verified.recorded.committed id row still
  have output : row.outputBlake3.isNone = false := by rw [rowsOf.output]; rfl
  -- the rows read are those the task had at the start
  have entry : ∀ e, e ∈ now.artifact.entries.filter (fun artifact => artifact.2.taskId = commit.taskId) ↔
      rows.artifact.find? e.1 = some e.2 ∧ e.2.taskId = commit.taskId := by
    intro e
    rw [List.mem_filter, decide_eq_true_iff, ← OrderedMap.find?_eq_some, verified.artifact, and_assoc]
    refine and_congr_right fun _ => and_iff_right_of_imp fun own old => ?_
    exact (new (own ▸ old)).elim
  have loop := checkArtifacts_row apart verified.right
    (l := now.artifact.entries.filter fun artifact => artifact.2.taskId = commit.taskId)
    fun e mem => by
      obtain ⟨source, allows, artifact, inCommit, -, isRow, hashed⟩ := verified.recorded.source
        (OrderedMap.find?_eq_some.mpr (List.mem_filter.mp mem).1)
      exact ⟨artifact, _, ⟨known source allows artifact inCommit, hashed⟩, isRow⟩
  have passes : (∀ e ∈ now.artifact.entries.filter
      (fun artifact => artifact.2.taskId = commit.taskId), Intact codec completed e.2) ↔
      ¬ Failing codec completed rows commit.taskId := by
    unfold Failing
    constructor
    · rintro all ⟨a, r, found, own, bad⟩
      exact bad (all (a, r) ((entry (a, r)).mpr ⟨found, own⟩))
    · intro none_ e mem
      by_contra bad
      obtain ⟨found, own⟩ := (entry e).mp mem
      exact none_ ⟨e.1, e.2, found, own, bad⟩
  rw [passes] at loop
  unfold verifyCommittedTask
  simp only [output, Bool.false_eq_true, if_false]
  dsimp only at loop
  generalize checkArtifacts codec completed _ results = outcome at loop ⊢
  cases outcome with
  | mk failure results' =>
    cases failure with
    | none =>
      have fine := loop.1.mp rfl
      refine ⟨verified.recorded, loop.2, fun id' row' => ?_, fun a r => ?_, fun id' => ?_,
        verified.tasks, fun all => verified.same fun id' mem => all id' (List.mem_append_left _ mem), verified.beside⟩
      · rw [verified.committed, List.mem_append, List.mem_singleton, or_imp]
        exact and_congr_right fun _ => (and_iff_left fun same => same ▸ fine).symm
      · rw [verified.artifact, List.mem_append, List.mem_singleton, or_imp]
        exact and_congr_right fun _ => (and_iff_left fun same => same ▸ fine).symm
      · rw [verified.demoted, List.mem_append, List.mem_singleton, or_and_right]
        refine (or_iff_left ?_).symm
        rintro ⟨rfl, failing⟩
        exact fine failing
    | some failed =>
      have failing : Failing codec completed rows commit.taskId := by
        by_contra fine
        cases loop.1.mpr fine
      obtain ⟨recorded, committedIff, artifacts⟩ := verified.recorded.demoteTask still
      refine ⟨recorded, loop.2, fun id' row' => ?_, fun a r => ?_, fun id' => ?_, fun id' => ?_,
        fun all => ?_, ?_⟩
      · rw [committedIff, verified.committed, List.mem_append, List.mem_singleton, or_imp, and_assoc]
        exact and_congr_right fun _ => and_congr_right fun _ =>
          ⟨fun other same => (other same).elim, fun fine same => fine same (same ▸ failing)⟩
      · rw [artifacts, verified.artifact, List.mem_append, List.mem_singleton, or_imp, and_assoc]
        exact and_congr_right fun _ => and_congr_right fun _ =>
          ⟨fun other same => (other same).elim, fun fine same => fine same (same ▸ failing)⟩
      · rw [List.map_append, List.mem_append, verified.demoted, List.mem_append, List.mem_singleton,
          or_and_right]
        refine or_congr_right ?_
        show id' ∈ [commit.taskId] ↔ _
        rw [List.mem_singleton]
        exact ⟨fun same => ⟨same, same ▸ failing⟩, fun both => both.1⟩
      · rw [← verified.tasks]
        show ((updateRow now.task _ _).find? id').isSome ↔ _
        rw [find?_updateRow]
        split
        · next same => rw [same, Option.isSome_map]
        · rfl
      · exact (all commit.taskId (List.mem_append_right _ (List.mem_singleton_self _)) failing).elim
      · obtain ⟨task, artifact, provenance, cacheHit, shape⟩ := verified.beside
        change now = _ at shape
        subst shape
        exact ⟨_, _, _, _, rfl⟩

/-- The whole pass. -/
theorem verifyCommittedTasks_verified (completed : OrderedMap String BlobFile)
    (apart : Set.InjOn codec.blake3 contents)
    (known : ∀ commit, allowed commit → ∀ artifact ∈ commit.artifacts, artifact.content ∈ contents)
    (recorded : Recorded codec allowed rows) :
    ∃ done state, (∀ id row, rows.Committed id row → id ∈ done) ∧
      Verified codec allowed contents completed rows done state ∧
      verifyCommittedTasks codec rows completed = (state.1, state.2.2) := by
  have run : ∀ (rest : List (String × TaskRow)) (done : List String) state,
      Verified codec allowed contents completed rows done state →
      (∀ task ∈ rest, rows.Committed task.1 task.2) → (done ++ rest.map Prod.fst).Nodup →
      Verified codec allowed contents completed rows (done ++ rest.map Prod.fst)
        (rest.foldl (verifyCommittedTask codec completed) state) := by
    intro rest
    induction rest with
    | nil =>
      intro done state verified _ _
      rwa [List.map_nil, List.append_nil]
    | cons task rest ih =>
      intro done state verified committed distinct
      obtain ⟨first, others⟩ := List.forall_mem_cons.mp committed
      rw [List.map_cons, List.append_cons] at distinct ⊢
      have new : task.1 ∉ done := by
        have before := (List.nodup_append.mp distinct).1
        exact fun old => (List.nodup_append.mp before).2.2 _ old _ (List.mem_singleton_self _) rfl
      exact ih _ _ (verifyCommittedTask_verified apart known verified first new) others distinct
  have committed : ∀ task ∈ rows.task.entries.filter
      (fun task => task.2.status = taskStateName .committed), rows.Committed task.1 task.2 := by
    intro task mem
    obtain ⟨stored, status⟩ := List.mem_filter.mp mem
    exact ⟨OrderedMap.find?_eq_some.mpr stored, of_decide_eq_true status⟩
  have start : Verified codec allowed contents completed rows [] (rows, .empty, []) := by
    refine ⟨recorded, fun _ _ found stored => ?_, fun id row => ?_, fun a r => ?_, fun id => ?_,
      fun _ => Iff.rfl, fun _ => rfl, ⟨_, _, _, _, rfl⟩⟩
    · rw [OrderedMap.find?_empty] at stored
      cases stored
    · exact (and_iff_left fun mem => absurd mem List.not_mem_nil).symm
    · exact (and_iff_left fun mem => absurd mem List.not_mem_nil).symm
    · exact iff_of_false List.not_mem_nil fun both => List.not_mem_nil both.1
  refine ⟨_, _, fun id row isCommitted => ?_, run _ [] (rows, .empty, []) start committed ?_, rfl⟩
  · exact List.mem_map.mpr ⟨(id, row), List.mem_filter.mpr
      ⟨OrderedMap.find?_eq_some.mp isCommitted.1, decide_eq_true isCommitted.2⟩, rfl⟩
  · rw [List.nil_append]
    exact rows.task.keys_nodup.sublist (List.filter_sublist.map Prod.fst)

end Verify

/-! ## Restarting the other tasks -/

section Restart

variable {completed : OrderedMap String BlobFile} {rows : JournalRows}

/-- What the transaction does to the rows once they are verified. -/
def settle (buildSessionId : String) (rows : JournalRows) : JournalRows :=
  ({ rows with task := rows.task.map rows.resetTask } :
    JournalRows).abandonOpenAttempts.1.markBuildSession buildSessionId .active

theorem getD_parseTaskState_eq_committed {status : String} :
    (parseTaskState status).getD .planned = .committed ↔ status = taskStateName .committed := by
  rw [← parseTaskState_eq_some]
  cases parseTaskState status <;> simp

theorem status_resetTask (id : String) (row : TaskRow) :
    (rows.resetTask id row).status = taskStateName (rows.resumedState id row) := by
  unfold JournalRows.resetTask
  split
  · next committed =>
    rw [JournalRows.resumedState, if_pos committed]
    exact getD_parseTaskState_eq_committed.mp committed
  · rfl

theorem resumedState_eq_committed {id : String} {row : TaskRow} :
    rows.resumedState id row = .committed ↔ row.status = taskStateName .committed := by
  rw [← getD_parseTaskState_eq_committed]
  unfold JournalRows.resumedState
  split
  · next committed => exact iff_of_true rfl committed
  · next open_ =>
    refine iff_of_false ?_ open_
    split <;> exact fun same => by cases same

theorem resetTask_eq (rows : JournalRows) (id : String) (row : TaskRow) :
    rows.resetTask id row = { row with status := taskStateName (rows.resumedState id row) } := by
  have status := @status_resetTask rows id row
  unfold JournalRows.resetTask at status ⊢
  split at status
  · next committed => rw [if_pos committed, ← status]
  · next open_ => rw [if_neg open_]

theorem resetTask_of_committed {id : String} {row : TaskRow}
    (committed : row.status = taskStateName .committed) : rows.resetTask id row = row :=
  if_pos (getD_parseTaskState_eq_committed.mpr committed)

theorem settle_committed {buildSessionId : String} {id : String} {row : TaskRow} :
    (settle buildSessionId rows).Committed id row ↔ rows.Committed id row := by
  show (rows.task.map rows.resetTask).find? id = some row ∧ _ ↔ _
  rw [OrderedMap.find?_map, Option.map_eq_some_iff]
  constructor
  · rintro ⟨⟨old, found, rfl⟩, committed⟩
    rw [status_resetTask] at committed
    have before := resumedState_eq_committed.mp (taskStateName_injective committed)
    rw [resetTask_of_committed before]
    exact ⟨found, before⟩
  · rintro ⟨found, committed⟩
    exact ⟨⟨row, found, resetTask_of_committed committed⟩, committed⟩

theorem settle_sameCommitted (buildSessionId : String) :
    SameCommitted rows (settle buildSessionId rows) :=
  ⟨rfl, rfl, rfl, fun _ _ => settle_committed⟩

theorem settle_isCommitted (buildSessionId : String) :
    (settle buildSessionId rows).isCommitted = rows.isCommitted := by
  funext id
  rw [Bool.eq_iff_iff, JournalRows.isCommitted_iff, JournalRows.isCommitted_iff]
  exact exists_congr fun _ => settle_committed

theorem settle_recorded (recorded : Recorded codec allowed rows) (buildSessionId : String) :
    Recorded codec allowed (settle buildSessionId rows) := by
  refine (settle_sameCommitted buildSessionId).recorded recorded fun id row found => ?_
  change (rows.task.map rows.resetTask).find? id = some row at found
  rw [OrderedMap.find?_map] at found
  obtain ⟨old, before, rfl⟩ := Option.map_eq_some_iff.mp found
  refine ⟨⟨_, status_resetTask id old⟩, ?_⟩
  have key : (rows.resetTask id old).cacheKey = old.cacheKey := by
    unfold JournalRows.resetTask
    split <;> rfl
  rw [key]
  exact (recorded.wellFormed id old before).2

/-- A row that was reset is reset to itself. -/
theorem settle_resetTask (buildSessionId id : String) (row : TaskRow) :
    (settle buildSessionId rows).resetTask id (rows.resetTask id row) = rows.resetTask id row := by
  by_cases committed : row.status = taskStateName .committed
  · rw [resetTask_of_committed committed, resetTask_of_committed committed]
  · have state : (settle buildSessionId rows).resumedState id (rows.resetTask id row) =
        rows.resumedState id row := by
      have open_ : rows.resumedState id row ≠ .committed :=
        fun same => committed (resumedState_eq_committed.mp same)
      unfold JournalRows.resumedState at open_ ⊢
      rw [if_neg fun same => committed (getD_parseTaskState_eq_committed.mp same)] at open_ ⊢
      rw [settle_isCommitted, if_neg]
      · rfl
      · rw [getD_parseTaskState_eq_committed, status_resetTask]
        exact fun same => committed (resumedState_eq_committed.mp (taskStateName_injective same))
    rw [resetTask_eq (settle buildSessionId rows), state, resetTask_eq rows]

theorem map_map_of_idem {κ α : Type} [LinearOrder κ] {m : OrderedMap κ α} {f g : κ → α → α}
    (again : ∀ k v, g k (f k v) = f k v) : (m.map f).map g = m.map f := by
  refine OrderedMap.ext_find? fun k => ?_
  rw [OrderedMap.find?_map, OrderedMap.find?_map, Option.map_map]
  exact congrArg (fun h => (m.find? k).map h) (funext (again k))

theorem updateRow_updateRow {κ α : Type} [LinearOrder κ] {m : OrderedMap κ α} {k : κ} {f : α → α}
    (again : ∀ v, f (f v) = f v) : updateRow (updateRow m k f) k f = updateRow m k f := by
  refine OrderedMap.ext_find? fun k' => ?_
  rw [find?_updateRow, find?_updateRow, find?_updateRow, if_pos rfl]
  split
  · rw [Option.map_map]
    exact congrArg (fun h => (m.find? k).map h) (funext again)
  · rfl

theorem abandon_abandon (row : TaskAttemptRow) : row.abandon.abandon = row.abandon := by
  unfold TaskAttemptRow.abandon
  split
  · exact if_neg Bool.false_ne_true
  · rfl

theorem lose_lose (row : WorkerSessionRow) : row.lose.lose = row.lose := by
  unfold WorkerSessionRow.lose
  split
  · rfl
  · rfl

theorem settle_settle (buildSessionId : String) :
    settle buildSessionId (settle buildSessionId rows) = settle buildSessionId rows := by
  have task : (settle buildSessionId (settle buildSessionId rows)).task =
      (settle buildSessionId rows).task := map_map_of_idem (settle_resetTask buildSessionId)
  have taskAttempt : (settle buildSessionId (settle buildSessionId rows)).taskAttempt =
      (settle buildSessionId rows).taskAttempt :=
    map_map_of_idem (m := rows.taskAttempt) fun _ => abandon_abandon
  have workerSession : (settle buildSessionId (settle buildSessionId rows)).workerSession =
      (settle buildSessionId rows).workerSession :=
    map_map_of_idem (m := rows.workerSession) fun _ => lose_lose
  have buildSession : (settle buildSessionId (settle buildSessionId rows)).buildSession =
      (settle buildSessionId rows).buildSession := updateRow_updateRow fun _ => rfl
  calc settle buildSessionId (settle buildSessionId rows)
      = { settle buildSessionId rows with
          task := (settle buildSessionId (settle buildSessionId rows)).task
          taskAttempt := (settle buildSessionId (settle buildSessionId rows)).taskAttempt
          workerSession := (settle buildSessionId (settle buildSessionId rows)).workerSession
          buildSession := (settle buildSessionId (settle buildSessionId rows)).buildSession } := rfl
    _ = settle buildSessionId rows := by rw [task, taskAttempt, workerSession, buildSession]

end Restart

/-! ## What the transaction decides -/

section Resumes

variable {completed : OrderedMap String BlobFile} {rows : JournalRows}

/-- The rows after a resume, against the rows and the directory it found. -/
structure Resumes (codec : Codec) (allowed : TaskCommit → Prop)
    (completed : OrderedMap String BlobFile) (rows rows' : JournalRows) (demoted : List DemotedTask)
    (tasks : List ResumedTask) : Prop where
  recorded : Recorded codec allowed rows'
  /-- A committed task stays so exactly when all its artifacts are intact. -/
  committed : ∀ id row, rows'.Committed id row ↔
    rows.Committed id row ∧ ¬ Failing codec completed rows id
  /-- The artifact rows that stay are those of the tasks that stay committed. -/
  artifact : ∀ a r, rows'.artifact.find? a = some r ↔
    rows.artifact.find? a = some r ∧ ¬ Failing codec completed rows r.taskId
  demoted : ∀ id, id ∈ demoted.map DemotedTask.taskId ↔ Failing codec completed rows id
  /-- Every other task restarts where its dependencies let it. -/
  restarted : ∀ id row, rows'.task.find? id = some row →
    row.status ≠ taskStateName .committed →
    row.status = taskStateName
      (if (rows'.dependsOn id).all rows'.isCommitted then .ready else .planned)
  /-- No task is lost or added. -/
  present : ∀ id, (rows'.task.find? id).isSome ↔ (rows.task.find? id).isSome
  /-- The report names every task with the state its row now has. -/
  reported : ∀ id state, (∃ task ∈ tasks, task.taskId = id ∧ task.state = state) ↔
    ∃ row, rows'.task.find? id = some row ∧ row.status = taskStateName state

theorem mapM_exists {ε α β : Type} {f : α → Except ε β} {l : List α}
    (each : ∀ a ∈ l, ∃ b, f a = .ok b) : ∃ bs, l.mapM f = .ok bs ∧ List.Forall₂ (f · = .ok ·) l bs := by
  induction l with
  | nil => exact ⟨[], rfl, .nil⟩
  | cons a l ih =>
    obtain ⟨⟨b, first⟩, others⟩ := List.forall_mem_cons.mp each
    obtain ⟨bs, rest, pairs⟩ := ih others
    exact ⟨b :: bs, mapM_cons_eq_ok.mpr ⟨b, bs, first, rest, rfl⟩, .cons first pairs⟩

/-- Such a list holds exactly what the entries give. -/
theorem mem_of_forall₂ {ε α β : Type} {f : α → Except ε β} {l : List α} {bs : List β}
    (pairs : List.Forall₂ (f · = .ok ·) l bs) {b : β} : b ∈ bs ↔ ∃ a ∈ l, f a = .ok b := by
  induction pairs with
  | nil => simp
  | cons first _ ih =>
    rw [List.mem_cons, List.exists_mem_cons_iff, ih, first, Except.ok.injEq, eq_comm]

theorem resumedTask_eq_ok {task : String × TaskRow} {resumed : ResumedTask}
    (made : rows.resumedTask task = .ok resumed) :
    resumed.taskId = task.1 ∧ resumed.state = rows.resumedState task.1 task.2 := by
  obtain ⟨cacheKey, -, made⟩ := bind_eq_ok.mp made
  cases made
  exact ⟨rfl, rfl⟩

theorem resumedTask_exists (recorded : Recorded codec allowed rows) {task : String × TaskRow}
    (mem : task ∈ rows.task.entries) : ∃ resumed, rows.resumedTask task = .ok resumed := by
  have key : ∃ cacheKey, JournalRows.readCacheKey task.1 task.2.cacheKey = .ok cacheKey := by
    have wellFormed := (recorded.wellFormed task.1 task.2 (OrderedMap.find?_eq_some.mpr mem)).2
    cases given : task.2.cacheKey with
    | none => exact ⟨none, rfl⟩
    | some text =>
      obtain ⟨digest, parsed⟩ := wellFormed text given
      exact ⟨some digest, by rw [JournalRows.readCacheKey, parsed]⟩
  obtain ⟨cacheKey, read⟩ := key
  exact ⟨_, bind_eq_ok.mpr ⟨cacheKey, read, rfl⟩⟩

/-- On a journal whose rows hold the invariant the transaction goes through. -/
theorem resumeRows_resumes (apart : Set.InjOn codec.blake3 contents)
    (known : ∀ commit, allowed commit → ∀ artifact ∈ commit.artifacts, artifact.content ∈ contents)
    (recorded : Recorded codec allowed rows) (buildSessionId : String)
    (completed : OrderedMap String BlobFile) :
    ∃ rows' demoted tasks abandoned,
      resumeRows codec buildSessionId rows completed = .ok (rows', demoted, tasks, abandoned) ∧
        Resumes codec allowed completed rows rows' demoted tasks ∧
        rows'.source = rows.source ∧
        (∃ verified, rows' = settle buildSessionId verified) ∧
        ((∀ id, ¬ Failing codec completed rows id) → rows' = settle buildSessionId rows) := by
  obtain ⟨done, ⟨now, results, demoted⟩, all, verified, pass⟩ :=
    verifyCommittedTasks_verified completed apart known recorded
  have failing : ∀ id, Failing codec completed rows id → id ∈ done := by
    rintro id ⟨a, r, found, rfl, -⟩
    obtain ⟨row, committed⟩ := recorded.artifact a r found
    exact all _ row committed
  obtain ⟨tasks, written, pairs⟩ := mapM_exists (f := now.resumedTask) (l := now.task.entries)
    fun task mem => resumedTask_exists verified.recorded mem
  have ran : resumeRows codec buildSessionId rows completed =
      .ok (settle buildSessionId now, demoted, tasks,
        now.taskAttempt.entries.countP fun entry => entry.2.isOpen) := by
    unfold resumeRows JournalRows.resetIncompleteTasks
    rw [pass]
    dsimp only
    rw [written]
    rfl
  have source : now.source = rows.source := by
    obtain ⟨task, artifact, provenance, cacheHit, shape⟩ := verified.beside
    change now = _ at shape
    rw [shape]
  have reported : ∀ resumed, resumed ∈ tasks ↔
      ∃ task ∈ now.task.entries, now.resumedTask task = .ok resumed := fun resumed =>
    mem_of_forall₂ pairs
  refine ⟨_, demoted, tasks, _, ran, ⟨settle_recorded verified.recorded buildSessionId,
    fun id row => ?_, fun a r => ?_, fun id => ?_, fun id row found open_ => ?_, fun id => ?_,
    fun id state => ?_⟩, source, ⟨now, rfl⟩, fun none_ => ?_⟩
  · rw [settle_committed, verified.committed]
    exact and_congr_right fun _ => ⟨fun fine bad => fine (failing id bad) bad, fun fine _ => fine⟩
  · show now.artifact.find? a = some r ↔ _
    rw [verified.artifact]
    exact and_congr_right fun _ => ⟨fun fine bad => fine (failing _ bad) bad, fun fine _ => fine⟩
  · rw [verified.demoted]
    exact and_iff_right_of_imp (failing id)
  · change (now.task.map now.resetTask).find? id = some row at found
    rw [OrderedMap.find?_map] at found
    obtain ⟨old, before, rfl⟩ := Option.map_eq_some_iff.mp found
    rw [status_resetTask] at open_ ⊢
    rw [settle_isCommitted]
    show _ = taskStateName (if (now.dependsOn id).all now.isCommitted then _ else _)
    unfold JournalRows.resumedState at open_ ⊢
    rw [if_neg]
    intro committed
    rw [if_pos committed] at open_
    exact open_ rfl
  · rw [← verified.tasks]
    show ((now.task.map now.resetTask).find? id).isSome ↔ _
    rw [OrderedMap.find?_map, Option.isSome_map]
  · show _ ↔ ∃ row, (now.task.map now.resetTask).find? id = some row ∧ _
    rw [OrderedMap.find?_map]
    constructor
    · rintro ⟨resumed, mem, rfl, rfl⟩
      obtain ⟨task, inTable, made⟩ := (reported resumed).mp mem
      obtain ⟨id, state⟩ := resumedTask_eq_ok made
      refine ⟨now.resetTask task.1 task.2, ?_, ?_⟩
      · rw [id, OrderedMap.find?_eq_some.mpr inTable]
        rfl
      · rw [state, status_resetTask]
    · rintro ⟨row, found, status⟩
      obtain ⟨old, before, rfl⟩ := Option.map_eq_some_iff.mp found
      rw [status_resetTask] at status
      have inTable := OrderedMap.find?_eq_some.mp before
      obtain ⟨resumed, made⟩ := resumedTask_exists verified.recorded inTable
      obtain ⟨sameId, sameState⟩ := resumedTask_eq_ok made
      exact ⟨resumed, (reported resumed).mpr ⟨_, inTable, made⟩, sameId,
        sameState.trans (taskStateName_injective status)⟩
  · exact congrArg (settle buildSessionId) (verified.same fun id _ => none_ id)

end Resumes

end Svp.Exec

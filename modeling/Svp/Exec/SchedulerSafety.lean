import Svp.Exec.SchedulerInvariant

/-!
# Commit safety of the scheduler

Only a verified success of a live lease commits a task. `Ledger.Quiet` is what
every other move has in common: it commits nothing, keeps what is committed and
keeps a failure. `apply_cases` says that an event is quiet or is such a commit;
from it follow that each task is committed at most once (`CommitLog`), what each
sink call was based on (`reachable_justified`), what success means
(`succeeded_complete`), and that two diverging verified results fail the run
(`divergence_fails`). `commit_safety` puts them together.
-/

namespace Svp.Exec

open Ledger SchedulerRun

variable {S : SchedulerSetup}

namespace Ledger

/-- Nothing is committed between the two ledgers, and a failure stays. -/
structure Inert (l l' : Ledger S) : Prop where
  phase : ∀ t, l'.phase t = .committed ↔ l.phase t = .committed
  digest : l'.digest = l.digest
  commits : l'.commits = l.commits
  failure : ∀ f, l.failure = some f → l'.failure = some f
  status : l.status ≠ .succeeded → l'.status ≠ .succeeded
  failedStatus : (l.failure.isSome → l.status = .failed) → l'.failure.isSome → l'.status = .failed

/-- The run has not failed for lack of a usable executor. -/
def NoDeadEnd (l : Ledger S) : Prop := ∀ f, l.failure = some f → f.kind ≠ .noUsableExecutor

/-- Moreover, the run does not fail here for lack of a usable executor. -/
structure Quiet (l l' : Ledger S) : Prop extends Inert l l' where
  noDeadEnd : l.NoDeadEnd → l'.NoDeadEnd

theorem Quiet.refl (l : Ledger S) : Quiet l l :=
  ⟨⟨fun _ => Iff.rfl, rfl, rfl, fun _ same => same, fun same => same, fun same => same⟩,
    fun same => same⟩

theorem Inert.trans {l l' l'' : Ledger S} (h : Inert l l') (h' : Inert l' l'') : Inert l l'' where
  phase t := (h'.phase t).trans (h.phase t)
  digest := h'.digest.trans h.digest
  commits := h'.commits.trans h.commits
  failure f same := h'.failure f (h.failure f same)
  status same := h'.status (h.status same)
  failedStatus same := h'.failedStatus (h.failedStatus same)

theorem Quiet.trans {l l' l'' : Ledger S} (h : Quiet l l') (h' : Quiet l' l'') : Quiet l l'' where
  toInert := h.toInert.trans h'.toInert
  noDeadEnd none := h'.noDeadEnd (h.noDeadEnd none)

theorem quiet_release (l : Ledger S) (id : String) (lease : LeaseRecord S) :
    Quiet l (l.release id lease) :=
  ⟨⟨fun _ => Iff.rfl, rfl, rfl, fun _ same => same, fun same => same, fun same => same⟩,
    fun none => none⟩

theorem quiet_requeue {l : Ledger S} {t : S.Task} (fresh : l.phase t ≠ .committed) :
    Quiet l (l.requeue t) where
  phase x := by
    simp only [requeue, Function.update_apply]
    split
    · next same => simp [same, fresh]
    · exact Iff.rfl
  digest := rfl
  commits := rfl
  failure _ same := same
  status same := same
  failedStatus same := same
  noDeadEnd none := none

theorem quiet_grant {l : Ledger S} {record : LeaseRecord S}
    (fresh : l.phase record.task ≠ .committed) : Quiet l (l.grant record) where
  phase x := by
    simp only [grant, Function.update_apply]
    split
    · next same => simp [same, fresh]
    · exact Iff.rfl
  digest := rfl
  commits := rfl
  failure _ same := same
  status same := same
  failedStatus same := same
  noDeadEnd none := none

theorem quiet_setQuarantined (l : Ledger S) (e : S.ExecutorIndex) : Quiet l (l.setQuarantined e) :=
  ⟨⟨fun _ => Iff.rfl, rfl, rfl, fun _ same => same, fun same => same, fun same => same⟩,
    fun none => none⟩

theorem inert_fail {l : Ledger S} (running : l.failure = none) (failure : BuildFailure) :
    Inert l (l.fail failure) :=
  ⟨fun _ => Iff.rfl, rfl, rfl, fun f same => (by rw [running] at same; cases same),
    fun _ => by simp [fail], fun _ _ => rfl⟩

theorem quiet_fail {l : Ledger S} (running : l.failure = none) {failure : BuildFailure}
    (kind : failure.kind ≠ .noUsableExecutor) : Quiet l (l.fail failure) where
  toInert := inert_fail running failure
  noDeadEnd _ f same := by
    cases same
    exact kind

/-- What a handler that commits and grants nothing does to the ledger, one piece
at a time. -/
inductive Move : Ledger S → Ledger S → Prop
  | release (l : Ledger S) (id : String) (lease : LeaseRecord S) : Move l (l.release id lease)
  | requeue {l : Ledger S} {t : S.Task} (fresh : l.phase t ≠ .committed) : Move l (l.requeue t)
  | quarantine (l : Ledger S) (e : S.ExecutorIndex) : Move l (l.setQuarantined e)
  | fail {l : Ledger S} (running : l.failure = none) {failure : BuildFailure}
      (ordinary : failure.kind ≠ .noUsableExecutor) : Move l (l.fail failure)

abbrev Moves : Ledger S → Ledger S → Prop := Relation.ReflTransGen Move

theorem Move.quiet {l l' : Ledger S} (h : Move l l') : Quiet l l' := by
  cases h with
  | release id lease => exact quiet_release l id lease
  | requeue fresh => exact quiet_requeue fresh
  | quarantine e => exact quiet_setQuarantined l e
  | fail running ordinary => exact quiet_fail running ordinary

theorem Moves.quiet {l l' : Ledger S} (h : Moves l l') : Quiet l l' := by
  induction h with
  | refl => exact Quiet.refl l
  | tail _ last ih => exact ih.trans last.quiet

theorem moves_requeueIdle (l : Ledger S) (t : S.Task) : Moves l (l.requeueIdle t) := by
  unfold requeueIdle
  split
  · next idle => exact .single (.requeue idle.1)
  · exact .refl

theorem moves_dropNamed_foldl (ids : List String) (l : Ledger S) :
    Moves l (ids.foldl dropNamed l) := by
  induction ids generalizing l with
  | nil => exact .refl
  | cons id rest ih =>
    refine Relation.ReflTransGen.trans ?_ (ih (l.dropNamed id))
    unfold dropNamed
    split
    · exact .refl
    · next lease _ => exact .head (.release l id lease) (moves_requeueIdle _ _)

end Ledger

/-! ## Handlers that commit nothing -/

namespace SchedulerRun

theorem moves_failBuild (r : SchedulerRun S) {kind : BuildFailureKind}
    (ordinary : kind ≠ .noUsableExecutor) (taskId message : String) :
    Moves r.ledger (r.failBuild kind taskId message).ledger := by
  rw [ledger_failBuild]
  split
  · exact .refl
  · next running => exact .single (.fail ((failed_iff r).mp (by simpa using running)) ordinary)

theorem moves_quarantine (r : SchedulerRun S) (e : S.ExecutorIndex) (reason : String) :
    Moves r.ledger (r.quarantine e reason).ledger := by
  by_cases quarantined : (r.executors e).quarantined = true
  · rw [SchedulerRun.quarantine, if_pos quarantined]
  · rw [ledger_quarantine_of_not reason (by simpa using quarantined)]
    exact .head (.quarantine r.ledger e) (moves_dropNamed_foldl _ _)

theorem moves_attemptFailed (r : SchedulerRun S) (t : S.Task) (e : S.ExecutorIndex)
    (reason : String) : Moves r.ledger (r.attemptFailed t e reason).ledger := by
  unfold attemptFailed
  extract_lets r' task maxAttempts
  have same : r'.ledger = r.ledger := by
    apply ledger_modifyTask <;> exact fun _ => rfl
  rw [← same]
  split
  · exact .refl
  · next free =>
    have fresh : r'.ledger.phase t ≠ .committed := fun committed => free (.inl committed)
    split
    · exact moves_failBuild r' (by decide) _ _
    · rw [ledger_requeue, ledger_modifyStats]
      exact .single (.requeue fresh)

theorem moves_countExecutorLoss (r : SchedulerRun S) (lease : LeaseRecord S) :
    Moves r.ledger (r.countExecutorLoss lease).ledger := by
  unfold countExecutorLoss
  extract_lets record events r'
  have same : r'.ledger = r.ledger := by
    apply ledger_modifyExecutor <;> exact fun _ => rfl
  split
  · exact .refl
  · split
    · exact .refl
    · rw [← same]
      split
      · exact moves_quarantine r' _ _
      · exact .refl

theorem moves_releaseLease (r : SchedulerRun S) (id : String) (lease : LeaseRecord S) :
    Moves r.ledger (r.release id lease).ledger := by
  rw [ledger_release]
  exact .single (.release _ _ _)

theorem moves_onInvalidResult (r : SchedulerRun S) (lease : LeaseRecord S) (defect : String) :
    Moves r.ledger (r.onInvalidResult lease defect).ledger := by
  unfold onInvalidResult
  extract_lets counted told quarantined
  have same : told.ledger = r.ledger := by simp [told, counted]
  rw [← same]
  exact (moves_quarantine told _ _).trans (moves_attemptFailed quarantined _ _ _)

theorem moves_onVerifiedFailure (r : SchedulerRun S) (lease : LeaseRecord S) (error : TaskError) :
    Moves r.ledger (r.onVerifiedFailure lease error).ledger := by
  unfold onVerifiedFailure
  extract_lets taskId reason told
  have same : told.ledger = r.ledger := by simp [told]
  rw [← same]
  split
  · exact .refl
  · split
    · exact moves_failBuild told (by decide) _ _
    · exact moves_attemptFailed told _ _ _

theorem moves_onFailed (r : SchedulerRun S) (id : String) (kind : AttemptFailureKind)
    (message : String) : Moves r.ledger (r.onFailed id kind message).ledger := by
  unfold onFailed
  split
  · exact .refl
  · next lease found =>
    extract_lets released reason told after
    have same : told.ledger = (r.release id lease).ledger := by simp [told, released]
    have counted : Moves told.ledger after.ledger := by
      cases kind with
      | invalidResult => exact moves_quarantine (told.modifyStats _) _ _
      | executorLost => exact moves_countExecutorLoss told lease
    refine (moves_releaseLease r id lease).trans ?_
    rw [← same]
    exact counted.trans (moves_attemptFailed after _ _ _)

theorem moves_onRejected (r : SchedulerRun S) (id code message : String) :
    Moves r.ledger (r.onRejected id code message).ledger := by
  unfold onRejected
  split
  · exact .refl
  · next lease found =>
    extract_lets released counted told declinedUntil backedOff
    have same : backedOff.ledger = (r.release id lease).ledger := by
      have frame : backedOff.ledger = told.tick.ledger := by
        apply ledger_modifyExecutor <;> exact fun _ => rfl
      rw [frame]
      simp [told, counted, released]
    rw [ledger_requeueIdle, same]
    exact (moves_releaseLease r id lease).trans (moves_requeueIdle _ _)

theorem quiet_onHeartbeat (r : SchedulerRun S) (id : String) :
    Quiet r.ledger (r.onHeartbeat id).ledger := by
  unfold onHeartbeat
  split
  · exact Quiet.refl _
  · exact ⟨⟨fun _ => Iff.rfl, rfl, rfl, fun _ same => same, fun same => same, fun same => same⟩,
      fun none => none⟩

theorem moves_endLease (now : Millis) (r : SchedulerRun S) (id : String) :
    Moves r.ledger (endLease now r id).ledger := by
  unfold endLease
  split
  · exact .refl
  · next lease found =>
    have lost : ∀ (told : SchedulerRun S) (reason : String),
        told.ledger = (r.release id lease).ledger →
        Moves r.ledger
          ((told.countExecutorLoss lease).attemptFailed lease.task lease.executor reason).ledger := by
      intro told reason same
      refine (moves_releaseLease r id lease).trans ?_
      rw [← same]
      exact (moves_countExecutorLoss told lease).trans (moves_attemptFailed _ _ _ _)
    split
    · exact .refl
    · split
      · unfold endLeaseAtDeadline
        extract_lets detail counted told cancelled lossCounted
        exact lost cancelled _ (by simp [cancelled, told, counted])
      · unfold endLeaseAtExpiry
        extract_lets counted told expired lossCounted
        exact lost expired _ (by simp [expired, told, counted])

theorem moves_expireLeases (r : SchedulerRun S) : Moves r.ledger r.expireLeases.ledger := by
  have pass : ∀ (now : Millis) (ids : List String) (r : SchedulerRun S),
      Moves r.ledger (ids.foldl (endLease now) r).ledger := by
    intro now ids
    induction ids with
    | nil => exact fun _ => .refl
    | cons id rest ih => exact fun r => (moves_endLease now r id).trans (ih _)
  exact pass r.now _ r.tick

/-! ## Handlers that grant -/

theorem quiet_foldl {α : Type*} {f : SchedulerRun S → α → SchedulerRun S}
    (quiet : ∀ r a, Quiet r.ledger (f r a).ledger) (items : List α) (r : SchedulerRun S) :
    Quiet r.ledger (items.foldl f r).ledger := by
  induction items generalizing r with
  | nil => exact Quiet.refl _
  | cons a rest ih => exact (quiet r a).trans (ih (f r a))

theorem quiet_fillSlots {e : S.ExecutorIndex} (rounds : Nat) {r : SchedulerRun S}
    (h : r.ledger.Good ∅) : Quiet r.ledger (fillSlots e rounds r).ledger := by
  induction rounds generalizing r with
  | zero => exact Quiet.refl _
  | succ rounds ih =>
    rw [fillSlots]
    split
    · next free =>
      split
      · exact Quiet.refl _
      · next t picked =>
        have ready : r.ledger.phase t = .ready :=
          (h.consistent.queued t).mp (mem_of_pickTask picked).1
        have granted : Quiet r.ledger (r.grant t e false).ledger := by
          rw [ledger_grant]
          refine quiet_grant ?_
          change r.ledger.phase t ≠ .committed
          rw [ready]
          decide
        exact granted.trans (ih (good_grant_ready h free picked))
    · exact Quiet.refl _

theorem quiet_fillSlotsSpeculative {e : S.ExecutorIndex} (rounds : Nat) (r : SchedulerRun S) :
    Quiet r.ledger (fillSlotsSpeculative e rounds r).ledger := by
  induction rounds generalizing r with
  | zero => exact Quiet.refl _
  | succ rounds ih =>
    rw [fillSlotsSpeculative]
    split
    · split
      · exact Quiet.refl _
      · next lease picked =>
        have fresh := ((mayDuplicate_iff r e lease).mp (mem_of_oldestDuplicable picked).2).2.1
        have granted : Quiet r.ledger (r.grant lease.task e true).ledger := by
          rw [ledger_grant]
          exact quiet_grant fresh
        exact granted.trans (ih _)
    · exact Quiet.refl _

theorem quiet_dispatch {r : SchedulerRun S} (h : r.ledger.Good ∅) :
    Quiet r.ledger r.dispatch.ledger := by
  have pass : ∀ (executors : List S.ExecutorIndex) (r : SchedulerRun S), r.ledger.Good ∅ →
      Quiet r.ledger (executors.foldl dispatchTo r).ledger := by
    intro executors
    induction executors with
    | nil => exact fun r _ => Quiet.refl _
    | cons e rest ih =>
      intro r h
      have one : Quiet r.ledger (r.dispatchTo e).ledger ∧ (r.dispatchTo e).ledger.Good ∅ := by
        unfold dispatchTo
        split
        · exact ⟨Quiet.refl _, h⟩
        · exact ⟨quiet_fillSlots (r := r.tick) _ h, good_fillSlots (r := r.tick) _ h⟩
      exact one.1.trans (ih _ one.2)
  unfold dispatch
  extract_lets passed
  have first : Quiet r.ledger passed.ledger := pass _ r h
  split
  · refine first.trans (quiet_foldl (fun r e => ?_) _ passed)
    unfold dispatchSpeculativeTo
    split
    · exact Quiet.refl _
    · exact quiet_fillSlotsSpeculative _ r.tick
  · exact first

theorem quiet_prepare (r : SchedulerRun S) : Quiet r.ledger r.prepare.ledger := by
  refine quiet_foldl (fun r t => ?_) _ r
  unfold markInitiallyReady
  split
  · next due =>
    rw [ledger_requeue]
    refine quiet_requeue ?_
    change (r.tasks t).phase ≠ .committed
    rw [due.1]
    decide
  · exact Quiet.refl _

/-! ## The one event that commits -/

/-- The event of `output` under lease id `id` is a verified success of a live
lease. -/
structure Delivers (r : SchedulerRun S) (id : String) (output : AttemptOutput)
    (lease : LeaseRecord S) : Prop where
  live : r.leases.find? id = some lease
  noDefect : findResultDefect S.codec (S.graph.spec lease.task) lease.lease.attempt output.result
    output.payloads = none
  succeeded : output.result.status = .succeeded

/-- A commit: the sink is called once, and either refuses and fails the run or
the task becomes committed with the digest of the result. -/
structure Commits (l l' : Ledger S) (t : S.Task) (committed : CommittedResult) : Prop where
  fresh : l.phase t ≠ .committed
  commits : l'.commits = l.commits ++ [(t, committed)]
  status : l.status ≠ .succeeded → l'.status ≠ .succeeded
  failedStatus : l'.failure.isSome → l'.status = .failed
  noDeadEnd : l'.NoDeadEnd
  outcome : (l'.failure.isSome ∧ ∀ x, l'.phase x = .committed ↔ l.phase x = .committed) ∨
    (l'.failure = none ∧ (∀ x, l'.phase x = .committed ↔ x = t ∨ l.phase x = .committed) ∧
      l'.digest = Function.update l.digest t committed.result.outputDigest)

/-- Marking dependents ready is quiet. -/
theorem quiet_markReady_foldl (ready : List S.Task) (l : Ledger S) :
    Quiet l (ready.foldl Ledger.markReady l) := by
  induction ready generalizing l with
  | nil => exact Quiet.refl l
  | cons t rest ih =>
    refine Quiet.trans ?_ (ih (l.markReady t))
    unfold Ledger.markReady
    split
    · next waiting => exact quiet_requeue (by rw [waiting]; decide)
    · exact Quiet.refl l

theorem markReady_foldl_failure (ready : List S.Task) (l : Ledger S) :
    (ready.foldl Ledger.markReady l).failure = l.failure := by
  induction ready generalizing l with
  | nil => rfl
  | cons t rest ih =>
    rw [List.foldl_cons, ih]
    unfold Ledger.markReady
    split <;> rfl

theorem commits_commit {r : SchedulerRun S} {lease : LeaseRecord S}
    (fresh : r.ledger.phase lease.task ≠ .committed) (running : r.failed = false)
    (output : AttemptOutput) :
    Commits r.ledger (r.commit lease output).ledger lease.task
      ⟨output.result, output.payloads, (S.executor lease.executor).id⟩ := by
  rcases ledger_commit r lease output with ⟨what, -, after⟩ | ⟨-, after⟩
  · rw [if_neg (by simp [running])] at after
    rw [after]
    refine ⟨fresh, rfl, fun _ => by simp [Ledger.fail], fun _ => rfl, fun f same => ?_,
      .inl ⟨rfl, fun _ => Iff.rfl⟩⟩
    cases same
    simp
  · rw [after]
    obtain ⟨⟨phase, digest, commits, -, status, -⟩, -⟩ := quiet_markReady_foldl
      ((r.ledger.recordCommit lease.task
        ⟨output.result, output.payloads, (S.executor lease.executor).id⟩).readySet.markComplete
          lease.task).1
      ((r.ledger.recordCommit lease.task
        ⟨output.result, output.payloads, (S.executor lease.executor).id⟩).markCommitted lease.task
          output.result.outputDigest)
    have noFailure : ((r.ledger.recordCommit lease.task
        ⟨output.result, output.payloads, (S.executor lease.executor).id⟩).commit lease.task
          output.result.outputDigest).failure = none := by
      rw [Ledger.commit, markReady_foldl_failure]
      exact (failed_iff r).mp running
    refine ⟨fresh, commits, status, fun failed => ?_, fun f same => ?_, .inr ⟨noFailure, fun x => (phase x).trans ?_, digest⟩⟩
    · rw [noFailure] at failed
      cases failed
    · rw [noFailure] at same
      cases same
    · simp only [Ledger.markCommitted, Ledger.recordCommit, Function.update_apply]
      split <;> simp_all

/-- A finished attempt commits nothing, or is the verified success of a live
lease of a task not yet committed. -/
theorem onFinished_cases {r : SchedulerRun S} (running : r.failed = false) (id : String)
    (output : AttemptOutput) :
    Quiet r.ledger (r.onFinished id output).ledger ∨
      ∃ lease, Delivers r id output lease ∧
        Commits r.ledger (r.onFinished id output).ledger lease.task
          ⟨output.result, output.payloads, (S.executor lease.executor).id⟩ := by
  unfold onFinished
  split
  · exact .inl (Quiet.refl _)
  · next lease found =>
    extract_lets released cleared
    have same : cleared.ledger = (r.release id lease).ledger := by
      apply ledger_modifyExecutor <;> exact fun _ => rfl
    have released : Moves r.ledger cleared.ledger := same ▸ moves_releaseLease r id lease
    split
    · exact .inl (Moves.quiet (released.trans (moves_onInvalidResult _ _ _)))
    · next noDefect =>
      split
      · next succeeded =>
        have delivers : Delivers r id output lease := ⟨found, noDefect, succeeded⟩
        unfold onVerifiedSuccess
        extract_lets noted task
        have same' : noted.ledger = cleared.ledger := ledger_noteExecutorRecovery _ lease
        have notedRunning : noted.failed = false := by
          rw [failed_iff, same', same, ledger_release]
          exact (failed_iff r).mp running
        split
        · next fresh =>
          refine .inr ⟨lease, delivers, ?_⟩
          have fresh : noted.ledger.phase lease.task ≠ .committed := fresh
          have commits := commits_commit fresh notedRunning output
          rw [same', same, ledger_release] at commits
          exact ⟨commits.fresh, commits.commits, commits.status, commits.failedStatus,
            commits.noDeadEnd, commits.outcome⟩
        · refine .inl (Moves.quiet (released.trans ?_))
          rw [← same']
          split
          · rw [ledger_discardDuplicate]
          · rw [ledger_reportIncident]
            split
            · exact .refl
            · exact .single (.fail ((failed_iff noted).mp notedRunning) (by simp))
      · exact .inl (Moves.quiet (released.trans (moves_onVerifiedFailure _ _ _)))
      · exact .inl released.quiet

theorem apply_cases (r : SchedulerRun S) (event : InboxEvent) :
    Quiet r.ledger (r.apply event).ledger ∨
      ∃ id output lease, event = .finished id output ∧ Delivers r id output lease ∧
        r.failed = false ∧
        Commits r.ledger (r.apply event).ledger lease.task
          ⟨output.result, output.payloads, (S.executor lease.executor).id⟩ := by
  unfold apply
  split
  · exact .inl (Quiet.refl _)
  · next running =>
    have running : r.failed = false := by simpa using running
    cases event with
    | heartbeat id => exact .inl (quiet_onHeartbeat r id)
    | failed id kind message => exact .inl (moves_onFailed r id kind message).quiet
    | rejected id code message => exact .inl (moves_onRejected r id code message).quiet
    | finished id output =>
      rcases onFinished_cases running id output with quiet | ⟨lease, delivers, commits⟩
      · exact .inl quiet
      · exact .inr ⟨id, output, lease, rfl, delivers, running, commits⟩

end SchedulerRun

/-! ## Steps -/

theorem quiet_abandonOutstandingLeases (r : SchedulerRun S) :
    Quiet r.ledger r.abandonOutstandingLeases.ledger where
  phase _ := Iff.rfl
  digest := rfl
  commits := by
    have cancels : commitCalls (r.leases.entries.map fun entry =>
        (.cancel entry.2.executor entry.1 : Effect S)) = [] := by
      refine List.filterMap_eq_nil_iff.mpr fun effect mem => ?_
      obtain ⟨p, -, rfl⟩ := List.mem_map.mp mem
      rfl
    simp only [ledger, abandonOutstandingLeases, commitCalls_append, cancels, List.append_nil]
  failure _ same := same
  status same := same
  failedStatus same := same
  noDeadEnd none := none

theorem quiet_setCancelled {r : SchedulerRun S} (running : r.failed = false) :
    Quiet r.ledger (r.setStatus .cancelled).ledger where
  phase _ := Iff.rfl
  digest := rfl
  commits := rfl
  failure _ same := same
  status _ := by simp [setStatus, ledger]
  failedStatus _ failed := by
    rw [failed_iff] at running
    change r.ledger.failure.isSome at failed
    rw [running] at failed
    cases failed
  noDeadEnd none := none

/-- The dead-end check fails the run. -/
structure DeadEnd (s t : RunState S) : Prop where
  stage : s.stage = .dispatched
  empty : s.run.leases.isEmpty = true
  notBackingOff : (anyExecutorBackingOff s.run).1 = false
  outcome : t = ⟨((anyExecutorBackingOff s.run).2.failBuild .noUsableExecutor ""
    kNoUsableExecutorMessage).abandonOutstandingLeases, .finished⟩

theorem DeadEnd.inert {s t : RunState S} (h : DeadEnd s t) : Inert s.run.ledger t.run.ledger := by
  rw [h.outcome]
  refine Inert.trans ?_ (quiet_abandonOutstandingLeases _).toInert
  have checked : (anyExecutorBackingOff s.run).2.ledger = s.run.ledger := ledger_anyBackingOff _ _
  rw [ledger_failBuild, checked]
  split
  · exact (Quiet.refl _).toInert
  · next running =>
    refine inert_fail ?_ _
    rw [← checked]
    exact (failed_iff _).mp (by simpa using running)

/-- A step commits nothing, or ends the run with success, or applies the
verified success of a live lease. -/
theorem advance_cases {s t : RunState S} {input : RoundInput}
    (good : s.stage ≠ .finished → s.run.ledger.Good ∅) (advanced : s.advance input = some t) :
    (Quiet s.run.ledger t.run.ledger ∨ DeadEnd s t) ∨
      (s.stage = .head ∧ s.run.failed = false ∧ s.run.readySet.allComplete = true ∧
        s.run.leases.isEmpty = true ∧
        t = ⟨(s.run.setStatus .succeeded).abandonOutstandingLeases, .finished⟩) ∨
      ∃ id output rest lease, s.stage = .applying (.finished id output :: rest) ∧
        Delivers s.run id output lease ∧ s.run.failed = false ∧
        Commits s.run.ledger t.run.ledger lease.task
          ⟨output.result, output.payloads, (S.executor lease.executor).id⟩ := by
  obtain ⟨r, stage⟩ := s
  unfold RunState.advance at advanced
  cases stage with
  | head =>
    simp only at advanced
    split_ifs at advanced with failed cancelled complete <;> cases advanced
    · exact .inl (.inl (quiet_abandonOutstandingLeases r))
    · exact .inl (.inl ((quiet_setCancelled (by simpa using failed)).trans
        (quiet_abandonOutstandingLeases _)))
    · obtain ⟨complete, empty⟩ := Bool.and_eq_true_iff.mp complete
      exact .inr (.inl ⟨rfl, by simpa using failed, complete, empty, rfl⟩)
    · exact .inl (.inl (quiet_dispatch (good (by simp))))
  | dispatched =>
    simp only at advanced
    have checked : (anyExecutorBackingOff r).2.ledger = r.ledger := ledger_anyBackingOff _ r
    split_ifs at advanced with empty backingOff <;> cases advanced
    · refine .inl (.inl ?_)
      simp only [ledger_waited, ledger_tick, checked]
      exact Quiet.refl _
    · exact .inl (.inr ⟨rfl, empty, by simpa using backingOff, rfl⟩)
    · refine .inl (.inl ?_)
      simp only [ledger_waited, ledger_tick]
      exact Quiet.refl _
  | applying events =>
    cases events with
    | nil =>
      cases advanced
      exact .inl (.inl (moves_expireLeases r).quiet)
    | cons event rest =>
      cases advanced
      rcases apply_cases r event with quiet | ⟨id, output, lease, rfl, delivers, running, commits⟩
      · exact .inl (.inl quiet)
      · exact .inr (.inr ⟨id, output, rest, lease, rfl, delivers, running, commits⟩)
  | finished => cases advanced

theorem inert_of_quiet_or_deadEnd {s t : RunState S}
    (h : Quiet s.run.ledger t.run.ledger ∨ DeadEnd s t) : Inert s.run.ledger t.run.ledger :=
  h.elim Quiet.toInert DeadEnd.inert

/-! ## At most one commit for each task -/

/-- The tasks a resumed result stands for. -/
def resumedTasks (S : SchedulerSetup) (resumed : List CommittedResult) : Set S.Task :=
  {t | ∃ committed ∈ resumed, committed.result.taskId = S.graph.taskId t}

/-- The sink calls so far and the committed phases agree. -/
structure CommitLog (l : Ledger S) (resumed : Set S.Task) : Prop where
  once : (l.commits.map Prod.fst).Nodup
  notResumed : ∀ c ∈ l.commits, c.1 ∉ resumed
  known : ∀ t, l.phase t = .committed → t ∈ resumed ∨ t ∈ l.commits.map Prod.fst
  committed : l.failure = none →
    ∀ t, t ∈ resumed ∨ t ∈ l.commits.map Prod.fst → l.phase t = .committed

theorem CommitLog.inert {l l' : Ledger S} {resumed : Set S.Task} (h : CommitLog l resumed)
    (quiet : Inert l l') : CommitLog l' resumed where
  once := quiet.commits ▸ h.once
  notResumed := quiet.commits ▸ h.notResumed
  known t committed := quiet.commits ▸ h.known t ((quiet.phase t).mp committed)
  committed running t mem := by
    have before : l.failure = none := by
      cases failure : l.failure with
      | none => rfl
      | some f => rw [quiet.failure f failure] at running; cases running
    exact (quiet.phase t).mpr (h.committed before t (quiet.commits ▸ mem))

theorem CommitLog.commit {l l' : Ledger S} {resumed : Set S.Task} (h : CommitLog l resumed)
    (running : l.failure = none) {t : S.Task} {committed : CommittedResult}
    (commits : Commits l l' t committed) : CommitLog l' resumed := by
  have notYet : t ∉ resumed ∧ t ∉ l.commits.map Prod.fst := by
    have := mt (h.committed running t) commits.fresh
    exact not_or.mp this
  have calls : l'.commits.map Prod.fst = l.commits.map Prod.fst ++ [t] := by
    rw [commits.commits, List.map_append]; rfl
  refine ⟨?_, fun c mem => ?_, fun x phase => ?_, fun running' x mem => ?_⟩
  · rw [calls]
    refine List.nodup_append.mpr ⟨h.once, List.nodup_singleton t, ?_⟩
    rintro x mem y single rfl
    exact notYet.2 (List.mem_singleton.mp single ▸ mem)
  · rw [commits.commits] at mem
    rcases List.mem_append.mp mem with old | new
    · exact h.notResumed c old
    · rw [List.mem_singleton.mp new]
      exact notYet.1
  · rw [calls]
    rcases commits.outcome with ⟨-, phases⟩ | ⟨-, phases, -⟩
    · exact (h.known x ((phases x).mp phase)).imp_right (List.mem_append_left _)
    · rcases (phases x).mp phase with rfl | before
      · exact .inr (List.mem_append_right _ (List.mem_singleton_self x))
      · exact (h.known x before).imp_right (List.mem_append_left _)
  · rcases commits.outcome with ⟨failed, -⟩ | ⟨-, phases, -⟩
    · rw [running'] at failed
      cases failed
    · rw [calls, List.mem_append, List.mem_singleton] at mem
      rw [phases]
      rcases mem with resumed | old | new
      · exact .inr (h.committed running x (.inl resumed))
      · exact .inr (h.committed running x (.inr old))
      · exact .inl new

/-- Where resuming stands once the results `seen` are marked committed. -/
structure Resumed (l : Ledger S) (seen : List CommittedResult) : Prop where
  phase : ∀ t, l.phase t = .committed ↔ t ∈ resumedTasks S seen
  commits : l.commits = []
  failure : l.failure = none
  status : l.status ≠ .succeeded
  once : (seen.map fun c => c.result.taskId).Nodup
  named : ∀ c ∈ seen, ∃ t, S.graph.taskId t = c.result.taskId

theorem Resumed.step {r r' : SchedulerRun S} {seen : List CommittedResult} {c : CommittedResult}
    (h : Resumed r.ledger seen) (applied : r.applyResumedResult c = .ok r') :
    Resumed r'.ledger (seen ++ [c]) := by
  obtain ⟨t, taskId, fresh, -, -, after⟩ := applyResumedResult_eq_ok applied
  have notSeen : t ∉ resumedTasks S seen := mt (h.phase t).mpr fresh
  have member : ∀ x, x ∈ resumedTasks S (seen ++ [c]) ↔ x = t ∨ x ∈ resumedTasks S seen := by
    intro x
    constructor
    · rintro ⟨c', mem, same⟩
      rcases List.mem_append.mp mem with old | new
      · exact .inr ⟨c', old, same⟩
      · rw [List.mem_singleton.mp new, ← taskId] at same
        exact .inl (TaskGraph.taskId_injective same.symm)
    · rintro (rfl | ⟨c', old, same⟩)
      · exact ⟨c, by simp, taskId.symm⟩
      · exact ⟨c', List.mem_append_left _ old, same⟩
  rw [after]
  refine ⟨fun x => ?_, h.commits, h.failure, h.status, ?_, fun c' mem => ?_⟩
  · rw [member]
    simp only [Function.update_apply]
    split
    · next same => simp [same]
    · next other => simp [other, h.phase x]
  · rw [List.map_append]
    refine List.nodup_append.mpr ⟨h.once, by simp, ?_⟩
    rintro id mem id' single rfl
    obtain ⟨c', inSeen, same⟩ := List.mem_map.mp mem
    refine notSeen ⟨c', inSeen, ?_⟩
    rw [taskId, same]
    simpa using single
  · rcases List.mem_append.mp mem with old | new
    · exact h.named c' old
    · exact ⟨t, by rw [List.mem_singleton.mp new, taskId]⟩

theorem Resumed.run {r r' : SchedulerRun S} {seen rest : List CommittedResult}
    (h : Resumed r.ledger seen) (applied : r.applyResumed rest = .ok r') :
    Resumed r'.ledger (seen ++ rest) := by
  induction rest generalizing seen r with
  | nil =>
    cases applied
    rwa [List.append_nil]
  | cons c rest ih =>
    obtain ⟨middle, first, applied⟩ := bind_eq_ok.mp applied
    have := ih (h.step first) applied
    rwa [← List.append_cons] at this

theorem resumed_start {resumed : List CommittedResult} {r : SchedulerRun S}
    (applied : (start S).applyResumed resumed = .ok r) : Resumed r.ledger resumed := by
  have empty : Resumed (start S).ledger [] := by
    refine ⟨fun t => by simp [ledger, start, resumedTasks], rfl, rfl, ?_, by simp, by simp⟩
    simp [ledger, start]
  exact empty.run applied

theorem Resumed.commitLog {l : Ledger S} {resumed : List CommittedResult} (h : Resumed l resumed) :
    CommitLog l (resumedTasks S resumed) where
  once := by simp [h.commits]
  notResumed := by simp [h.commits]
  known t phase := .inl ((h.phase t).mp phase)
  committed _ t mem := (h.phase t).mpr (mem.resolve_right (by simp [h.commits]))

/-! ## Every sink call is justified -/

variable {resumed : List CommittedResult}

/-- What a sink call was based on: at `u` the verified success of a live lease
of the task is applied, the task is not committed yet, and its dependencies are
all committed or resumed. -/
structure Justified (resumed : List CommittedResult) (u : RunState S)
    (call : S.Task × CommittedResult) : Prop where
  event : ∃ id output rest lease, u.stage = .applying (.finished id output :: rest) ∧
    u.run.leases.find? id = some lease ∧ lease.task = call.1 ∧
    output.result = call.2.result ∧ output.payloads = call.2.payloads ∧
    call.2.executorId = (S.executor lease.executor).id ∧
    findResultDefect S.codec (S.graph.spec call.1) lease.lease.attempt call.2.result
      call.2.payloads = none ∧
    call.2.result.attempt = lease.lease.attempt ∧ call.2.result.status = .succeeded
  first : call.1 ∉ (commitCalls u.run.log).map Prod.fst
  dependencies : ∀ d ∈ S.graph.dependencies call.1,
    d ∈ resumedTasks S resumed ∨ d ∈ (commitCalls u.run.log).map Prod.fst

/-- The invariant of the commit log over a whole run. -/
structure SafeAt (resumed : List CommittedResult) (s : RunState S) : Prop where
  log : CommitLog s.run.ledger (resumedTasks S resumed)
  status : s.stage ≠ .finished → s.run.ledger.status ≠ .succeeded
  failedStatus : s.run.ledger.failure.isSome → s.run.ledger.status = .failed
  justified : ∀ call ∈ commitCalls s.run.log, ∃ u, (schedulerSystem S resumed).Reachable u ∧
    (schedulerSystem S resumed).Leads u s ∧ Justified resumed u call

theorem leads_tail {s t u : RunState S} (run : (schedulerSystem S resumed).Leads s t)
    (step : (schedulerSystem S resumed).step t u) : (schedulerSystem S resumed).Leads s u :=
  Relation.ReflTransGen.tail run step

theorem SafeAt.step {s t : RunState S} (reach : (schedulerSystem S resumed).Reachable s)
    (h : SafeAt resumed s) (step : (schedulerSystem S resumed).step s t) : SafeAt resumed t := by
  obtain ⟨input, advanced⟩ := id step
  have kept : commitCalls t.run.log = commitCalls s.run.log →
      ∀ call ∈ commitCalls t.run.log, ∃ u, (schedulerSystem S resumed).Reachable u ∧
        (schedulerSystem S resumed).Leads u t ∧ Justified resumed u call := by
    intro same call mem
    obtain ⟨u, reachU, run, justified⟩ := h.justified call (same ▸ mem)
    exact ⟨u, reachU, leads_tail run step, justified⟩
  have notFinished : s.stage ≠ .finished := by
    intro finished
    unfold RunState.advance at advanced
    rw [finished] at advanced
    cases advanced
  rcases advance_cases (reachable_good reach) advanced with
    quiet | ⟨-, running, -, -, rfl⟩ | ⟨id, output, rest, lease, stage, delivers, running, commits⟩
  · have quiet := inert_of_quiet_or_deadEnd quiet
    exact ⟨h.log.inert quiet, fun _ => quiet.status (h.status notFinished),
      quiet.failedStatus h.failedStatus, kept quiet.commits⟩
  · have quiet := quiet_abandonOutstandingLeases (s.run.setStatus .succeeded)
    refine ⟨CommitLog.inert (l := (s.run.setStatus .succeeded).ledger) ?_ quiet.toInert,
      fun finished => absurd rfl finished, fun failed => ?_, kept quiet.commits⟩
    · exact ⟨h.log.once, h.log.notResumed, h.log.known, h.log.committed⟩
    · change s.run.ledger.failure.isSome at failed
      rw [(failed_iff s.run).mp running] at failed
      cases failed
  · have running := (failed_iff s.run).mp running
    refine ⟨h.log.commit running commits, fun _ => commits.status (h.status notFinished),
      commits.failedStatus, ?_⟩
    intro call mem
    have calls : commitCalls t.run.log = commitCalls s.run.log ++ _ := commits.commits
    rw [calls] at mem
    rcases List.mem_append.mp mem with old | new
    · obtain ⟨u, reachU, run, justified⟩ := h.justified call old
      exact ⟨u, reachU, leads_tail run step, justified⟩
    · rw [List.mem_singleton.mp new]
      obtain ⟨-, -, attempt, -⟩ := (findResultDefect_eq_none S.codec).mp delivers.noDefect
      have good := (reachable_good reach notFinished).consistent
      have live : (id, lease) ∈ s.run.ledger.leases.entries :=
        Lib.OrderedMap.find?_eq_some.mp delivers.live
      have leased : s.run.ledger.phase lease.task = .leased :=
        (good.leased live).resolve_right commits.fresh
      refine ⟨s, reach, Relation.ReflTransGen.single step, ⟨⟨id, output, rest, lease, stage,
        delivers.live, rfl, rfl, rfl, rfl, delivers.noDefect, attempt, delivers.succeeded⟩, ?_, ?_⟩⟩
      · exact fun called => commits.fresh (h.log.committed running _ (.inr called))
      · intro d mem
        exact h.log.known d ((good.complete d).mp (good.runnable _ (.inr leased) d mem))

theorem reachable_safe {s : RunState S} (reach : (schedulerSystem S resumed).Reachable s) :
    SafeAt resumed s := by
  refine reach.invariant ?_ fun s t reach h step => h.step reach step
  rintro s ⟨r, applied, rfl⟩
  have started := resumed_start applied
  have quiet := quiet_prepare r
  have running : r.ledger.failure.isSome → r.ledger.status = .failed := by simp [started.failure]
  refine ⟨started.commitLog.inert quiet.toInert, fun _ => quiet.status started.status,
    quiet.failedStatus running, fun call mem => ?_⟩
  have none : commitCalls r.prepare.log = [] := quiet.commits.trans started.commits
  rw [none] at mem
  cases mem

/-! ## What success means -/

/-- A run that reports success has committed or resumed every task exactly once,
and it reports it in a state without leases. -/
theorem succeeded_complete {s : RunState S} (reach : (schedulerSystem S resumed).Reachable s)
    (finished : s.stage = .finished) (succeeded : s.run.outcome.status = .succeeded) :
    (∀ t, ((commitCalls s.run.log).map (fun c => S.graph.taskId c.1) ++
        resumed.map fun c => c.result.taskId).count (S.graph.taskId t) = 1) ∧
      ∃ u, (schedulerSystem S resumed).Reachable u ∧ (schedulerSystem S resumed).step u s ∧
        u.run.leases.entries = [] ∧ s.run.log = u.run.log := by
  obtain ⟨start, ⟨r, applied, rfl⟩, run⟩ := reach
  have started := resumed_start applied
  rcases Relation.ReflTransGen.cases_tail run with same | ⟨u, before, step⟩
  · rw [same] at finished
    cases finished
  · have reachU : (schedulerSystem S resumed).Reachable u := ⟨_, ⟨r, applied, rfl⟩, before⟩
    obtain ⟨input, advanced⟩ := id step
    have safe := reachable_safe reachU
    have notFinished : u.stage ≠ .finished := by
      intro finished
      unfold RunState.advance at advanced
      rw [finished] at advanced
      cases advanced
    rcases advance_cases (reachable_good reachU) advanced with
      quiet | ⟨-, running, complete, empty, rfl⟩ | ⟨_, _, _, _, -, -, -, commits⟩
    · exact absurd succeeded ((inert_of_quiet_or_deadEnd quiet).status (safe.status notFinished))
    · have empty : u.run.leases.entries = [] := Lib.OrderedMap.isEmpty_iff.mp empty
      have running := (failed_iff u.run).mp running
      have consistent := (reachable_good reachU notFinished).consistent
      have log : ((u.run.setStatus .succeeded).abandonOutstandingLeases).log = u.run.log := by
        simp [abandonOutstandingLeases, setStatus, empty]
      refine ⟨fun t => ?_, u, reachU, step, empty, log⟩
      rw [log]
      have committed : u.run.ledger.phase t = .committed :=
        (consistent.complete t).mp ((consistent.readySet.allComplete_iff).mp complete t)
      have calls : (commitCalls u.run.log).map (fun c => S.graph.taskId c.1) =
          ((commitCalls u.run.log).map Prod.fst).map S.graph.taskId := by
        rw [List.map_map]; rfl
      refine List.count_eq_one_of_mem ?_ ?_
      · rw [calls]
        refine List.nodup_append.mpr
          ⟨safe.log.once.map TaskGraph.taskId_injective, started.once, ?_⟩
        rintro id inCalls id' inResumed rfl
        obtain ⟨t', mem, same⟩ := List.mem_map.mp inCalls
        obtain ⟨c, inCalls, rfl⟩ := List.mem_map.mp mem
        obtain ⟨c', inList, same'⟩ := List.mem_map.mp inResumed
        exact safe.log.notResumed c inCalls ⟨c', inList, same'.trans same.symm⟩
      · rw [calls, List.mem_append]
        rcases safe.log.known t committed with ⟨c, mem, same⟩ | called
        · exact .inr (List.mem_map.mpr ⟨c, mem, same⟩)
        · exact .inl (List.mem_map_of_mem called)
    · exact absurd succeeded (commits.status (safe.status notFinished))

/-! ## Diverging results -/

/-- What a verified success of a live lease does. -/
theorem onFinished_delivers {r : SchedulerRun S} {id : String} {output : AttemptOutput}
    {lease : LeaseRecord S} (delivers : Delivers r id output lease) :
    ∃ noted : SchedulerRun S, noted.ledger = r.ledger.release id lease ∧
      r.onFinished id output =
        if r.ledger.phase lease.task ≠ .committed then noted.commit lease output
        else if output.result.outputDigest = r.ledger.digest lease.task then
          noted.discardDuplicate lease
        else noted.reportIncident lease output := by
  obtain ⟨live, noDefect, succeeded⟩ := delivers
  unfold onFinished
  rw [live]
  simp only [noDefect, succeeded]
  have cleared : ((r.release id lease).modifyExecutor lease.executor fun record =>
      { record with declinedUntil := 0 }).ledger = r.ledger.release id lease := by
    rw [← ledger_release]
    apply ledger_modifyExecutor <;> exact fun _ => rfl
  set cleared' := (r.release id lease).modifyExecutor lease.executor fun record =>
    { record with declinedUntil := 0 }
  have noted : (cleared'.noteExecutorRecovery lease).ledger = r.ledger.release id lease := by
    rw [ledger_noteExecutorRecovery, cleared]
  refine ⟨cleared'.noteExecutorRecovery lease, noted, ?_⟩
  have phase : ((cleared'.noteExecutorRecovery lease).tasks lease.task).phase =
      r.ledger.phase lease.task := congrFun (congrArg Ledger.phase noted) lease.task
  have digest : ((cleared'.noteExecutorRecovery lease).tasks lease.task).committedOutputDigest =
      r.ledger.digest lease.task := congrFun (congrArg Ledger.digest noted) lease.task
  unfold onVerifiedSuccess
  simp only [phase, digest]

/-- After a verified success that did not fail the run, its digest is the
committed one. -/
theorem apply_delivers_agrees {r : SchedulerRun S} {id : String} {output : AttemptOutput}
    {lease : LeaseRecord S} (delivers : Delivers r id output lease) (running : r.failed = false)
    (stillRunning : (r.apply (.finished id output)).failed = false) :
    (r.apply (.finished id output)).ledger.phase lease.task = .committed ∧
      (r.apply (.finished id output)).ledger.digest lease.task = output.result.outputDigest := by
  have applied : r.apply (.finished id output) = r.onFinished id output := by
    simp [apply, running]
  obtain ⟨noted, ledger, after⟩ := onFinished_delivers delivers
  have notedRunning : noted.failed = false := by
    rw [failed_iff, ledger]
    exact (failed_iff r).mp running
  rw [failed_iff, applied, after] at stillRunning
  rw [applied, after]
  by_cases fresh : r.ledger.phase lease.task ≠ .committed
  · rw [if_pos fresh] at stillRunning ⊢
    have fresh' : noted.ledger.phase lease.task ≠ .committed := by rw [ledger]; exact fresh
    have commits := commits_commit fresh' notedRunning output
    rcases commits.outcome with ⟨failed, -⟩ | ⟨-, phases, digest⟩
    · rw [stillRunning] at failed
      cases failed
    · exact ⟨(phases _).mpr (.inl rfl), by rw [digest, Function.update_self]⟩
  · rw [if_neg fresh] at stillRunning ⊢
    by_cases same : output.result.outputDigest = r.ledger.digest lease.task
    · rw [if_pos same, ledger_discardDuplicate, ledger]
      exact ⟨not_not.mp fresh, same.symm⟩
    · rw [if_neg same, ledger_reportIncident, if_neg (by simp [notedRunning])] at stillRunning
      cases stillRunning

/-- A verified success that differs from the committed result fails the run. -/
theorem apply_delivers_diverges {r : SchedulerRun S} {id : String} {output : AttemptOutput}
    {lease : LeaseRecord S} (delivers : Delivers r id output lease) (running : r.failed = false)
    (committed : r.ledger.phase lease.task = .committed)
    (differs : output.result.outputDigest ≠ r.ledger.digest lease.task) :
    ∃ f, (r.apply (.finished id output)).ledger.failure = some f ∧
      f.kind = .determinismIncident := by
  have applied : r.apply (.finished id output) = r.onFinished id output := by
    simp [apply, running]
  obtain ⟨noted, ledger, after⟩ := onFinished_delivers delivers
  have notedRunning : noted.failed = false := by
    rw [failed_iff, ledger]
    exact (failed_iff r).mp running
  rw [applied, after, if_neg (not_not.mpr committed), if_neg differs, ledger_reportIncident,
    if_neg (by simp [notedRunning])]
  exact ⟨_, rfl, rfl⟩

/-- A failure stays to the end of the run. -/
theorem failure_persists {s t : RunState S} {f : BuildFailure}
    (reach : (schedulerSystem S resumed).Reachable s) (run : (schedulerSystem S resumed).Leads s t)
    (failed : s.run.ledger.failure = some f) : t.run.ledger.failure = some f := by
  refine run.preserves_reachable (P := fun s => s.run.ledger.failure = some f) ?_ reach failed
  rintro s t reach failed ⟨input, advanced⟩
  rcases advance_cases (reachable_good reach) advanced with
    quiet | ⟨-, running, -⟩ | ⟨-, -, -, -, -, -, running, -⟩
  · exact (inert_of_quiet_or_deadEnd quiet).failure f failed
  · rw [(failed_iff s.run).mp running] at failed
    cases failed
  · rw [(failed_iff s.run).mp running] at failed
    cases failed

/-- Until the run fails, a committed task keeps its digest. -/
theorem digest_persists {s t : RunState S} {task : S.Task} {digest : Blake3Digest}
    (reach : (schedulerSystem S resumed).Reachable s) (run : (schedulerSystem S resumed).Leads s t)
    (committed : s.run.ledger.phase task = .committed ∧ s.run.ledger.digest task = digest)
    (running : t.run.failed = false) :
    t.run.ledger.phase task = .committed ∧ t.run.ledger.digest task = digest := by
  have kept := run.preserves_reachable (P := fun s => s.run.ledger.failure.isSome ∨
    s.run.ledger.phase task = .committed ∧ s.run.ledger.digest task = digest) ?_ reach
    (.inr committed)
  · refine kept.resolve_left ?_
    rw [(failed_iff t.run).mp running]
    simp
  · rintro s t reach (failed | ⟨committed, same⟩) step
    · obtain ⟨f, failed⟩ := Option.isSome_iff_exists.mp failed
      rw [failure_persists reach (Relation.ReflTransGen.single step) failed]
      exact .inl rfl
    · obtain ⟨input, advanced⟩ := step
      rcases advance_cases (reachable_good reach) advanced with
        quiet | ⟨-, -, -, -, rfl⟩ | ⟨_, _, _, lease, -, -, -, commits⟩
      · have quiet := inert_of_quiet_or_deadEnd quiet
        exact .inr ⟨(quiet.phase task).mpr committed, by rw [quiet.digest, same]⟩
      · exact .inr ⟨committed, same⟩
      · have other : task ≠ lease.task := fun isIt => commits.fresh (isIt ▸ committed)
        rcases commits.outcome with ⟨failed, -⟩ | ⟨-, phases, digests⟩
        · exact .inl failed
        · exact .inr ⟨(phases task).mpr (.inr committed), by
            rw [digests, Function.update_of_ne other, same]⟩

/-- `s` is about to apply the verified success `output` of a live lease of
`task`, and the run has not failed. -/
structure Hears (s : RunState S) (task : S.Task) (output : AttemptOutput) : Prop where
  running : s.run.failed = false
  event : ∃ id rest lease, s.stage = .applying (.finished id output :: rest) ∧
    Delivers s.run id output lease ∧ lease.task = task

/-- Two verified successes of one task with different digests, both heard by a
run that has not failed, end the run with a determinism incident. -/
theorem divergence_fails {u v w : RunState S} {task : S.Task} {first second : AttemptOutput}
    (reach : (schedulerSystem S resumed).Reachable u) (between : (schedulerSystem S resumed).Leads u v)
    (after : (schedulerSystem S resumed).Leads v w) (heardFirst : Hears u task first)
    (heardSecond : Hears v task second)
    (differ : first.result.outputDigest ≠ second.result.outputDigest) (finished : w.stage = .finished) :
    w.run.outcome.status = .failed ∧
      w.run.outcome.failure.map BuildFailure.kind = some .determinismIncident := by
  obtain ⟨runningU, idU, restU, leaseU, stageU, deliversU, rfl⟩ := heardFirst
  obtain ⟨runningV, idV, restV, leaseV, stageV, deliversV, sameTask⟩ := heardSecond
  have reachV := reach.run between
  -- the event heard at a state decides its only step
  have forced : ∀ {s t : RunState S} {event : InboxEvent} {rest : List InboxEvent},
      s.stage = .applying (event :: rest) → (schedulerSystem S resumed).step s t →
      t = ⟨s.run.apply event, .applying rest⟩ := by
    rintro ⟨r, stage⟩ t event rest rfl ⟨input, advanced⟩
    cases advanced
    rfl
  have agreed : v.run.ledger.phase leaseU.task = .committed ∧
      v.run.ledger.digest leaseU.task = first.result.outputDigest := by
    rcases Relation.ReflTransGen.cases_head between with rfl | ⟨next, step, rest⟩
    · rw [stageU] at stageV
      cases stageV
      exact absurd rfl differ
    · have isNext := forced stageU step
      have stillRunning : next.run.failed = false := by
        by_contra failed
        have failed : next.run.ledger.failure ≠ none := fun none => failed ((failed_iff _).mpr none)
        obtain ⟨f, failed⟩ := Option.ne_none_iff_exists'.mp failed
        have := failure_persists (reach.next step) rest failed
        rw [(failed_iff v.run).mp runningV] at this
        cases this
      refine digest_persists (reach.next step) rest ?_ runningV
      rw [isNext] at stillRunning ⊢
      exact apply_delivers_agrees deliversU runningU stillRunning
  rcases Relation.ReflTransGen.cases_head after with rfl | ⟨next, step, rest⟩
  · rw [stageV] at finished
    cases finished
  · have isNext := forced stageV step
    obtain ⟨f, failed, kind⟩ := apply_delivers_diverges deliversV runningV
      (by rw [sameTask]; exact agreed.1) (by rw [sameTask, agreed.2]; exact differ.symm)
    have failed : next.run.ledger.failure = some f := by rw [isNext]; exact failed
    have atEnd := failure_persists (reachV.next step) rest failed
    refine ⟨(reachable_safe (reachV.run after)).failedStatus (by rw [atEnd]; rfl), ?_⟩
    have atEnd : w.run.outcome.failure = some f := atEnd
    rw [atEnd]
    exact congrArg some kind

/-! ## Commit safety -/

/-- Commit safety of all runs of `Scheduler::run` on a setup. -/
structure CommitSafety (S : SchedulerSetup) (resumed : List CommittedResult) : Prop where
  /-- `commit` is called at most once for each task and never for a resumed one. -/
  once : ∀ s, (schedulerSystem S resumed).Reachable s →
    ((commitCalls s.run.log).map Prod.fst).Nodup ∧
      ∀ call ∈ commitCalls s.run.log, call.1 ∉ resumedTasks S resumed
  /-- Every call rests on a verified success of a live lease, with the
  dependencies done. -/
  justified : ∀ s, (schedulerSystem S resumed).Reachable s → ∀ call ∈ commitCalls s.run.log,
    ∃ u, (schedulerSystem S resumed).Reachable u ∧ (schedulerSystem S resumed).Leads u s ∧
      Justified resumed u call
  /-- Success means that every task is done and no lease is outstanding. -/
  success : ∀ s, (schedulerSystem S resumed).Reachable s → s.stage = .finished →
    s.run.outcome.status = .succeeded →
    (∀ t, ((commitCalls s.run.log).map (fun c => S.graph.taskId c.1) ++
        resumed.map fun c => c.result.taskId).count (S.graph.taskId t) = 1) ∧
      ∃ u, (schedulerSystem S resumed).Reachable u ∧ (schedulerSystem S resumed).step u s ∧
        u.run.leases.entries = [] ∧ s.run.log = u.run.log
  /-- Diverging verified successes fail the run. -/
  divergence : ∀ u v w task first second, (schedulerSystem S resumed).Reachable u →
    (schedulerSystem S resumed).Leads u v → (schedulerSystem S resumed).Leads v w →
    Hears u task first → Hears v task second →
    first.result.outputDigest ≠ second.result.outputDigest → w.stage = .finished →
    w.run.outcome.status = .failed ∧
      w.run.outcome.failure.map BuildFailure.kind = some .determinismIncident

theorem commit_safety (S : SchedulerSetup) (resumed : List CommittedResult) :
    CommitSafety S resumed where
  once _ reach := ⟨(reachable_safe reach).log.once, (reachable_safe reach).log.notResumed⟩
  justified _ reach := (reachable_safe reach).justified
  success _ reach := succeeded_complete reach
  divergence _ _ _ _ _ _ reach between after heardFirst heardSecond differ finished :=
    divergence_fails reach between after heardFirst heardSecond differ finished

/-! ## Two executors that disagree -/

/-- The one task, duplicated on a second executor. -/
def duelSetup : SchedulerSetup where
  codec := sampleCodec
  policy := { speculativeDuplicates := true }
  graph := soloGraph
  executorCount := 2
  executor e := { id := if e.val = 0 then "first" else "second", slots := 1 }
  sinkError _ := none
  clock n := n
  policyValid := rfl
  executorsValid := by decide

/-- Attempt 1 produces nothing. -/
def duelFirst : AttemptOutput where
  result :=
    { taskId := "task", attempt := 1, outputDigest := emptyOutputsDigest
      execution := { workerSessionId := "first" } }
  payloads := []

/-- Attempt 2 produces one empty output. -/
def duelSecond : AttemptOutput where
  result :=
    { taskId := "task", attempt := 2, outputs := [emptyOutput], outputDigest := emptyOutputDigest
      execution := { workerSessionId := "second" } }
  payloads := [[]]

/-- The run once both leases are granted, and both results are in the inbox. -/
def duelHearing : RunState duelSetup where
  run :=
    let dispatched := (SchedulerRun.start duelSetup).prepare.dispatch
    dispatched.tick.perform (.waited dispatched.nextWait)
  stage := .applying [.finished "lease_1" duelFirst, .finished "lease_2" duelSecond]

def duelHeard : RunState duelSetup where
  run := duelHearing.run.apply (.finished "lease_1" duelFirst)
  stage := .applying [.finished "lease_2" duelSecond]

def duelEnd : RunState duelSetup where
  run := (duelHeard.run.apply (.finished "lease_2" duelSecond)).expireLeases.abandonOutstandingLeases
  stage := .finished

theorem duelHearing_reachable : (schedulerSystem duelSetup []).Reachable duelHearing := by
  have head : (schedulerSystem duelSetup []).Reachable
      ⟨(SchedulerRun.start duelSetup).prepare, .head⟩ := .start ⟨_, rfl, rfl⟩
  have dispatched : (schedulerSystem duelSetup []).Reachable
      ⟨(SchedulerRun.start duelSetup).prepare.dispatch, .dispatched⟩ := head.next ⟨{}, rfl⟩
  exact dispatched.next
    ⟨{ events := [.finished "lease_1" duelFirst, .finished "lease_2" duelSecond] }, rfl⟩

theorem duel_no_defect :
    findResultDefect sampleCodec soloSpec 1 duelFirst.result duelFirst.payloads = none ∧
      findResultDefect sampleCodec soloSpec 2 duelSecond.result duelSecond.payloads = none := by
  decide

theorem duelHearing_hears : Hears duelHearing (0 : Fin 1) duelFirst where
  running := rfl
  event := ⟨"lease_1", _, duelHearing.run.leases.entries[0].2, rfl,
    ⟨by decide, duel_no_defect.1, rfl⟩, rfl⟩

theorem duelHeard_hears : Hears duelHeard (0 : Fin 1) duelSecond where
  running := by decide
  event := ⟨"lease_2", _, duelHeard.run.leases.entries[0].2, rfl,
    ⟨by decide, duel_no_defect.2, rfl⟩, rfl⟩

/-- The second result fails the run. -/
theorem commit_safety_duel : duelEnd.run.outcome.status = .failed ∧
    duelEnd.run.outcome.failure.map BuildFailure.kind = some .determinismIncident := by
  have heard : (schedulerSystem duelSetup []).step duelHearing duelHeard := ⟨{}, rfl⟩
  have ended : (schedulerSystem duelSetup []).Leads duelHeard duelEnd := by
    refine .head (b := ⟨duelHeard.run.apply (.finished "lease_2" duelSecond), .applying []⟩)
      ⟨{}, rfl⟩ (.head (b := ⟨_, .head⟩) ⟨{}, rfl⟩ (.single ⟨{}, ?_⟩))
    have failed : (duelHeard.run.apply (.finished "lease_2" duelSecond)).expireLeases.failed := by
      decide
    simp only [RunState.advance, failed, if_true]
    rfl
  exact (commit_safety duelSetup []).divergence duelHearing duelHeard duelEnd (0 : Fin 1) duelFirst
    duelSecond duelHearing_reachable (.single heard) ended duelHearing_hears duelHeard_hears
    (by decide) rfl

end Svp.Exec

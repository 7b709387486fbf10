import Svp.Exec.SchedulerLedger

/-!
# Structural invariant of the scheduler

Every handler and every dispatch pass acts on the lease ledger through the moves
of `Ledger`, so the ledger of a reachable run is consistent, every leased task
has a lease and no quarantined executor holds one (`reachable_good`). The main
result reads this off the tables of the run: `structural_invariant`.
-/

namespace Svp.Exec

open Ledger

variable {S : SchedulerSetup}

/-- What the structural invariants see of a run. -/
def SchedulerRun.ledger (r : SchedulerRun S) : Ledger S where
  phase t := (r.tasks t).phase
  activeLeases t := (r.tasks t).activeLeases
  attemptsStarted t := (r.tasks t).attemptsStarted
  digest t := (r.tasks t).committedOutputDigest
  active e := (r.executors e).active
  quarantined e := (r.executors e).quarantined
  leases := r.leases
  readySet := r.readySet
  readyQueue := r.readyQueue
  nextLeaseNumber := r.nextLeaseNumber
  grants := grantCalls r.log
  commits := commitCalls r.log
  failure := r.outcome.failure
  status := r.outcome.status

namespace Ledger

/-- The invariant between two handlers; `exempt` is empty then. -/
structure Good (l : Ledger S) (exempt : Set S.Task) : Prop where
  consistent : l.Consistent ∅
  settled : l.Settled exempt
  idle : l.Idle ∅

def requeueIdle (l : Ledger S) (t : S.Task) : Ledger S :=
  if l.phase t ≠ .committed ∧ l.activeLeases t = ∅ then l.requeue t else l

/-- A lease is given up and its task requeued unless another attempt runs. -/
def drop (l : Ledger S) (id : String) (lease : LeaseRecord S) : Ledger S :=
  (l.release id lease).requeueIdle lease.task

/-- `drop` of whatever lease the id names. -/
def dropNamed (l : Ledger S) (id : String) : Ledger S :=
  match l.leases.find? id with
  | none => l
  | some lease => l.drop id lease

def recordCommit (l : Ledger S) (t : S.Task) (committed : CommittedResult) : Ledger S :=
  { l with commits := l.commits ++ [(t, committed)] }

def fail (l : Ledger S) (failure : BuildFailure) : Ledger S :=
  { l with failure := some failure, status := .failed }

theorem Consistent.recordCommit {l : Ledger S} {due : Set S.Task} (h : l.Consistent due)
    (t : S.Task) (committed : CommittedResult) : (l.recordCommit t committed).Consistent due :=
  { h with }

theorem Consistent.fail {l : Ledger S} {due : Set S.Task} (h : l.Consistent due)
    (failure : BuildFailure) : (l.fail failure).Consistent due :=
  { h with }

/-- In a failed run nothing is left to settle. -/
theorem Good.fail {l : Ledger S} {exempt : Set S.Task} (consistent : l.Consistent ∅)
    (idle : l.Idle ∅) (failure : BuildFailure) : (l.fail failure).Good exempt where
  consistent := consistent.fail failure
  settled running := by cases running
  idle := idle

/-- The tasks that left the waiting phase stay out of it. -/
def StartedIn (l l' : Ledger S) : Prop := ∀ t, l.phase t ≠ .waiting → l'.phase t ≠ .waiting

theorem StartedIn.trans {l l' l'' : Ledger S} (h : StartedIn l l') (h' : StartedIn l' l'') :
    StartedIn l l'' := fun t started => h' t (h t started)

theorem startedIn_requeueIdle (l : Ledger S) (t : S.Task) : StartedIn l (l.requeueIdle t) := by
  intro x started
  unfold requeueIdle
  split
  · simp only [requeue, Function.update_apply]
    split
    · decide
    · exact started
  · exact started

theorem leases_requeueIdle (l : Ledger S) (t : S.Task) : (l.requeueIdle t).leases = l.leases := by
  unfold requeueIdle
  split <;> rfl

theorem Consistent.requeueIdle {l : Ledger S} (h : l.Consistent ∅) {t : S.Task}
    (started : l.phase t ≠ .waiting) : (l.requeueIdle t).Consistent ∅ := by
  unfold Ledger.requeueIdle
  split
  · next idle =>
    have deps : l.readySet.DepsComplete t := by
      refine h.runnable t ?_
      cases phase : l.phase t with
      | waiting => exact absurd phase started
      | ready => exact .inl rfl
      | leased => exact .inr rfl
      | committed => exact absurd phase idle.1
    exact (h.requeue idle.1 idle.2 deps).mono fun x mem => absurd mem.1 (Set.notMem_empty x)
  · exact h

theorem Settled.requeueIdle {l : Ledger S} {exempt : Set S.Task} {t : S.Task}
    (h : l.Settled (insert t exempt)) : (l.requeueIdle t).Settled exempt := by
  unfold Ledger.requeueIdle
  split
  · exact h.requeue
  · next busy =>
    intro running x notExempt leased
    by_cases same : x = t
    · subst same
      exact fun noLease => busy ⟨by rw [leased]; decide, noLease⟩
    · exact h running x (by simp [same, notExempt]) leased

theorem Consistent.drop {l : Ledger S} (h : l.Consistent ∅) {id : String} {lease : LeaseRecord S}
    (mem : (id, lease) ∈ l.leases.entries) : (l.drop id lease).Consistent ∅ := by
  refine (h.release mem).requeueIdle ?_
  change l.phase lease.task ≠ .waiting
  rcases h.leased mem with leased | committed
  · rw [leased]; decide
  · rw [committed]; decide

/-- What giving up leases one after another keeps; the table loses exactly the
named ones. -/
theorem dropNamed_foldl (ids : List String) {l : Ledger S} {exempt : Set S.Task}
    (h : l.Consistent ∅) (settled : l.Settled exempt) :
    (ids.foldl dropNamed l).Consistent ∅ ∧ (ids.foldl dropNamed l).Settled exempt ∧
      StartedIn l (ids.foldl dropNamed l) ∧
      (ids.foldl dropNamed l).quarantined = l.quarantined ∧
      ∀ p, p ∈ (ids.foldl dropNamed l).leases.entries ↔ p ∈ l.leases.entries ∧ p.1 ∉ ids := by
  induction ids generalizing l with
  | nil => exact ⟨h, settled, fun _ started => started, rfl, by simp⟩
  | cons id rest ih =>
    rw [List.foldl_cons]
    cases found : l.leases.find? id with
    | none =>
      have same : l.dropNamed id = l := by simp [dropNamed, found]
      obtain ⟨consistent, settled, started, quarantined, table⟩ := ih h settled
      rw [same]
      refine ⟨consistent, settled, started, quarantined, fun p => ?_⟩
      have absent := Lib.OrderedMap.find?_eq_none.mp found
      rw [table, List.mem_cons, not_or]
      constructor
      · rintro ⟨mem, notRest⟩
        exact ⟨mem, fun named => absent p.2 (by rw [← named]; exact mem), notRest⟩
      · rintro ⟨mem, -, notRest⟩
        exact ⟨mem, notRest⟩
    | some lease =>
      have step : l.dropNamed id = l.drop id lease := by simp [dropNamed, found]
      have mem := Lib.OrderedMap.find?_eq_some.mp found
      obtain ⟨consistent, settled', started, quarantined, table⟩ :=
        ih (h.drop mem) (settled.release.requeueIdle : (l.drop id lease).Settled exempt)
      rw [step]
      refine ⟨consistent, settled', ?_, ?_, fun p => ?_⟩
      · refine StartedIn.trans (fun t started => ?_) started
        exact startedIn_requeueIdle (l.release id lease) lease.task t started
      · rw [quarantined, drop, Ledger.requeueIdle]
        split <;> rfl
      · rw [table, drop, leases_requeueIdle, Ledger.release, Lib.OrderedMap.mem_erase,
          List.mem_cons, not_or]
        tauto

end Ledger

namespace SchedulerRun

open Ledger

/-! ## What leaves the ledger as it is -/

theorem ledger_modifyTask {r : SchedulerRun S} {t : S.Task} {f : TaskRecord S → TaskRecord S}
    (phase : ∀ task, (f task).phase = task.phase)
    (activeLeases : ∀ task, (f task).activeLeases = task.activeLeases)
    (attempts : ∀ task, (f task).attemptsStarted = task.attemptsStarted)
    (digest : ∀ task, (f task).committedOutputDigest = task.committedOutputDigest) :
    (r.modifyTask t f).ledger = r.ledger := by
  have same : ∀ {β : Type} (g : TaskRecord S → β), (∀ task, g (f task) = g task) →
      (fun x => g (Function.update r.tasks t (f (r.tasks t)) x)) = fun x => g (r.tasks x) := by
    intro β g keeps
    funext x
    rw [Function.update_apply]
    split
    · next same => rw [keeps, same]
    · rfl
  simp only [ledger, modifyTask, same _ phase, same _ activeLeases, same _ attempts, same _ digest]

theorem ledger_modifyExecutor {r : SchedulerRun S} {e : S.ExecutorIndex}
    {f : ExecutorRecord → ExecutorRecord} (active : ∀ record, (f record).active = record.active)
    (quarantined : ∀ record, (f record).quarantined = record.quarantined) :
    (r.modifyExecutor e f).ledger = r.ledger := by
  have same : ∀ {β : Type} (g : ExecutorRecord → β), (∀ record, g (f record) = g record) →
      (fun x => g (Function.update r.executors e (f (r.executors e)) x)) =
        fun x => g (r.executors x) := by
    intro β g keeps
    funext x
    rw [Function.update_apply]
    split
    · next same => rw [keeps, same]
    · rfl
  simp only [ledger, modifyExecutor, same _ active, same _ quarantined]

theorem ledger_perform {r : SchedulerRun S} {effect : Effect S} (noGrant : grantCalls [effect] = [])
    (noCommit : commitCalls [effect] = []) : (r.perform effect).ledger = r.ledger := by
  have grants : grantCalls (r.log ++ [effect]) = grantCalls r.log := by
    rw [grantCalls, List.filterMap_append]
    change _ ++ grantCalls [effect] = _
    rw [noGrant, List.append_nil]
    rfl
  have commits : commitCalls (r.log ++ [effect]) = commitCalls r.log := by
    rw [commitCalls, List.filterMap_append]
    change _ ++ commitCalls [effect] = _
    rw [noCommit, List.append_nil]
    rfl
  simp only [ledger, perform, grants, commits]

@[simp] theorem ledger_tick (r : SchedulerRun S) : r.tick.ledger = r.ledger := rfl

@[simp] theorem ledger_modifyStats (r : SchedulerRun S) (f : SchedulerStats → SchedulerStats) :
    (r.modifyStats f).ledger = r.ledger := rfl

@[simp] theorem ledger_observed (r : SchedulerRun S) (event : AttemptEvent) :
    (r.perform (.observed event)).ledger = r.ledger := ledger_perform rfl rfl

@[simp] theorem ledger_cancel (r : SchedulerRun S) (e : S.ExecutorIndex) (id : String) :
    (r.perform (.cancel e id)).ledger = r.ledger := ledger_perform rfl rfl

@[simp] theorem ledger_leaseExpired (r : SchedulerRun S) (e : S.ExecutorIndex) (id : String) :
    (r.perform (.leaseExpired e id)).ledger = r.ledger := ledger_perform rfl rfl

@[simp] theorem ledger_waited (r : SchedulerRun S) (timeout : Millis) :
    (r.perform (.waited timeout)).ledger = r.ledger := ledger_perform rfl rfl

@[simp] theorem ledger_emit (r : SchedulerRun S) (kind : AttemptEventKind) (lease : LeaseRecord S)
    (detail : String) : (r.emit kind lease detail).ledger = r.ledger := ledger_observed r _

@[simp] theorem ledger_noteExecutorRecovery (r : SchedulerRun S) (lease : LeaseRecord S) :
    (r.noteExecutorRecovery lease).ledger = r.ledger := by
  unfold noteExecutorRecovery
  split
  · exact ledger_modifyExecutor (fun _ => rfl) fun _ => rfl
  · rfl

/-! ## What acts on it by a move -/

theorem update_field {α β : Type*} {κ : Type*} [DecidableEq κ] (f : κ → α) (g : α → β) (k : κ)
    (a : α) : (fun x => g (Function.update f k a x)) = Function.update (fun x => g (f x)) k (g a) := by
  funext x
  simp only [Function.update_apply]
  split <;> rfl

theorem ledger_release (r : SchedulerRun S) (id : String) (lease : LeaseRecord S) :
    (r.release id lease).ledger = r.ledger.release id lease := by
  simp only [ledger, release, Ledger.release, modifyTask, modifyExecutor, update_field,
    Function.update_eq_self]

theorem ledger_requeue (r : SchedulerRun S) (t : S.Task) :
    (r.requeue t).ledger = r.ledger.requeue t := by
  simp only [ledger, requeue, Ledger.requeue, modifyTask, update_field, Function.update_eq_self]

theorem ledger_requeueIdle (r : SchedulerRun S) (t : S.Task) :
    (r.requeueIdle t).ledger = r.ledger.requeueIdle t := by
  unfold SchedulerRun.requeueIdle Ledger.requeueIdle
  by_cases idle : (r.tasks t).phase ≠ .committed ∧ (r.tasks t).activeLeases = ∅
  · rw [if_pos idle, ledger_requeue]
    exact (if_pos idle).symm
  · rw [if_neg idle]
    exact (if_neg idle).symm

theorem ledger_abandonLease (e : S.ExecutorIndex) (r : SchedulerRun S) (id : String) :
    (abandonLease e r id).ledger = r.ledger.dropNamed id := by
  unfold abandonLease Ledger.dropNamed
  cases found : r.leases.find? id with
  | none => simp [ledger, found]
  | some lease =>
    have found' : r.ledger.leases.find? id = some lease := found
    simp only [found', Ledger.drop, ledger_requeueIdle]
    rw [ledger_modifyTask, ledger_cancel, ledger_release]
    all_goals exact fun _ => rfl

theorem ledger_abandonLease_foldl (e : S.ExecutorIndex) (ids : List String) (r : SchedulerRun S) :
    (ids.foldl (abandonLease e) r).ledger = ids.foldl Ledger.dropNamed r.ledger := by
  induction ids generalizing r with
  | nil => rfl
  | cons id rest ih => rw [List.foldl_cons, List.foldl_cons, ih, ledger_abandonLease]

theorem ledger_quarantine_of_not {r : SchedulerRun S} {e : S.ExecutorIndex} (reason : String)
    (usable : (r.executors e).quarantined = false) :
    (r.quarantine e reason).ledger =
      (r.leasesOf e).foldl Ledger.dropNamed (r.ledger.setQuarantined e) := by
  unfold SchedulerRun.quarantine
  rw [if_neg (by simp [usable])]
  simp only [ledger_abandonLease_foldl, ledger_observed, ledger_modifyStats]
  congr 1
  simp only [ledger, modifyExecutor, Ledger.setQuarantined, update_field, Function.update_eq_self]

theorem ledger_failBuild (r : SchedulerRun S) (kind : BuildFailureKind) (taskId message : String) :
    (r.failBuild kind taskId message).ledger =
      if r.failed then r.ledger else r.ledger.fail ⟨kind, taskId, message⟩ := by
  unfold failBuild
  split <;> rfl

@[simp] theorem ledger_discardDuplicate (r : SchedulerRun S) (lease : LeaseRecord S) :
    (r.discardDuplicate lease).ledger = r.ledger := by
  simp [discardDuplicate]

theorem ledger_reportIncident (r : SchedulerRun S) (lease : LeaseRecord S) (output : AttemptOutput) :
    (r.reportIncident lease output).ledger =
      if r.failed then r.ledger
      else r.ledger.fail ⟨.determinismIncident, S.graph.taskId lease.task,
        r.incidentMessage lease output⟩ := by
  unfold reportIncident
  extract_lets task taskId message told incident _ listed
  have keeps : listed.ledger = r.ledger := by
    change told.ledger = r.ledger
    simp [told]
  have failed : listed.failed = r.failed := rfl
  rw [ledger_failBuild, keeps, failed]

theorem ledger_commitCall (r : SchedulerRun S) (t : S.Task) (committed : CommittedResult) :
    (r.perform (.commit t committed)).ledger = r.ledger.recordCommit t committed := by
  simp [ledger, perform, Ledger.recordCommit, grantCalls, commitCalls]

theorem ledger_markReady (r : SchedulerRun S) (t : S.Task) :
    (r.markReady t).ledger = r.ledger.markReady t := by
  unfold SchedulerRun.markReady Ledger.markReady
  by_cases waiting : (r.tasks t).phase = .waiting
  · rw [if_pos waiting, ledger_requeue]
    exact (if_pos waiting).symm
  · rw [if_neg waiting]
    exact (if_neg waiting).symm

theorem ledger_markReady_foldl (ready : List S.Task) (r : SchedulerRun S) :
    (ready.foldl SchedulerRun.markReady r).ledger = ready.foldl Ledger.markReady r.ledger := by
  induction ready generalizing r with
  | nil => rfl
  | cons t rest ih => rw [List.foldl_cons, List.foldl_cons, ih, ledger_markReady]

/-- A commit the sink accepts is the ledger's `commit`; one it refuses fails the
run. -/
theorem ledger_commit (r : SchedulerRun S) (lease : LeaseRecord S) (output : AttemptOutput) :
    let committed : CommittedResult :=
      ⟨output.result, output.payloads, (S.executor lease.executor).id⟩
    (∃ what, S.sinkError (commitCalls r.log ++ [(lease.task, committed)]) = some what ∧
      (r.commit lease output).ledger =
        if r.failed then r.ledger.recordCommit lease.task committed
        else (r.ledger.recordCommit lease.task committed).fail
          ⟨.commitFailed, S.graph.taskId lease.task,
            "committing task `" ++ S.graph.taskId lease.task ++ "` failed: " ++ what⟩) ∨
    (S.sinkError (commitCalls r.log ++ [(lease.task, committed)]) = none ∧
      (r.commit lease output).ledger =
        (r.ledger.recordCommit lease.task committed).commit lease.task
          output.result.outputDigest) := by
  intro committed
  have calls : commitCalls (r.perform (.commit lease.task committed)).log =
      commitCalls r.log ++ [(lease.task, committed)] := by
    simp [perform, commitCalls]
  unfold SchedulerRun.commit
  simp only []
  rw [calls]
  cases thrown : S.sinkError (commitCalls r.log ++ [(lease.task, committed)]) with
  | some what =>
    refine .inl ⟨what, rfl, ?_⟩
    simp only [ledger_failBuild, ledger_commitCall]
    rfl
  | none =>
    refine .inr ⟨rfl, ?_⟩
    simp only [markReadyDependents, ledger_markReady_foldl]
    rw [← ledger_commitCall]
    simp only [ledger, Ledger.commit, Ledger.markCommitted, emit, perform, modifyStats, modifyTask,
      update_field, Function.update_eq_self]
    simp [grantCalls, commitCalls]
    rfl

theorem ledger_grant (r : SchedulerRun S) (t : S.Task) (e : S.ExecutorIndex) (speculative : Bool) :
    (r.grant t e speculative).ledger = r.ledger.grant (r.newLease t e speculative) := by
  simp only [ledger, SchedulerRun.grant, Ledger.grant, emit, perform, modifyStats, modifyTask,
    modifyExecutor, tick, update_field, Function.update_eq_self]
  simp [grantCalls, commitCalls, newLease]

/-! ## Every handler keeps the invariant -/

theorem failed_iff (r : SchedulerRun S) : r.failed = false ↔ r.ledger.failure = none := by
  simp [failed, ledger]

theorem good_failBuild {r : SchedulerRun S} {exempt : Set S.Task} (h : r.ledger.Consistent ∅)
    (idle : r.ledger.Idle ∅) (kind : BuildFailureKind) (taskId message : String) :
    (r.failBuild kind taskId message).ledger.Good exempt := by
  rw [ledger_failBuild]
  split
  · next failed =>
    refine ⟨h, fun running => ?_, idle⟩
    rw [← failed_iff, failed] at running
    cases running
  · exact Good.fail h idle _

/-- A quarantine gives up every lease of the executor and requeues their tasks. -/
theorem good_quarantine {r : SchedulerRun S} {exempt : Set S.Task} (h : r.ledger.Good exempt)
    (e : S.ExecutorIndex) (reason : String) :
    (r.quarantine e reason).ledger.Good exempt ∧
      StartedIn r.ledger (r.quarantine e reason).ledger := by
  by_cases quarantined : (r.executors e).quarantined = true
  · rw [SchedulerRun.quarantine, if_pos quarantined]
    exact ⟨h, fun _ started => started⟩
  · rw [ledger_quarantine_of_not reason (by simpa using quarantined)]
    have consistent : (r.ledger.setQuarantined e).Consistent ∅ := { h.consistent with }
    obtain ⟨consistent, settled, started, flags, table⟩ :=
      dropNamed_foldl (r.leasesOf e) consistent h.settled
    refine ⟨⟨consistent, settled, ?_⟩, started⟩
    intro x _ flagged p mem same
    rw [flags] at flagged
    obtain ⟨inTable, notDropped⟩ := (table p).mp mem
    by_cases isE : x = e
    · -- every lease of `e` was given up
      refine notDropped (List.mem_map_of_mem (List.mem_filter.mpr ⟨inTable, ?_⟩))
      simp [same, isE]
    · have before : r.ledger.quarantined x = true := by
        simpa [Ledger.setQuarantined, isE] using flagged
      exact h.idle x (Set.notMem_empty x) before p inTable same

theorem good_attemptFailed {r : SchedulerRun S} {exempt : Set S.Task} {t : S.Task}
    (h : r.ledger.Good (insert t exempt)) (started : r.ledger.phase t ≠ .waiting)
    (e : S.ExecutorIndex) (reason : String) :
    (r.attemptFailed t e reason).ledger.Good exempt := by
  unfold attemptFailed
  extract_lets r' task maxAttempts
  have same : r'.ledger = r.ledger := by
    apply ledger_modifyTask <;> exact fun _ => rfl
  rw [← same] at h started
  split
  · next busy =>
    refine ⟨h.consistent, fun running x notExempt leased => ?_, h.idle⟩
    by_cases isT : x = t
    · subst isT
      rcases busy with committed | hasLease | failed
      · exact absurd (leased.symm.trans committed) (by decide)
      · exact hasLease
      · rw [← failed_iff, failed] at running
        cases running
    · exact h.settled running x (by simp [isT, notExempt]) leased
  · next free =>
    obtain ⟨notCommitted, noLease, -⟩ : task.phase ≠ .committed ∧ task.activeLeases = ∅ ∧ _ := by
      simpa only [not_or, not_not] using free
    split
    · exact good_failBuild h.consistent h.idle _ _ _
    · rw [ledger_requeue, ledger_modifyStats]
      have requeued : r'.ledger.requeueIdle t = r'.ledger.requeue t := if_pos ⟨notCommitted, noLease⟩
      rw [← requeued]
      exact ⟨h.consistent.requeueIdle started, h.settled.requeueIdle, by
        rw [requeued]; exact h.idle⟩

theorem good_countExecutorLoss {r : SchedulerRun S} {exempt : Set S.Task}
    (h : r.ledger.Good exempt) (lease : LeaseRecord S) :
    (r.countExecutorLoss lease).ledger.Good exempt ∧
      StartedIn r.ledger (r.countExecutorLoss lease).ledger := by
  unfold countExecutorLoss
  extract_lets record events r'
  have same : r'.ledger = r.ledger := by
    apply ledger_modifyExecutor <;> exact fun _ => rfl
  split
  · exact ⟨h, fun _ started => started⟩
  · split
    · exact ⟨h, fun _ started => started⟩
    · split
      · rw [← same] at h ⊢
        exact good_quarantine h _ _
      · rw [same]
        exact ⟨h, fun _ started => started⟩

theorem good_release {r : SchedulerRun S} (h : r.ledger.Good ∅) {id : String}
    {lease : LeaseRecord S} (found : r.leases.find? id = some lease) :
    (r.release id lease).ledger.Good (insert lease.task ∅) ∧
      (r.release id lease).ledger.phase lease.task ≠ .waiting := by
  have mem : (id, lease) ∈ r.ledger.leases.entries := Lib.OrderedMap.find?_eq_some.mp found
  rw [ledger_release]
  refine ⟨⟨h.consistent.release mem, h.settled.release, h.idle.release⟩, ?_⟩
  change r.ledger.phase lease.task ≠ .waiting
  rcases h.consistent.leased mem with leased | committed
  · rw [leased]; decide
  · rw [committed]; decide

theorem good_onInvalidResult {r : SchedulerRun S} {lease : LeaseRecord S}
    (h : r.ledger.Good (insert lease.task ∅)) (started : r.ledger.phase lease.task ≠ .waiting)
    (defect : String) : (r.onInvalidResult lease defect).ledger.Good ∅ := by
  unfold onInvalidResult
  extract_lets r1 r2 r3
  have same : r2.ledger = r.ledger := by simp [r2, r1]
  rw [← same] at h started
  obtain ⟨good, keeps⟩ := good_quarantine h lease.executor
    ("returned an invalid result for task `" ++ S.graph.taskId lease.task ++ "`: " ++ defect)
  exact good_attemptFailed good (keeps _ started) _ _

/-- A task whose phase is committed needs no lease. -/
theorem Good.of_committed {l : Ledger S} {t : S.Task} (h : l.Good (insert t ∅))
    (committed : l.phase t = .committed) : l.Good ∅ where
  consistent := h.consistent
  settled running x _ leased := by
    refine h.settled running x ?_ leased
    rintro (rfl | impossible)
    · exact absurd (committed.symm.trans leased) (by decide)
    · exact impossible
  idle := h.idle

theorem good_onVerifiedFailure {r : SchedulerRun S} {lease : LeaseRecord S}
    (h : r.ledger.Good (insert lease.task ∅)) (started : r.ledger.phase lease.task ≠ .waiting)
    (error : TaskError) : (r.onVerifiedFailure lease error).ledger.Good ∅ := by
  unfold onVerifiedFailure
  extract_lets taskId reason r'
  have same : r'.ledger = r.ledger := by simp [r']
  rw [← same] at h started
  split
  · next committed => exact Good.of_committed h committed
  · split
    · exact good_failBuild h.consistent h.idle _ _ _
    · exact good_attemptFailed h started _ _

theorem idle_commit {l : Ledger S} (h : l.Idle ∅) (t : S.Task) (digest : Blake3Digest) :
    (l.commit t digest).Idle ∅ := by
  have fold : ∀ (ready : List S.Task) (l : Ledger S), l.Idle ∅ →
      (ready.foldl Ledger.markReady l).Idle ∅ := by
    intro ready
    induction ready with
    | nil => exact fun _ h => h
    | cons x rest ih =>
      intro l h
      refine ih _ ?_
      unfold Ledger.markReady
      split <;> exact h
  exact fold _ _ h

theorem good_commit {r : SchedulerRun S} {lease : LeaseRecord S}
    (h : r.ledger.Good (insert lease.task ∅)) (fresh : r.ledger.phase lease.task ≠ .committed)
    (running : r.failed = false) (output : AttemptOutput) :
    (r.commit lease output).ledger.Good ∅ := by
  rcases ledger_commit r lease output with ⟨what, -, after⟩ | ⟨-, after⟩
  · rw [after, if_neg (by simp [running])]
    exact Good.fail (h.consistent.recordCommit _ _) h.idle _
  · rw [after]
    exact ⟨(h.consistent.recordCommit _ _).commit fresh _,
      Settled.commit (l := r.ledger.recordCommit _ _) h.settled _,
      idle_commit (l := r.ledger.recordCommit _ _) h.idle _ _⟩

theorem good_onVerifiedSuccess {r : SchedulerRun S} {lease : LeaseRecord S}
    (h : r.ledger.Good (insert lease.task ∅)) (running : r.failed = false)
    (output : AttemptOutput) : (r.onVerifiedSuccess lease output).ledger.Good ∅ := by
  unfold onVerifiedSuccess
  extract_lets r' task
  have same : r'.ledger = r.ledger := ledger_noteExecutorRecovery r lease
  have running' : r'.failed = false := by rw [failed_iff, same, ← failed_iff]; exact running
  rw [← same] at h
  split
  · next fresh => exact good_commit h fresh running' output
  · next committed =>
    have committed : r'.ledger.phase lease.task = .committed := not_not.mp committed
    have good := Good.of_committed h committed
    split
    · rw [ledger_discardDuplicate]
      exact good
    · rw [ledger_reportIncident]
      split
      · exact good
      · exact Good.fail good.consistent good.idle _

theorem good_onFinished {r : SchedulerRun S} (h : r.ledger.Good ∅) (running : r.failed = false)
    (id : String) (output : AttemptOutput) : (r.onFinished id output).ledger.Good ∅ := by
  unfold onFinished
  split
  · exact h
  · next lease found =>
    extract_lets released cleared
    have same : cleared.ledger = released.ledger := by
      apply ledger_modifyExecutor <;> exact fun _ => rfl
    obtain ⟨good, started⟩ := good_release h found
    change released.ledger.Good _ at good
    change released.ledger.phase _ ≠ _ at started
    rw [← same] at good started
    split
    · next defect _ => exact good_onInvalidResult good started defect
    · next noDefect =>
      split
      · exact good_onVerifiedSuccess good running output
      · next error _ _ => exact good_onVerifiedFailure good started error
      · next failed noError =>
        obtain ⟨valid, -⟩ := (findResultDefect_eq_none S.codec).mp noDefect
        have some := validateTaskResult_error S.codec valid failed
        rw [noError] at some
        cases some

theorem good_onFailed {r : SchedulerRun S} (h : r.ledger.Good ∅) (id : String)
    (kind : AttemptFailureKind) (message : String) : (r.onFailed id kind message).ledger.Good ∅ := by
  unfold onFailed
  split
  · exact h
  · next lease found =>
    obtain ⟨good, started⟩ := good_release h found
    extract_lets released reason told after
    have same : told.ledger = (r.release id lease).ledger := by simp [told, released]
    rw [← same] at good started
    have counted : after.ledger.Good (insert lease.task ∅) ∧ StartedIn told.ledger after.ledger := by
      cases kind with
      | invalidResult => exact good_quarantine (r := told.modifyStats _) good _ _
      | executorLost => exact good_countExecutorLoss good lease
    exact good_attemptFailed counted.1 (counted.2 _ started) _ _

theorem good_onRejected {r : SchedulerRun S} (h : r.ledger.Good ∅) (id code message : String) :
    (r.onRejected id code message).ledger.Good ∅ := by
  unfold onRejected
  split
  · exact h
  · next lease found =>
    obtain ⟨good, started⟩ := good_release h found
    extract_lets released counted told declinedUntil backedOff
    have same : backedOff.ledger = (r.release id lease).ledger := by
      have frame : backedOff.ledger = told.tick.ledger := by
        apply ledger_modifyExecutor <;> exact fun _ => rfl
      rw [frame]
      simp [told, counted, released]
    rw [← same] at good started
    rw [ledger_requeueIdle]
    refine ⟨good.consistent.requeueIdle started, good.settled.requeueIdle, ?_⟩
    intro e notExempt flagged p mem
    rw [leases_requeueIdle] at mem
    refine good.idle e notExempt ?_ p mem
    unfold Ledger.requeueIdle at flagged
    split at flagged <;> exact flagged

/-- A heartbeat renews the expiry of one lease and nothing else. -/
theorem good_onHeartbeat {r : SchedulerRun S} (h : r.ledger.Good ∅) (id : String) :
    (r.onHeartbeat id).ledger.Good ∅ := by
  unfold onHeartbeat
  split
  · exact h
  · next lease found =>
    extract_lets expiresAt
    have old : (id, lease) ∈ r.leases.entries := Lib.OrderedMap.find?_eq_some.mp found
    -- every entry of the new table has one of the old table on the same lease
    have back : ∀ p ∈ (r.leases.insert id { lease with expiresAt }).entries,
        ∃ q ∈ r.ledger.leases.entries, q.1 = p.1 ∧ q.2.task = p.2.task ∧
          q.2.executor = p.2.executor ∧ q.2.lease = p.2.lease := by
      intro p mem
      rcases Lib.OrderedMap.mem_insert.mp mem with rfl | ⟨-, mem⟩
      · exact ⟨(id, lease), old, rfl, rfl, rfl, rfl⟩
      · exact ⟨p, mem, rfl, rfl, rfl, rfl⟩
    refine ⟨?_, h.settled, ?_⟩
    · constructor
      case named =>
        intro p mem
        obtain ⟨q, inTable, same, -, -, lease'⟩ := back p mem
        rw [← same, ← lease']
        exact h.consistent.named q inTable
      case held =>
        intro t id'
        refine (h.consistent.held t id').trans ⟨?_, ?_⟩
        · rintro ⟨p, mem, rfl, rfl⟩
          by_cases same : p.1 = id
          · have value : p.2 = lease := r.leases.value_unique (k := id)
              (by rw [← same]; exact mem) old
            exact ⟨(id, { lease with expiresAt }), Lib.OrderedMap.mem_insert.mpr (.inl rfl),
              same.symm, by rw [value]⟩
          · exact ⟨p, Lib.OrderedMap.mem_insert.mpr (.inr ⟨same, mem⟩), rfl, rfl⟩
        · rintro ⟨p, mem, rfl, rfl⟩
          obtain ⟨q, inTable, same, task, -, -⟩ := back p mem
          exact ⟨q, inTable, same, task⟩
      case active =>
        intro e
        refine (h.consistent.active e).trans ?_
        exact (Lib.OrderedMap.countP_insert_present (v := { lease with expiresAt }) old
          (fun p => decide (p.2.executor = e)) rfl).symm
      case distinct =>
        intro p inP q inQ ne task
        obtain ⟨p', inP', sameP, taskP, executorP, -⟩ := back p inP
        obtain ⟨q', inQ', sameQ, taskQ, executorQ, -⟩ := back q inQ
        rw [← executorP, ← executorQ]
        exact h.consistent.distinct p' inP' q' inQ' (by rw [sameP, sameQ]; exact ne)
          (by rw [taskP, taskQ]; exact task)
      case slots => exact h.consistent.slots
      case limit => exact h.consistent.limit
      case readySet => exact h.consistent.readySet
      case complete => exact h.consistent.complete
      case queued => exact h.consistent.queued
      case waiting => exact h.consistent.waiting
      case ready => exact h.consistent.ready
      case runnable => exact h.consistent.runnable
      case granted => exact h.consistent.granted
      case increasing => exact h.consistent.increasing
    · intro e notExempt flagged p mem
      obtain ⟨q, inTable, -, -, executor, -⟩ := back p mem
      rw [← executor]
      exact h.idle e notExempt flagged q inTable

theorem good_apply {r : SchedulerRun S} (h : r.ledger.Good ∅) (event : InboxEvent) :
    (r.apply event).ledger.Good ∅ := by
  unfold apply
  split
  · exact h
  · next running =>
    cases event with
    | heartbeat id => exact good_onHeartbeat h id
    | finished id output => exact good_onFinished h (by simpa using running) id output
    | failed id kind message => exact good_onFailed h id kind message
    | rejected id code message => exact good_onRejected h id code message

theorem good_endLease (now : Millis) {r : SchedulerRun S} (h : r.ledger.Good ∅) (id : String) :
    (endLease now r id).ledger.Good ∅ := by
  unfold endLease
  split
  · exact h
  · next lease found =>
    obtain ⟨good, started⟩ := good_release h found
    -- both ends count the loss, then fail the attempt
    have lost : ∀ (told : SchedulerRun S) (reason : String),
        told.ledger = (r.release id lease).ledger →
        ((told.countExecutorLoss lease).attemptFailed lease.task lease.executor reason).ledger.Good
          ∅ := by
      intro told reason same
      rw [← same] at good started
      obtain ⟨good, keeps⟩ := good_countExecutorLoss good lease
      exact good_attemptFailed good (keeps _ started) _ _
    split
    · exact h
    · split
      · unfold endLeaseAtDeadline
        extract_lets detail counted told cancelled lossCounted
        exact lost cancelled _ (by simp [cancelled, told, counted])
      · unfold endLeaseAtExpiry
        extract_lets counted told expired lossCounted
        exact lost expired _ (by simp [expired, told, counted])

theorem good_expireLeases {r : SchedulerRun S} (h : r.ledger.Good ∅) :
    r.expireLeases.ledger.Good ∅ := by
  have fold : ∀ (now : Millis) (ids : List String) (r : SchedulerRun S), r.ledger.Good ∅ →
      (ids.foldl (endLease now) r).ledger.Good ∅ := by
    intro now ids
    induction ids with
    | nil => exact fun _ h => h
    | cons id rest ih => exact fun r h => ih _ (good_endLease now h id)
  exact fold _ _ r.tick h

/-! ## Dispatch keeps the invariant -/

theorem mem_of_pickTask {r : SchedulerRun S} {e : S.ExecutorIndex} {t : S.Task}
    (picked : r.pickTask e = some t) : t ∈ r.readyQueue.tasks ∧ r.takes e t = true :=
  ⟨List.mem_of_find?_eq_some picked, List.find?_some picked⟩

theorem hasFreeSlot_iff (r : SchedulerRun S) (e : S.ExecutorIndex) :
    r.hasFreeSlot e = true ↔
      r.ledger.quarantined e = false ∧ r.ledger.active e < (S.executor e).slots := by
  simp [hasFreeSlot, ledger]

theorem good_grant_ready {r : SchedulerRun S} {e : S.ExecutorIndex} {t : S.Task}
    (h : r.ledger.Good ∅) (free : r.hasFreeSlot e = true) (picked : r.pickTask e = some t) :
    (r.grant t e false).ledger.Good ∅ := by
  obtain ⟨usable, room⟩ := (hasFreeSlot_iff r e).mp free
  have ready : r.ledger.phase t = .ready := (h.consistent.queued t).mp (mem_of_pickTask picked).1
  have noLease : r.ledger.activeLeases t = ∅ := h.consistent.ready t ready
  rw [ledger_grant]
  refine ⟨h.consistent.grant rfl rfl ?_ (h.consistent.runnable t (.inl ready)) room ?_ ?_,
    h.settled.grant _, h.idle.grant usable⟩
  · change r.ledger.phase t ≠ .committed
    rw [ready]
    decide
  · change (r.ledger.activeLeases t).card < leaseLimit S
    rw [noLease, Finset.card_empty, leaseLimit]
    split <;> decide
  · intro p mem same
    have held : p.1 ∈ r.ledger.activeLeases t := (h.consistent.held t p.1).mpr ⟨p, mem, rfl, same⟩
    rw [noLease] at held
    simp at held

theorem good_fillSlots {e : S.ExecutorIndex} (rounds : Nat) {r : SchedulerRun S}
    (h : r.ledger.Good ∅) : (fillSlots e rounds r).ledger.Good ∅ := by
  induction rounds generalizing r with
  | zero => exact h
  | succ rounds ih =>
    rw [fillSlots]
    split
    · next free =>
      split
      · exact h
      · next t picked => exact ih (good_grant_ready h free picked)
    · exact h

/-- The lease picked for duplication is one of the table that may be. -/
theorem mem_of_oldestDuplicable {r : SchedulerRun S} {e : S.ExecutorIndex} {lease : LeaseRecord S}
    (picked : r.oldestDuplicable e = some lease) :
    (∃ id, (id, lease) ∈ r.leases.entries) ∧ r.mayDuplicate e lease = true := by
  have fold : ∀ (leases : List (LeaseRecord S)) (start : Option (LeaseRecord S)),
      leases.foldl
        (fun oldest lease =>
          match oldest with
          | none => some lease
          | some found => if lease.grantedAt < found.grantedAt then some lease else some found)
        start = some lease → start = some lease ∨ lease ∈ leases := by
    intro leases
    induction leases with
    | nil => exact fun _ same => .inl same
    | cons first rest ih =>
      intro start picked
      rcases ih _ picked with same | inRest
      · cases start with
        | none => exact .inr (by simp_all)
        | some found =>
          simp only at same
          split at same
          · exact .inr (by simp_all)
          · exact .inl same
      · exact .inr (List.mem_cons_of_mem _ inRest)
  rcases fold _ _ picked with impossible | mem
  · cases impossible
  · obtain ⟨inTable, may⟩ := List.mem_filter.mp mem
    obtain ⟨p, inEntries, rfl⟩ := List.mem_map.mp inTable
    exact ⟨⟨p.1, inEntries⟩, may⟩

theorem mayDuplicate_iff (r : SchedulerRun S) (e : S.ExecutorIndex) (lease : LeaseRecord S) :
    r.mayDuplicate e lease = true ↔
      lease.executor ≠ e ∧ (r.tasks lease.task).phase ≠ .committed ∧
        (r.tasks lease.task).activeLeases.card = 1 ∧ e ∉ (r.tasks lease.task).avoid ∧
        (S.executor e).accepts (S.graph.spec lease.task) = true := by
  simp [mayDuplicate, and_assoc]

theorem good_grant_duplicate {r : SchedulerRun S} {e : S.ExecutorIndex} {lease : LeaseRecord S}
    (speculative : S.policy.speculativeDuplicates = true) (h : r.ledger.Good ∅)
    (free : r.hasFreeSlot e = true) (picked : r.oldestDuplicable e = some lease) :
    (r.grant lease.task e true).ledger.Good ∅ := by
  obtain ⟨usable, room⟩ := (hasFreeSlot_iff r e).mp free
  obtain ⟨⟨id, mem⟩, may⟩ := mem_of_oldestDuplicable picked
  obtain ⟨elsewhere, notCommitted, single, -, -⟩ := (mayDuplicate_iff r e lease).mp may
  have leased : r.ledger.phase lease.task = .leased :=
    (h.consistent.leased (p := (id, lease)) mem).resolve_right notCommitted
  rw [ledger_grant]
  refine ⟨h.consistent.grant rfl rfl notCommitted (h.consistent.runnable _ (.inr leased)) room ?_ ?_,
    h.settled.grant _, h.idle.grant usable⟩
  · change (r.tasks lease.task).activeLeases.card < leaseLimit S
    rw [single, leaseLimit, if_pos speculative]
    decide
  · -- the task's only lease is the one being duplicated
    intro p inTable same
    have heldP : p.1 ∈ (r.tasks lease.task).activeLeases :=
      (h.consistent.held lease.task p.1).mpr ⟨p, inTable, rfl, same⟩
    have heldLease : id ∈ (r.tasks lease.task).activeLeases :=
      (h.consistent.held lease.task id).mpr ⟨(id, lease), mem, rfl, rfl⟩
    have sameId : p.1 = id := Finset.card_le_one.mp single.le p.1 heldP id heldLease
    have value : p.2 = lease := r.leases.value_unique (k := id) (by rw [← sameId]; exact inTable) mem
    rw [value]
    exact elsewhere

theorem good_fillSlotsSpeculative {e : S.ExecutorIndex}
    (speculative : S.policy.speculativeDuplicates = true) (rounds : Nat) {r : SchedulerRun S}
    (h : r.ledger.Good ∅) : (fillSlotsSpeculative e rounds r).ledger.Good ∅ := by
  induction rounds generalizing r with
  | zero => exact h
  | succ rounds ih =>
    rw [fillSlotsSpeculative]
    split
    · next free =>
      split
      · exact h
      · next lease picked => exact ih (good_grant_duplicate speculative h free picked)
    · exact h

theorem good_foldl {α : Type*} {f : SchedulerRun S → α → SchedulerRun S}
    (keeps : ∀ r a, r.ledger.Good ∅ → (f r a).ledger.Good ∅) (items : List α) {r : SchedulerRun S}
    (h : r.ledger.Good ∅) : (items.foldl f r).ledger.Good ∅ := by
  induction items generalizing r with
  | nil => exact h
  | cons a rest ih => exact ih (keeps r a h)

theorem good_dispatch {r : SchedulerRun S} (h : r.ledger.Good ∅) : r.dispatch.ledger.Good ∅ := by
  have dispatchTo : ∀ (r : SchedulerRun S) e, r.ledger.Good ∅ → (r.dispatchTo e).ledger.Good ∅ := by
    intro r e h
    unfold SchedulerRun.dispatchTo
    split
    · exact h
    · exact good_fillSlots _ h
  have pass := good_foldl dispatchTo (List.finRange S.executorCount) h
  unfold dispatch
  extract_lets passed
  split
  · next both =>
    have speculative : S.policy.speculativeDuplicates = true := (Bool.and_eq_true_iff.mp both).1
    refine good_foldl (fun r e h => ?_) _ pass
    unfold dispatchSpeculativeTo
    split
    · exact h
    · exact good_fillSlotsSpeculative speculative _ h
  · exact pass

/-! ## Reachable runs -/

theorem consistent_start : (start S).ledger.Consistent Set.univ where
  named p mem := by simp [ledger, start] at mem
  held t id := by simp [ledger, start]
  active e := by simp [ledger, start]
  slots e := by simp [ledger, start]
  limit t := by simp [ledger, start]
  distinct p mem := by simp [ledger, start] at mem
  readySet := .start
  complete t := by simp [ledger, start, ReadySet.start]
  queued t := by simp [ledger, start]
  waiting t _ := ⟨rfl, fun _ => Set.mem_univ t⟩
  ready t _ := rfl
  runnable t phase := by simp [ledger, start] at phase
  granted g mem := by simp [ledger, start, grantCalls] at mem
  increasing := by simp [ledger, start, grantCalls]

/-- What resuming a result does when it does not throw. -/
theorem applyResumedResult_eq_ok {r r' : SchedulerRun S} {committed : CommittedResult}
    (applied : r.applyResumedResult committed = .ok r') :
    ∃ t, S.graph.taskId t = committed.result.taskId ∧ (r.tasks t).phase ≠ .committed ∧
      findResultDefect S.codec (S.graph.spec t) committed.result.attempt committed.result
        committed.payloads = none ∧ committed.result.status = .succeeded ∧
      r'.ledger = { r.ledger with
        phase := Function.update r.ledger.phase t .committed
        digest := Function.update r.ledger.digest t committed.result.outputDigest
        readySet := (r.readySet.markComplete t).2 } := by
  unfold applyResumedResult at applied
  simp only [] at applied
  split at applied
  · cases applied
  · next t found =>
    split at applied
    · cases applied
    · next fresh =>
      split at applied
      · cases applied
      · next noDefect =>
        split at applied
        · cases applied
        · next succeeded =>
          refine ⟨t, TaskGraph.find_eq_some.mp found, fresh, noDefect, not_not.mp succeeded, ?_⟩
          cases applied
          simp only [ledger, modifyStats, modifyTask, update_field, Function.update_eq_self]

/-- Before the run has leased or queued anything. -/
structure Untouched (l : Ledger S) : Prop where
  consistent : l.Consistent Set.univ
  table : l.leases.entries = []
  phase : ∀ t, l.phase t = .waiting ∨ l.phase t = .committed

theorem Untouched.resume {r r' : SchedulerRun S} (h : Untouched r.ledger)
    {committed : CommittedResult} (applied : r.applyResumedResult committed = .ok r') :
    Untouched r'.ledger := by
  obtain ⟨t, -, fresh, -, -, after⟩ := applyResumedResult_eq_ok applied
  have queueless : t ∉ r.ledger.readyQueue.tasks := by
    rw [h.consistent.queued]
    rcases h.phase t with waiting | committed
    · rw [waiting]; decide
    · exact absurd committed fresh
  have erased : (r.ledger.readyQueue.erase t).tasks = r.ledger.readyQueue.tasks := by
    refine List.filter_eq_self.mpr fun x mem => ?_
    have : x ≠ t := fun same => queueless (same ▸ mem)
    simpa using this
  have marked := h.consistent.markCommitted fresh committed.result.outputDigest
  rw [after]
  refine ⟨?_, h.table, fun x => ?_⟩
  · constructor
    case queued =>
      intro x
      have := marked.queued x
      rwa [Ledger.markCommitted, erased] at this
    case waiting => exact fun x phase => ⟨(marked.waiting x phase).1, fun _ => Set.mem_univ x⟩
    case named => exact marked.named
    case held => exact marked.held
    case active => exact marked.active
    case slots => exact marked.slots
    case limit => exact marked.limit
    case distinct => exact marked.distinct
    case readySet => exact marked.readySet
    case complete => exact marked.complete
    case ready => exact marked.ready
    case runnable => exact marked.runnable
    case granted => exact marked.granted
    case increasing => exact marked.increasing
  · simp only [Function.update_apply]
    split
    · exact .inr rfl
    · exact h.phase x

theorem untouched_applyResumed {resumed : List CommittedResult} {r r' : SchedulerRun S}
    (h : Untouched r.ledger) (applied : r.applyResumed resumed = .ok r') : Untouched r'.ledger := by
  induction resumed generalizing r with
  | nil =>
    cases applied
    exact h
  | cons committed rest ih =>
    obtain ⟨middle, first, applied⟩ := bind_eq_ok.mp applied
    exact ih (h.resume first) applied

/-- The prelude makes every waiting task with complete dependencies ready. -/
theorem good_prepare {r : SchedulerRun S} (h : Untouched r.ledger) : r.prepare.ledger.Good ∅ := by
  have fold : ∀ (tasks : List S.Task) (r : SchedulerRun S), r.ledger.Consistent {t | t ∈ tasks} →
      r.ledger.Settled ∅ → r.leases.entries = [] →
      (tasks.foldl markInitiallyReady r).ledger.Good ∅ := by
    intro tasks
    induction tasks with
    | nil =>
      intro r consistent settled table
      refine ⟨consistent.mono fun t mem _ _ => by simp at mem, settled, fun e _ _ p mem => ?_⟩
      have mem : p ∈ r.leases.entries := mem
      rw [table] at mem
      simp at mem
    | cons t rest ih =>
      intro r consistent settled table
      rw [List.foldl_cons, markInitiallyReady]
      split
      · next due =>
        have notCommitted : r.ledger.phase t ≠ .committed := by
          change (r.tasks t).phase ≠ _
          rw [due.1]
          decide
        refine ih _ ?_ ?_ table
        · rw [ledger_requeue]
          refine (consistent.requeue notCommitted (consistent.waiting t due.1).1 due.2).mono ?_
          rintro x ⟨inList, other⟩ - -
          exact (List.mem_cons.mp inList).resolve_left other
        · rw [ledger_requeue]
          exact Settled.requeue fun running x notExempt => settled running x (Set.notMem_empty x)
      · next notDue =>
        refine ih r (consistent.mono ?_) settled table
        intro x inList waiting deps
        rcases List.mem_cons.mp inList with rfl | inRest
        · exact absurd ⟨waiting, deps⟩ notDue
        · exact inRest
  refine fold _ r (h.consistent.mono fun t _ _ _ => List.mem_finRange t) ?_ h.table
  intro _ t _ leased
  rcases h.phase t with waiting | committed
  · exact absurd (waiting.symm.trans leased) (by decide)
  · exact absurd (committed.symm.trans leased) (by decide)

@[simp] theorem ledger_anyBackingOff (executors : List S.ExecutorIndex) (r : SchedulerRun S) :
    (anyBackingOff executors r).2.ledger = r.ledger := by
  induction executors generalizing r with
  | nil => rfl
  | cons e rest ih =>
    rw [anyBackingOff]
    split
    · exact ih r
    · split
      · rfl
      · exact (ih r.tick).trans rfl

end SchedulerRun

open SchedulerRun

/-- In every state before the end of a run the ledger is in order. -/
theorem reachable_good {resumed : List CommittedResult} {s : RunState S}
    (reach : (schedulerSystem S resumed).Reachable s) :
    s.stage ≠ .finished → s.run.ledger.Good ∅ := by
  refine reach.invariant (P := fun s => s.stage ≠ .finished → s.run.ledger.Good ∅) ?_ ?_
  · rintro s ⟨r, applied, rfl⟩ -
    have untouched : Untouched (start S).ledger :=
      ⟨consistent_start, rfl, fun _ => .inl rfl⟩
    exact good_prepare (untouched_applyResumed untouched applied)
  · rintro ⟨r, stage⟩ t - good ⟨input, advanced⟩ running
    unfold RunState.advance at advanced
    cases stage with
    | head =>
      have good := good (by simp)
      simp only at advanced
      split_ifs at advanced <;> cases advanced <;> first | exact absurd rfl running | skip
      exact good_dispatch good
    | dispatched =>
      have good := good (by simp)
      simp only at advanced
      split_ifs at advanced with empty backingOff <;> cases advanced
      · simpa [anyExecutorBackingOff] using good
      · exact absurd rfl running
      · simpa using good
    | applying events =>
      have good := good (by simp)
      cases events with
      | nil =>
        cases advanced
        exact good_expireLeases good
      | cons event rest =>
        cases advanced
        exact good_apply good event
    | finished => cases advanced

/-- The tables of a run agree with each other. -/
structure StructuralInvariant (r : SchedulerRun S) : Prop where
  active : ∀ e, (r.executors e).active =
    r.leases.entries.countP fun p => decide (p.2.executor = e)
  slots : ∀ e, (r.executors e).active ≤ (S.executor e).slots
  held : ∀ t id, id ∈ (r.tasks t).activeLeases ↔
    ∃ p ∈ r.leases.entries, p.1 = id ∧ p.2.task = t
  activeLeases : ∀ t, (r.tasks t).activeLeases.card =
    r.leases.entries.countP fun p => decide (p.2.task = t)
  single : S.policy.speculativeDuplicates = false → ∀ t, (r.tasks t).activeLeases.card ≤ 1
  pair : ∀ t, (r.tasks t).activeLeases.card ≤ 2
  distinct : ∀ p ∈ r.leases.entries, ∀ q ∈ r.leases.entries, p.1 ≠ q.1 →
    p.2.task = q.2.task → p.2.executor ≠ q.2.executor
  complete : ∀ t, r.readySet.complete t = true ↔ (r.tasks t).phase = .committed
  queued : ∀ t, t ∈ r.readyQueue.tasks ↔ (r.tasks t).phase = .ready
  ready : ∀ t, (r.tasks t).phase = .ready ↔
    (r.tasks t).phase ≠ .committed ∧ (r.tasks t).activeLeases = ∅ ∧ r.readySet.DepsComplete t
  leased : ∀ t, (r.tasks t).phase = .leased ↔
    (r.tasks t).phase ≠ .committed ∧ (r.tasks t).activeLeases ≠ ∅
  quarantined : ∀ e, (r.executors e).quarantined = true →
    ∀ p ∈ r.leases.entries, p.2.executor ≠ e
  attempts : ∀ t, (((grantCalls r.log).filter fun g => decide (g.1 = t)).map Prod.snd).Pairwise (· < ·)

/-- After every handler and every dispatch pass of a run that has not failed,
its tables agree. -/
theorem reachable_structuralInvariant {resumed : List CommittedResult} {s : RunState S}
    (reach : (schedulerSystem S resumed).Reachable s) (unfinished : s.stage ≠ .finished)
    (running : s.run.failed = false) : StructuralInvariant s.run := by
  obtain ⟨consistent, settled, idle⟩ := reachable_good reach unfinished
  have running : s.run.ledger.failure = none := (failed_iff s.run).mp running
  constructor
  case active => exact consistent.active
  case slots => exact consistent.slots
  case held => exact consistent.held
  case activeLeases => exact consistent.card_activeLeases
  case single =>
    intro off t
    have limit := consistent.limit t
    rwa [leaseLimit, if_neg (by simp [off])] at limit
  case pair =>
    intro t
    refine (consistent.limit t).trans ?_
    unfold leaseLimit
    split <;> decide
  case distinct => exact consistent.distinct
  case complete => exact consistent.complete
  case queued => exact consistent.queued
  case ready => exact consistent.ready_iff settled running
  case leased => exact consistent.leased_iff settled running
  case quarantined => exact fun e => idle e (Set.notMem_empty e)
  case attempts =>
    intro t
    rw [List.pairwise_map]
    refine (consistent.increasing.filter _).imp_of_mem fun {g g'} memG memG' less => less ?_
    have first : g.1 = t := by simpa using (List.mem_filter.mp memG).2
    have second : g'.1 = t := by simpa using (List.mem_filter.mp memG').2
    exact first.trans second.symm

/-- The first dispatch of the one-task run leases its task. -/
theorem structuralInvariant_solo : StructuralInvariant soloStart.run.dispatch :=
  reachable_structuralInvariant (s := ⟨soloStart.run.dispatch, .dispatched⟩)
    (soloStart_reachable.next ⟨{}, rfl⟩) (by simp) rfl

end Svp.Exec

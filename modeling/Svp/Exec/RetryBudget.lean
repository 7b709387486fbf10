import Svp.Exec.SchedulerLeases
import Svp.Exec.SchedulerProgress

/-!
# The retry budget

A task whose failed attempts have reached `max_attempts` is `Spent`. It may still
have an attempt running, a duplicate of the one that failed last; the build fails
when that one fails too. But an attempt can also end without failing, and then
the task is queued again whatever its budget: when the executor rejects the
lease, and when the executor is quarantined. Besides, the speculative pass
duplicates the last attempt of a spent task as it does any other.

`RunState.Spares` says that the next step does none of the three. In the runs
whose steps all meet it the budget is kept (`retry_budget`).
-/

namespace Svp.Exec

open Ledger

variable {S : SchedulerSetup}

/-- Failed attempts a task may accumulate. -/
def SchedulerSetup.budget (S : SchedulerSetup) (t : S.Task) : Nat :=
  maxAttemptsFor S.policy (S.graph.spec t).taskType

namespace SchedulerRun

def failures (r : SchedulerRun S) (t : S.Task) : Nat := (r.tasks t).failedAttempts

/-- The task is not committed and has used its budget up. -/
def Spent (r : SchedulerRun S) (t : S.Task) : Prop :=
  (r.tasks t).phase ≠ .committed ∧ S.budget t ≤ r.failures t

instance (r : SchedulerRun S) (t : S.Task) : Decidable (r.Spent t) :=
  inferInstanceAs (Decidable (_ ∧ _))

/-- What a run that has not failed keeps: no queued task is spent, and a spent
task has an attempt running. -/
structure BudgetKept (r : SchedulerRun S) : Prop where
  queued : ∀ t ∈ r.readyQueue.tasks, r.failures t < S.budget t
  running : ∀ t, r.Spent t → (r.tasks t).activeLeases ≠ ∅

/-- The grants of a step go to tasks with budget left. -/
structure GrantsWithin (r r' : SchedulerRun S) : Prop where
  granted : ∃ granted, grantCalls r'.log = grantCalls r.log ++ granted ∧
    ∀ g ∈ granted, r.failures g.1 < S.budget g.1

/-! ## The steps that go past the budget -/

/-- The lease is the last running attempt of a spent task. -/
def LastOfSpent (r : SchedulerRun S) (lease : LeaseRecord S) : Prop :=
  r.Spent lease.task ∧ (r.tasks lease.task).activeLeases.card = 1

/-- Counting the loss of `lease` quarantines its executor. -/
def LossQuarantines (r : SchedulerRun S) (lease : LeaseRecord S) : Prop :=
  (S.executor lease.executor).lossQuarantine ≠ .never ∧
    (r.executors lease.executor).lossHorizon ≤ lease.grantSequence ∧
    S.policy.retry.quarantineAfterLossEvents ≤
      (r.executors lease.executor).consecutiveLossEvents + 1

/-- Apart from the lease that ends, the executor holds no last running attempt of
a spent task. -/
def SafeToQuarantine (r : SchedulerRun S) (id : String) (lease : LeaseRecord S) : Prop :=
  ∀ p ∈ r.leases.entries, p.1 ≠ id → p.2.executor = lease.executor → ¬ r.LastOfSpent p.2

/-- The event neither rejects the last running attempt of a spent task nor
quarantines an executor that holds one. -/
def EventSpares (r : SchedulerRun S) : InboxEvent → Prop
  | .heartbeat _ => True
  | .finished id output => ∀ lease, r.leases.find? id = some lease →
      findResultDefect S.codec (S.graph.spec lease.task) lease.lease.attempt output.result
        output.payloads ≠ none →
      r.SafeToQuarantine id lease
  | .failed id kind _ => ∀ lease, r.leases.find? id = some lease →
      (kind = .executorLost → r.LossQuarantines lease) → r.SafeToQuarantine id lease
  | .rejected id _ _ => ∀ lease, r.leases.find? id = some lease → ¬ r.LastOfSpent lease

/-- Ending these leases quarantines no executor that holds the last running
attempt of a spent task. -/
def EndsSpare (now : Millis) : List String → SchedulerRun S → Prop
  | [], _ => True
  | id :: rest, r =>
    (r.failed = false → ∀ lease, r.leases.find? id = some lease → r.LossQuarantines lease →
      r.SafeToQuarantine id lease) ∧ EndsSpare now rest (endLease now r id)

/-- Filling these slots of `e` with duplicates duplicates no attempt of a spent
task. -/
def FillSpares (e : S.ExecutorIndex) : Nat → SchedulerRun S → Prop
  | 0, _ => True
  | rounds + 1, r => r.hasFreeSlot e = true → ∀ lease, r.oldestDuplicable e = some lease →
      ¬ r.Spent lease.task ∧ FillSpares e rounds (r.grant lease.task e true)

def PassSpares : List S.ExecutorIndex → SchedulerRun S → Prop
  | [], _ => True
  | e :: rest, r =>
    (r.backingOff e = false → FillSpares e (S.executor e).slots r.tick) ∧
      PassSpares rest (r.dispatchSpeculativeTo e)

/-- The speculative pass of a dispatch, if there is one, spares the spent tasks. -/
def DispatchSpares (r : SchedulerRun S) : Prop :=
  let passed := (List.finRange S.executorCount).foldl dispatchTo r
  (S.policy.speculativeDuplicates && passed.readyQueue.tasks.isEmpty) = true →
    PassSpares (List.finRange S.executorCount) passed

end SchedulerRun

open SchedulerRun

/-- What the step out of a state does keeps within the budgets. -/
def RunState.Spares (s : RunState S) : Prop :=
  s.run.failed = false →
    match s.stage with
    | .head => s.run.DispatchSpares
    | .applying (event :: _) => s.run.EventSpares event
    | .applying [] => EndsSpare s.run.now (s.run.endedLeases s.run.now) s.run.tick
    | .dispatched | .finished => True

/-- The runs whose steps all spare the spent tasks. The step that ends a run
needs no sparing. -/
def sparingSystem (S : SchedulerSetup) (resumed : List CommittedResult) : Lib.System (RunState S) :=
  (schedulerSystem S resumed).guarded fun s t => t.stage ≠ .finished → s.Spares

namespace SchedulerRun

/-! ## Where failed attempts are counted -/

/-- Rewriting the record of one task, its count kept. -/
theorem failures_update {r r' : SchedulerRun S} {t : S.Task} {task : TaskRecord S}
    (tasks : r'.tasks = Function.update r.tasks t task)
    (keeps : task.failedAttempts = (r.tasks t).failedAttempts) : r'.failures = r.failures := by
  funext x
  simp only [failures, tasks, Function.update_apply]
  split
  · next same => rw [keeps, same]
  · rfl

@[simp] theorem failures_release (r : SchedulerRun S) (id : String) (lease : LeaseRecord S) :
    (r.release id lease).failures = r.failures :=
  failures_update rfl rfl

@[simp] theorem failures_requeue (r : SchedulerRun S) (t : S.Task) :
    (r.requeue t).failures = r.failures :=
  failures_update rfl rfl

@[simp] theorem failures_requeueIdle (r : SchedulerRun S) (t : S.Task) :
    (r.requeueIdle t).failures = r.failures := by
  unfold SchedulerRun.requeueIdle
  split
  · exact failures_requeue r t
  · rfl

theorem failures_foldl {α : Type*} {f : SchedulerRun S → α → SchedulerRun S}
    (keeps : ∀ r a, (f r a).failures = r.failures) (items : List α) (r : SchedulerRun S) :
    (items.foldl f r).failures = r.failures := by
  induction items generalizing r with
  | nil => rfl
  | cons a rest ih => exact (ih (f r a)).trans (keeps r a)

theorem failures_abandonLease (e : S.ExecutorIndex) (r : SchedulerRun S) (id : String) :
    (abandonLease e r id).failures = r.failures := by
  unfold abandonLease
  split
  · rfl
  · next lease _ =>
    extract_lets cancelled avoiding
    have kept : avoiding.failures = cancelled.failures := failures_update rfl rfl
    rw [failures_requeueIdle, kept]
    exact failures_release r id lease

@[simp] theorem failures_quarantine (r : SchedulerRun S) (e : S.ExecutorIndex) (reason : String) :
    (r.quarantine e reason).failures = r.failures := by
  unfold quarantine
  split
  · rfl
  · exact failures_foldl (failures_abandonLease e) _ _

@[simp] theorem failures_failBuild (r : SchedulerRun S) (kind : BuildFailureKind)
    (taskId message : String) : (r.failBuild kind taskId message).failures = r.failures := by
  unfold failBuild
  split <;> rfl

@[simp] theorem failures_countExecutorLoss (r : SchedulerRun S) (lease : LeaseRecord S) :
    (r.countExecutorLoss lease).failures = r.failures := by
  unfold countExecutorLoss
  extract_lets record events counted
  split
  · rfl
  · split
    · rfl
    · split
      · exact failures_quarantine counted _ _
      · rfl

@[simp] theorem failures_noteExecutorRecovery (r : SchedulerRun S) (lease : LeaseRecord S) :
    (r.noteExecutorRecovery lease).failures = r.failures := by
  unfold noteExecutorRecovery
  split <;> rfl

theorem failures_markReady (r : SchedulerRun S) (t : S.Task) :
    (r.markReady t).failures = r.failures := by
  unfold SchedulerRun.markReady
  split
  · exact failures_requeue r t
  · rfl

@[simp] theorem failures_commit (r : SchedulerRun S) (lease : LeaseRecord S)
    (output : AttemptOutput) : (r.commit lease output).failures = r.failures := by
  unfold SchedulerRun.commit
  extract_lets executorId called
  split
  · exact failures_failBuild called _ _ _
  · unfold markReadyDependents
    exact (failures_foldl failures_markReady _ _).trans (failures_update rfl rfl)

theorem failures_grant (r : SchedulerRun S) (t : S.Task) (e : S.ExecutorIndex)
    (speculative : Bool) : (r.grant t e speculative).failures = r.failures :=
  failures_update rfl rfl

/-! ## What the handlers keep -/

/-- Every spent task outside `exempt` has an attempt running, unless the run has
failed. -/
def Budgeted (r : SchedulerRun S) (exempt : Set S.Task) : Prop :=
  r.failed = false → ∀ t ∉ exempt, r.Spent t → (r.tasks t).activeLeases ≠ ∅

theorem running_of_quiet {r r' : SchedulerRun S} (quiet : Quiet r.ledger r'.ledger)
    (running : r'.failed = false) : r.failed = false := by
  rw [failed_iff] at running ⊢
  cases failure : r.ledger.failure with
  | none => rfl
  | some f =>
    rw [quiet.failure f failure] at running
    cases running

theorem spent_of_quiet {r r' : SchedulerRun S} (quiet : Quiet r.ledger r'.ledger)
    (failures : r'.failures = r.failures) (t : S.Task) : r'.Spent t ↔ r.Spent t := by
  have phase : (r'.tasks t).phase = .committed ↔ (r.tasks t).phase = .committed := quiet.phase t
  rw [Spent, Spent, failures, Ne, Ne, phase]

/-- What keeps phases and counts keeps the budget where it keeps an attempt. -/
theorem Budgeted.keep {r r' : SchedulerRun S} {exempt exempt' : Set S.Task}
    (h : r.Budgeted exempt) (more : exempt ⊆ exempt') (quiet : Quiet r.ledger r'.ledger)
    (failures : r'.failures = r.failures)
    (leases : ∀ t ∉ exempt', r.Spent t → (r.tasks t).activeLeases ≠ ∅ →
      (r'.tasks t).activeLeases ≠ ∅) : r'.Budgeted exempt' := by
  intro running t notExempt spent
  have spent := (spent_of_quiet quiet failures t).mp spent
  exact leases t notExempt spent
    (h (running_of_quiet quiet running) t (fun mem => notExempt (more mem)) spent)

/-- Only the ledger and the counts matter. -/
theorem Budgeted.same {r r' : SchedulerRun S} {exempt : Set S.Task} (h : r.Budgeted exempt)
    (ledger : r'.ledger = r.ledger) (failures : r'.failures = r.failures) :
    r'.Budgeted exempt := by
  refine h.keep (Set.Subset.refl _) (ledger ▸ Quiet.refl _) failures fun t _ _ running => ?_
  have leases : (r'.tasks t).activeLeases = (r.tasks t).activeLeases :=
    congrFun (congrArg Ledger.activeLeases ledger) t
  rw [leases]
  exact running

theorem Budgeted.of_committed {r : SchedulerRun S} {t : S.Task} (h : r.Budgeted {t})
    (committed : (r.tasks t).phase = .committed) : r.Budgeted ∅ := by
  intro running x _ spent
  refine h running x ?_ spent
  rintro rfl
  exact spent.1 committed

theorem Budgeted.of_failed {r : SchedulerRun S} (failed : r.failed = true) (exempt : Set S.Task) :
    r.Budgeted exempt := by
  intro running
  rw [failed] at running
  cases running

theorem activeLeases_release {r : SchedulerRun S} {id : String} {lease : LeaseRecord S}
    {t : S.Task} (other : t ≠ lease.task) :
    ((r.release id lease).tasks t).activeLeases = (r.tasks t).activeLeases := by
  have ledger := congrFun (congrArg Ledger.activeLeases (ledger_release r id lease)) t
  exact ledger.trans (Function.update_of_ne other _ _)

theorem budgeted_release {r : SchedulerRun S} (h : r.Budgeted ∅) (id : String)
    (lease : LeaseRecord S) : (r.release id lease).Budgeted {lease.task} := by
  refine h.keep (Set.empty_subset _) (moves_releaseLease r id lease).quiet
    (failures_release r id lease) fun t other _ running => ?_
  rw [activeLeases_release other]
  exact running

/-- A failed attempt of a spent task without another one running fails the
build. -/
theorem budgeted_attemptFailed {r : SchedulerRun S} {t : S.Task} (h : r.Budgeted {t})
    (e : S.ExecutorIndex) (reason : String) : (r.attemptFailed t e reason).Budgeted ∅ := by
  unfold attemptFailed
  extract_lets counted task maxAttempts
  have others : ∀ x ≠ t, counted.tasks x = r.tasks x := fun x other =>
    Function.update_of_ne other _ _
  have rest : ∀ x ≠ t, counted.failed = false → counted.Spent x →
      (counted.tasks x).activeLeases ≠ ∅ := by
    intro x other running spent
    rw [Spent, failures, others x other] at spent
    rw [others x other]
    exact h running x other spent
  split
  · next busy =>
    intro running x _ spent
    by_cases isT : x = t
    · subst isT
      rcases busy with committed | hasLease | failed
      · exact absurd committed spent.1
      · exact hasLease
      · rw [failed] at running
        cases running
    · exact rest x isT running spent
  · next free =>
    obtain ⟨-, -, running⟩ : task.phase ≠ .committed ∧ task.activeLeases = ∅ ∧ counted.failed ≠ true :=
      by simpa only [not_or, not_not] using free
    split
    · refine Budgeted.of_failed ?_ _
      rw [failBuild, if_neg running]
      rfl
    · next within =>
      intro running x _ spent
      by_cases isT : x = t
      · subst isT
        have used : S.budget x ≤ counted.failures x := by
          have used := spent.2
          rwa [failures_requeue] at used
        exact absurd used within
      · have kept : (((counted.modifyStats fun stats =>
            { stats with retries := stats.retries + 1 }).requeue t).tasks x) = counted.tasks x :=
          Function.update_of_ne isT _ _
        rw [Spent, failures, kept] at spent
        rw [kept]
        exact rest x isT running spent

/-- A quarantine takes the leases of one executor off the table. -/
theorem quarantine_table {r : SchedulerRun S} {exempt : Set S.Task} (good : r.ledger.Good exempt)
    {e : S.ExecutorIndex} (usable : (r.executors e).quarantined = false) (reason : String)
    {p : String × LeaseRecord S} (mem : p ∈ r.leases.entries) (elsewhere : p.2.executor ≠ e) :
    p ∈ (r.quarantine e reason).leases.entries := by
  have consistent : (r.ledger.setQuarantined e).Consistent ∅ := { good.consistent with }
  obtain ⟨-, -, -, -, table⟩ := dropNamed_foldl (r.leasesOf e) consistent good.settled
  change p ∈ (r.quarantine e reason).ledger.leases.entries
  rw [ledger_quarantine_of_not reason usable, table]
  refine ⟨mem, fun named => ?_⟩
  obtain ⟨q, inTable, same⟩ := List.mem_map.mp named
  obtain ⟨inTable, onE⟩ := List.mem_filter.mp inTable
  have value : q.2 = p.2 := r.leases.value_unique (k := p.1) (by rw [← same]; exact inTable) mem
  rw [value] at onE
  exact elsewhere (of_decide_eq_true onE)

theorem budgeted_quarantine {r : SchedulerRun S} {exempt spared : Set S.Task}
    (good : r.ledger.Good exempt) (h : r.Budgeted spared) {e : S.ExecutorIndex}
    (safe : ∀ p ∈ r.leases.entries, p.2.executor = e → p.2.task ∉ spared → ¬ r.LastOfSpent p.2)
    (reason : String) : (r.quarantine e reason).Budgeted spared := by
  cases quarantined : (r.executors e).quarantined with
  | true =>
    rw [quarantine, if_pos quarantined]
    exact h
  | false =>
    refine h.keep (Set.Subset.refl _) (moves_quarantine r e reason).quiet
      (failures_quarantine r e reason) fun t notSpared spent running => ?_
    obtain ⟨id, held⟩ := Finset.nonempty_iff_ne_empty.mpr running
    obtain ⟨p, mem, rfl, rfl⟩ := (good.consistent.held _ _).mp held
    have stays : ∃ q ∈ r.leases.entries, q.2.task = p.2.task ∧ q.2.executor ≠ e := by
      by_cases onE : p.2.executor = e
      · -- not the task's last attempt, and the others are on other executors
        have several : (r.tasks p.2.task).activeLeases.card ≠ 1 := fun single =>
          safe p mem onE notSpared ⟨spent, single⟩
        have one : 0 < (r.tasks p.2.task).activeLeases.card := Finset.card_pos.mpr ⟨_, held⟩
        have more : 1 < (r.tasks p.2.task).activeLeases.card := by omega
        obtain ⟨id, held', ne⟩ := Finset.exists_mem_ne more p.1
        obtain ⟨q, inTable, rfl, task⟩ := (good.consistent.held _ _).mp held'
        exact ⟨q, inTable, task, fun same =>
          good.consistent.distinct q inTable p mem ne task (same.trans onE.symm)⟩
      · exact ⟨p, mem, rfl, onE⟩
    obtain ⟨q, inTable, task, elsewhere⟩ := stays
    have after := (good_quarantine good e reason).1.consistent
    have kept := quarantine_table good quarantined reason inTable elsewhere
    exact Finset.ne_empty_of_mem ((after.held _ _).mpr ⟨q, kept, rfl, task⟩)

theorem budgeted_countExecutorLoss {r : SchedulerRun S} {exempt spared : Set S.Task}
    (good : r.ledger.Good exempt) (h : r.Budgeted spared) {lease : LeaseRecord S}
    (safe : r.LossQuarantines lease → ∀ p ∈ r.leases.entries,
      p.2.executor = lease.executor → p.2.task ∉ spared → ¬ r.LastOfSpent p.2) :
    (r.countExecutorLoss lease).Budgeted spared := by
  unfold countExecutorLoss
  extract_lets record events counted
  have same : counted.ledger = r.ledger := by
    apply ledger_modifyExecutor <;> exact fun _ => rfl
  split
  · exact h
  · next counts =>
    split
    · exact h
    · next new =>
      have kept : counted.Budgeted spared := h.same same rfl
      split
      · next enough =>
        refine budgeted_quarantine (same ▸ good) kept (fun p mem onE notSpared => ?_) _
        exact safe ⟨counts, not_lt.mp new, enough⟩ p mem onE notSpared
      · exact kept

/-- What is safe before the lease is released is safe after. -/
theorem SafeToQuarantine.released {r told : SchedulerRun S} {id : String} {lease : LeaseRecord S}
    (safe : r.SafeToQuarantine id lease) (same : told.ledger = (r.release id lease).ledger)
    (failures : told.failures = r.failures) : ∀ p ∈ told.leases.entries,
      p.2.executor = lease.executor → p.2.task ∉ ({lease.task} : Set S.Task) →
        ¬ told.LastOfSpent p.2 := by
  intro p mem onE other last
  have quiet : Quiet r.ledger told.ledger := same ▸ (moves_releaseLease r id lease).quiet
  have table : told.leases = r.leases.erase id := congrArg Ledger.leases same
  have leases : (told.tasks p.2.task).activeLeases = (r.tasks p.2.task).activeLeases :=
    (congrFun (congrArg Ledger.activeLeases same) _).trans (activeLeases_release other)
  rw [table] at mem
  obtain ⟨ne, mem⟩ := Lib.OrderedMap.mem_erase.mp mem
  refine safe p mem ne onE ⟨(spent_of_quiet quiet failures _).mp last.1, ?_⟩
  rw [← leases]
  exact last.2

/-! ## Events -/

theorem budgeted_commit {r : SchedulerRun S} {lease : LeaseRecord S} (h : r.Budgeted {lease.task})
    (fresh : (r.tasks lease.task).phase ≠ .committed) (running : r.failed = false)
    (output : AttemptOutput) : (r.commit lease output).Budgeted ∅ := by
  obtain ⟨-, -, -, -, -, outcome⟩ := commits_commit (r := r) fresh running output
  have leases : (r.commit lease output).ledger.activeLeases = r.ledger.activeLeases := by
    have marked : ∀ (ready : List S.Task) (l : Ledger S),
        (ready.foldl Ledger.markReady l).activeLeases = l.activeLeases := by
      intro ready
      induction ready with
      | nil => exact fun _ => rfl
      | cons t rest ih =>
        intro l
        refine (ih _).trans ?_
        unfold Ledger.markReady
        split <;> rfl
    rcases ledger_commit r lease output with ⟨what, -, after⟩ | ⟨-, after⟩
    · rw [after]
      split <;> rfl
    · rw [after]
      exact marked _ _
  rcases outcome with ⟨failed, -⟩ | ⟨-, phase, -⟩
  · exact Budgeted.of_failed failed _
  · intro _ x _ spent
    have same : ((r.commit lease output).tasks x).activeLeases = (r.tasks x).activeLeases :=
      congrFun leases x
    rw [same]
    have notNow : ¬ (x = lease.task ∨ (r.tasks x).phase = .committed) := fun now =>
      spent.1 ((phase x).mpr now)
    refine h running x (fun now => notNow (.inl now)) ⟨fun now => notNow (.inr now), ?_⟩
    have used := spent.2
    rwa [failures_commit] at used

theorem budgeted_onVerifiedSuccess {r : SchedulerRun S} {lease : LeaseRecord S}
    (h : r.Budgeted {lease.task}) (running : r.failed = false) (output : AttemptOutput) :
    (r.onVerifiedSuccess lease output).Budgeted ∅ := by
  unfold onVerifiedSuccess
  extract_lets noted task
  have same : noted.ledger = r.ledger := ledger_noteExecutorRecovery r lease
  have kept : noted.Budgeted {lease.task} := h.same same (failures_noteExecutorRecovery r lease)
  have running : noted.failed = false := by rw [failed_iff, same, ← failed_iff]; exact running
  split
  · next fresh => exact budgeted_commit kept fresh running output
  · next committed =>
    have kept : noted.Budgeted ∅ := kept.of_committed (not_not.mp committed)
    split
    · exact kept.same (ledger_discardDuplicate noted lease) rfl
    · refine Budgeted.of_failed ?_ _
      have after := congrArg Ledger.failure (ledger_reportIncident noted lease output)
      rw [if_neg (by simp [running])] at after
      change (noted.reportIncident lease output).ledger.failure.isSome = true
      rw [after]
      rfl

theorem budgeted_onVerifiedFailure {r : SchedulerRun S} {lease : LeaseRecord S}
    (h : r.Budgeted {lease.task}) (error : TaskError) :
    (r.onVerifiedFailure lease error).Budgeted ∅ := by
  unfold onVerifiedFailure
  extract_lets taskId reason told
  have kept : told.Budgeted {lease.task} := h.same (by simp [told]) rfl
  split
  · next committed => exact kept.of_committed committed
  · split
    · refine Budgeted.of_failed ?_ _
      unfold failBuild
      split
      · next failed => exact failed
      · rfl
    · exact budgeted_attemptFailed kept _ _

theorem budgeted_onFinished {r : SchedulerRun S} (good : r.ledger.Good ∅) (h : r.Budgeted ∅)
    (running : r.failed = false) (id : String) (output : AttemptOutput)
    (spares : r.EventSpares (.finished id output)) : (r.onFinished id output).Budgeted ∅ := by
  unfold onFinished
  split
  · exact h
  · next lease found =>
    extract_lets released cleared
    have same : cleared.ledger = (r.release id lease).ledger := by
      apply ledger_modifyExecutor <;> exact fun _ => rfl
    have kept : cleared.Budgeted {lease.task} := (budgeted_release h id lease).same same rfl
    split
    · next defect found' =>
      have safe := spares lease found (by rw [found']; simp)
      unfold onInvalidResult
      extract_lets counted told quarantined
      have sameTold : told.ledger = (r.release id lease).ledger := by
        rw [← same]
        simp [told, counted]
      have good : told.ledger.Good (insert lease.task ∅) := sameTold ▸ (good_release good found).1
      refine budgeted_attemptFailed (budgeted_quarantine good (kept.same (sameTold.trans same.symm)
        rfl) ?_ _) _ _
      exact safe.released sameTold (failures_release r id lease)
    · next noDefect =>
      split
      · exact budgeted_onVerifiedSuccess kept running output
      · exact budgeted_onVerifiedFailure kept _
      · next failed noError =>
        obtain ⟨valid, -⟩ := (findResultDefect_eq_none S.codec).mp noDefect
        have some := validateTaskResult_error S.codec valid failed
        rw [noError] at some
        cases some

theorem budgeted_onFailed {r : SchedulerRun S} (good : r.ledger.Good ∅) (h : r.Budgeted ∅)
    (id : String) (kind : AttemptFailureKind) (message : String)
    (spares : r.EventSpares (.failed id kind message)) : (r.onFailed id kind message).Budgeted ∅ := by
  unfold onFailed
  split
  · exact h
  · next lease found =>
    extract_lets released reason told after
    have same : told.ledger = (r.release id lease).ledger := by simp [told, released]
    have kept : told.Budgeted {lease.task} := (budgeted_release h id lease).same same rfl
    have good : told.ledger.Good (insert lease.task ∅) := same ▸ (good_release good found).1
    refine budgeted_attemptFailed ?_ _ _
    cases kind with
    | invalidResult =>
      have safe := spares lease found fun lost => by cases lost
      exact budgeted_quarantine (r := told.modifyStats _) good kept
        (safe.released same (failures_release r id lease)) _
    | executorLost =>
      refine budgeted_countExecutorLoss good kept fun quarantines => ?_
      refine (spares lease found fun _ => ?_).released same (failures_release r id lease)
      simpa [LossQuarantines, told, released, emit, perform, release, modifyTask, modifyExecutor]
        using quarantines

theorem activeLeases_requeueIdle (l : Ledger S) (t : S.Task) :
    (l.requeueIdle t).activeLeases = l.activeLeases := by
  unfold Ledger.requeueIdle
  split <;> rfl

/-- A rejected lease is released and its task requeued if idle; nothing is
counted. -/
theorem onRejected_eq {r : SchedulerRun S} {id : String} {lease : LeaseRecord S}
    (found : r.leases.find? id = some lease) (code message : String) :
    (r.onRejected id code message).ledger = (r.ledger.release id lease).requeueIdle lease.task ∧
      (r.onRejected id code message).failures = r.failures := by
  unfold onRejected
  split
  · next none =>
    rw [none] at found
    cases found
  · next held found' =>
    cases found.symm.trans found'
    extract_lets released counted told declinedUntil backedOff
    have same : backedOff.ledger = (r.release id lease).ledger := by
      have frame : backedOff.ledger = told.tick.ledger := by
        apply ledger_modifyExecutor <;> exact fun _ => rfl
      rw [frame]
      simp [told, counted, released]
    refine ⟨?_, ?_⟩
    · rw [ledger_requeueIdle, same, ledger_release]
    · exact (failures_requeueIdle backedOff _).trans (failures_release r id lease)

theorem budgeted_onRejected {r : SchedulerRun S} (good : r.ledger.Good ∅) (h : r.Budgeted ∅)
    (id code message : String) (spares : r.EventSpares (.rejected id code message)) :
    (r.onRejected id code message).Budgeted ∅ := by
  cases found : r.leases.find? id with
  | none =>
    rw [onRejected, found]
    exact h
  | some lease =>
    have mem := Lib.OrderedMap.find?_eq_some.mp found
    have leaseId : lease.lease.leaseId = id := (good.consistent.named _ mem).1
    obtain ⟨ledger, failures⟩ := onRejected_eq found code message
    refine h.keep (Set.Subset.refl _) (moves_onRejected r id code message).quiet failures
      fun t _ spent running => ?_
    have leases : ((r.onRejected id code message).tasks t).activeLeases =
        ((r.release id lease).tasks t).activeLeases := by
      refine (congrFun (congrArg Ledger.activeLeases ledger) t).trans ?_
      rw [activeLeases_requeueIdle]
      exact congrFun (congrArg Ledger.activeLeases (ledger_release r id lease).symm) t
    rw [leases]
    by_cases same : t = lease.task
    · -- the task was not on its last attempt
      subst same
      have several : (r.tasks lease.task).activeLeases.card ≠ 1 := fun single =>
        spares lease found ⟨spent, single⟩
      have one : 0 < (r.tasks lease.task).activeLeases.card :=
        Finset.card_pos.mpr (Finset.nonempty_iff_ne_empty.mpr running)
      have more : 1 < (r.tasks lease.task).activeLeases.card := by omega
      obtain ⟨other, held, ne⟩ := Finset.exists_mem_ne more id
      have after : ((r.release id lease).tasks lease.task).activeLeases =
          (r.tasks lease.task).activeLeases.erase lease.lease.leaseId :=
        (congrFun (congrArg Ledger.activeLeases (ledger_release r id lease)) lease.task).trans
          (Function.update_self _ _ _)
      rw [after, leaseId]
      exact Finset.ne_empty_of_mem (Finset.mem_erase.mpr ⟨ne, held⟩)
    · rw [activeLeases_release same]
      exact running

theorem budgeted_onHeartbeat {r : SchedulerRun S} (h : r.Budgeted ∅) (id : String) :
    (r.onHeartbeat id).Budgeted ∅ := by
  unfold onHeartbeat
  split
  · exact h
  · exact h

theorem budgeted_apply {r : SchedulerRun S} (good : r.ledger.Good ∅) (h : r.Budgeted ∅)
    (event : InboxEvent) (spares : r.failed = false → r.EventSpares event) :
    (r.apply event).Budgeted ∅ := by
  unfold apply
  split
  · exact h
  · next running =>
    have running : r.failed = false := by simpa using running
    cases event with
    | heartbeat id => exact budgeted_onHeartbeat h id
    | finished id output => exact budgeted_onFinished good h running id output (spares running)
    | failed id kind message => exact budgeted_onFailed good h id kind message (spares running)
    | rejected id code message => exact budgeted_onRejected good h id code message (spares running)

/-! ## Expiry -/

theorem budgeted_endLease (now : Millis) {r : SchedulerRun S} (good : r.ledger.Good ∅)
    (h : r.Budgeted ∅) {id : String} (spares : r.failed = false → ∀ lease,
      r.leases.find? id = some lease → r.LossQuarantines lease → r.SafeToQuarantine id lease) :
    (endLease now r id).Budgeted ∅ := by
  unfold endLease
  split
  · exact h
  · next lease found =>
    -- both ends count the loss, then fail the attempt
    have lost : ∀ (told : SchedulerRun S) (reason : String), r.failed = false →
        told.ledger = (r.release id lease).ledger → told.failures = r.failures →
        (told.LossQuarantines lease → r.LossQuarantines lease) →
        ((told.countExecutorLoss lease).attemptFailed lease.task lease.executor
          reason).Budgeted ∅ := by
      intro told reason running same failures quarantines
      have kept : told.Budgeted {lease.task} :=
        (budgeted_release h id lease).same same (failures.trans (failures_release r id lease).symm)
      refine budgeted_attemptFailed (budgeted_countExecutorLoss
        (same ▸ (good_release good found).1) kept fun quarantined => ?_) _ _
      exact (spares running lease found (quarantines quarantined)).released same failures
    split
    · exact h
    · next running =>
      have running : r.failed = false := by simpa using running
      split
      · unfold endLeaseAtDeadline
        extract_lets detail counted told cancelled lossCounted
        exact lost cancelled _ running (by simp [cancelled, told, counted])
          (failures_release r id lease) fun quarantines => by
            simpa [LossQuarantines, cancelled, told, counted, emit, perform, modifyStats, release,
              modifyTask, modifyExecutor] using quarantines
      · unfold endLeaseAtExpiry
        extract_lets counted told expired lossCounted
        exact lost expired _ running (by simp [expired, told, counted])
          (failures_release r id lease) fun quarantines => by
            simpa [LossQuarantines, expired, told, counted, emit, perform, modifyStats, release,
              modifyTask, modifyExecutor] using quarantines

theorem budgeted_expire (now : Millis) (ids : List String) {r : SchedulerRun S}
    (good : r.ledger.Good ∅) (h : r.Budgeted ∅) (spares : EndsSpare now ids r) :
    (ids.foldl (endLease now) r).Budgeted ∅ := by
  induction ids generalizing r with
  | nil => exact h
  | cons id rest ih =>
    exact ih (good_endLease now good id) (budgeted_endLease now good h spares.1) spares.2

/-! ## Dispatch -/

/-- A part of a dispatch keeps the run in order and grants within the budgets. -/
structure Granted (r r' : SchedulerRun S) : Prop extends GrantsWithin r r' where
  good : r'.ledger.Good ∅
  budgeted : r'.Budgeted ∅
  running : r'.failed = false
  failures : r'.failures = r.failures

theorem Granted.refl {r : SchedulerRun S} (good : r.ledger.Good ∅) (budgeted : r.Budgeted ∅)
    (running : r.failed = false) : Granted r r :=
  ⟨⟨[], (List.append_nil _).symm, List.forall_mem_nil _⟩, good, budgeted, running, rfl⟩

/-- Reading the clock first. -/
theorem Granted.of_tick {r r' : SchedulerRun S} (h : Granted r.tick r') : Granted r r' :=
  ⟨⟨h.granted⟩, h.good, h.budgeted, h.running, h.failures⟩

theorem Granted.trans {r r' r'' : SchedulerRun S} (h : Granted r r') (h' : Granted r' r'') :
    Granted r r'' := by
  obtain ⟨first, log, within⟩ := h.granted
  obtain ⟨second, log', within'⟩ := h'.granted
  refine ⟨⟨first ++ second, by rw [log', log, List.append_assoc], fun g mem => ?_⟩, h'.good,
    h'.budgeted, h'.running, h'.failures.trans h.failures⟩
  rcases List.mem_append.mp mem with inFirst | inSecond
  · exact within g inFirst
  · rw [← h.failures]
    exact within' g inSecond

theorem budgeted_grant {r : SchedulerRun S} (h : r.Budgeted ∅) {t : S.Task}
    (fresh : (r.tasks t).phase ≠ .committed) (e : S.ExecutorIndex) (speculative : Bool) :
    (r.grant t e speculative).Budgeted ∅ := by
  have quiet : Quiet r.ledger (r.grant t e speculative).ledger := by
    rw [ledger_grant]
    exact quiet_grant fresh
  refine h.keep (Set.Subset.refl _) quiet (failures_grant r t e speculative) fun x _ _ running => ?_
  have leases := congrFun (congrArg Ledger.activeLeases (ledger_grant r t e speculative)) x
  change ((r.grant t e speculative).tasks x).activeLeases = _ at leases
  rw [leases]
  simp only [Ledger.grant, Function.update_apply]
  split
  · exact Finset.insert_ne_empty _ _
  · exact running

theorem granted_grant {r : SchedulerRun S} {t : S.Task} {e : S.ExecutorIndex} {speculative : Bool}
    (good : (r.grant t e speculative).ledger.Good ∅) (h : r.Budgeted ∅) (running : r.failed = false)
    (fresh : (r.tasks t).phase ≠ .committed) (within : r.failures t < S.budget t) :
    Granted r (r.grant t e speculative) where
  granted := by
    refine ⟨[(t, (r.tasks t).attemptsStarted + 1)],
      congrArg Ledger.grants (ledger_grant r t e speculative), fun g mem => ?_⟩
    rw [List.mem_singleton.mp mem]
    exact within
  good := good
  budgeted := budgeted_grant h fresh e speculative
  running := running
  failures := failures_grant r t e speculative

/-- A queued task is not spent, for it has no attempt running. -/
theorem Budgeted.queued {r : SchedulerRun S} (h : r.Budgeted ∅) (good : r.ledger.Good ∅)
    (running : r.failed = false) {t : S.Task} (mem : t ∈ r.readyQueue.tasks) :
    (r.tasks t).phase ≠ .committed ∧ r.failures t < S.budget t := by
  have ready : (r.tasks t).phase = .ready := (good.consistent.queued t).mp mem
  have fresh : (r.tasks t).phase ≠ .committed := by
    rw [ready]
    decide
  refine ⟨fresh, not_le.mp fun used => ?_⟩
  exact h running t (Set.notMem_empty t) ⟨fresh, used⟩ (good.consistent.ready t ready)

theorem granted_fillSlots {e : S.ExecutorIndex} (rounds : Nat) {r : SchedulerRun S}
    (good : r.ledger.Good ∅) (h : r.Budgeted ∅) (running : r.failed = false) :
    Granted r (fillSlots e rounds r) := by
  induction rounds generalizing r with
  | zero => exact .refl good h running
  | succ rounds ih =>
    rw [fillSlots]
    split
    · next free =>
      split
      · exact .refl good h running
      · next t picked =>
        obtain ⟨fresh, within⟩ := h.queued good running (mem_of_pickTask picked).1
        have granted := granted_grant (good_grant_ready good free picked) h running fresh within
        exact granted.trans (ih granted.good granted.budgeted granted.running)
    · exact .refl good h running

theorem granted_fillSlotsSpeculative {e : S.ExecutorIndex}
    (speculative : S.policy.speculativeDuplicates = true) (rounds : Nat) {r : SchedulerRun S}
    (good : r.ledger.Good ∅) (h : r.Budgeted ∅) (running : r.failed = false)
    (spares : FillSpares e rounds r) : Granted r (fillSlotsSpeculative e rounds r) := by
  induction rounds generalizing r with
  | zero => exact .refl good h running
  | succ rounds ih =>
    rw [fillSlotsSpeculative]
    split
    · next free =>
      split
      · exact .refl good h running
      · next lease picked =>
        obtain ⟨notSpent, spares⟩ := spares free lease picked
        have fresh := ((mayDuplicate_iff r e lease).mp (mem_of_oldestDuplicable picked).2).2.1
        have within : r.failures lease.task < S.budget lease.task :=
          not_le.mp fun used => notSpent ⟨fresh, used⟩
        have granted := granted_grant (good_grant_duplicate speculative good free picked) h running
          fresh within
        exact granted.trans (ih granted.good granted.budgeted granted.running spares)
    · exact .refl good h running

theorem granted_dispatch {r : SchedulerRun S} (good : r.ledger.Good ∅) (h : r.Budgeted ∅)
    (running : r.failed = false) (spares : r.DispatchSpares) : Granted r r.dispatch := by
  have pass : ∀ (executors : List S.ExecutorIndex) (r : SchedulerRun S), r.ledger.Good ∅ →
      r.Budgeted ∅ → r.failed = false → Granted r (executors.foldl dispatchTo r) := by
    intro executors
    induction executors with
    | nil => exact fun r good h running => .refl good h running
    | cons e rest ih =>
      intro r good h running
      have turn : Granted r (r.dispatchTo e) := by
        unfold dispatchTo
        split
        · exact .of_tick (.refl good h running)
        · exact .of_tick (granted_fillSlots _ good h running)
      exact turn.trans (ih _ turn.good turn.budgeted turn.running)
  have first := pass (List.finRange S.executorCount) r good h running
  unfold dispatch
  extract_lets passed
  split
  · next both =>
    have speculative : S.policy.speculativeDuplicates = true := (Bool.and_eq_true_iff.mp both).1
    have passSpeculative : ∀ (executors : List S.ExecutorIndex) (r : SchedulerRun S),
        r.ledger.Good ∅ → r.Budgeted ∅ → r.failed = false → PassSpares executors r →
        Granted r (executors.foldl dispatchSpeculativeTo r) := by
      intro executors
      induction executors with
      | nil => exact fun r good h running _ => .refl good h running
      | cons e rest ih =>
        intro r good h running spares
        have turn : Granted r (r.dispatchSpeculativeTo e) := by
          unfold dispatchSpeculativeTo
          split
          · exact .of_tick (.refl good h running)
          · next free =>
            exact .of_tick (granted_fillSlotsSpeculative speculative _ good h running
              (spares.1 (by simpa using free)))
        exact turn.trans (ih _ turn.good turn.budgeted turn.running spares.2)
    exact first.trans (passSpeculative _ passed first.good first.budgeted first.running (spares both))
  · exact first

/-! ## Before the first round -/

theorem failures_applyResumedResult {r r' : SchedulerRun S} {committed : CommittedResult}
    (applied : r.applyResumedResult committed = .ok r') : r'.failures = r.failures := by
  unfold applyResumedResult at applied
  simp only [] at applied
  split at applied
  · cases applied
  · next t _ =>
    split at applied
    · cases applied
    · split at applied
      · cases applied
      · split at applied
        · cases applied
        · cases applied
          exact failures_update (t := t) rfl rfl

theorem failures_applyResumed {resumed : List CommittedResult} {r r' : SchedulerRun S}
    (applied : r.applyResumed resumed = .ok r') : r'.failures = r.failures := by
  induction resumed generalizing r with
  | nil =>
    cases applied
    rfl
  | cons committed rest ih =>
    obtain ⟨middle, first, applied⟩ := bind_eq_ok.mp applied
    exact (ih applied).trans (failures_applyResumedResult first)

theorem failures_prepare (r : SchedulerRun S) : r.prepare.failures = r.failures := by
  refine failures_foldl (fun r t => ?_) _ r
  unfold markInitiallyReady
  split
  · exact failures_requeue r t
  · rfl

/-- A valid policy allows every task at least one attempt. -/
theorem budget_pos (S : SchedulerSetup) (t : S.Task) : 0 < S.budget t := by
  obtain ⟨-, valid⟩ := check_bind_eq_ok.mp S.policyValid
  obtain ⟨retry, valid⟩ := check_bind_eq_ok.mp valid
  obtain ⟨overrides, -⟩ := check_bind_eq_ok.mp valid
  have attempts : ∀ {policy : RetryPolicy}, validateRetryPolicy policy = .ok () →
      0 < policy.maxAttempts := fun checked =>
    Nat.pos_of_ne_zero (of_decide_eq_true (require_eq_ok.mp checked)).1
  unfold SchedulerSetup.budget maxAttemptsFor
  split
  · exact attempts retry
  · next override found =>
    have checked := forM_eq_ok.mp overrides _ (Lib.OrderedMap.find?_eq_some.mp found)
    obtain ⟨-, checked⟩ := check_bind_eq_ok.mp checked
    exact attempts (check_bind_eq_ok.mp checked).1

/-- No task is spent before the first round. -/
theorem budgeted_prepare {resumed : List CommittedResult} {r : SchedulerRun S}
    (applied : (start S).applyResumed resumed = .ok r) : r.prepare.Budgeted ∅ := by
  intro _ t _ spent
  have none : r.prepare.failures t = 0 := by
    rw [failures_prepare, failures_applyResumed applied]
    rfl
  have used := spent.2
  rw [none] at used
  exact absurd (budget_pos S t) (not_lt.mpr used)

end SchedulerRun

/-! ## Runs -/

variable {resumed : List CommittedResult}

/-- A run that ends keeps its tasks and its queue, unless it ends by failing. -/
theorem advance_finished {s t : RunState S} {input : RoundInput} (advanced : s.advance input = some t)
    (finished : t.stage = .finished) : t.run.failed = true ∨
      t.run.tasks = s.run.tasks ∧ t.run.readyQueue = s.run.readyQueue ∧
        t.run.failed = s.run.failed := by
  obtain ⟨r, stage⟩ := s
  unfold RunState.advance at advanced
  cases stage with
  | head =>
    simp only at advanced
    split_ifs at advanced <;> cases advanced
    · exact .inr ⟨rfl, rfl, rfl⟩
    · exact .inr ⟨rfl, rfl, rfl⟩
    · exact .inr ⟨rfl, rfl, rfl⟩
    · cases finished
  | dispatched =>
    simp only at advanced
    split_ifs at advanced <;> cases advanced
    · cases finished
    · refine .inl ?_
      change (failBuild _ _ _ _).failed = true
      unfold failBuild
      split
      · next failed => exact failed
      · rfl
    · cases finished
  | applying events => cases events <;> cases advanced <;> cases finished
  | finished => cases advanced

/-- What a step that spares the spent tasks keeps. -/
theorem budgeted_advance {s t : RunState S} {input : RoundInput} (good : s.run.ledger.Good ∅)
    (h : s.run.Budgeted ∅) (advanced : s.advance input = some t) (unfinished : t.stage ≠ .finished)
    (spares : s.Spares) : t.run.Budgeted ∅ := by
  obtain ⟨r, stage⟩ := s
  unfold RunState.advance at advanced
  cases stage with
  | head =>
    simp only at advanced
    split_ifs at advanced with failed <;> cases advanced
    · exact absurd rfl unfinished
    · exact absurd rfl unfinished
    · exact absurd rfl unfinished
    · have running : r.failed = false := by simpa using failed
      exact (granted_dispatch good h running (spares running)).budgeted
  | dispatched =>
    simp only at advanced
    split_ifs at advanced <;> cases advanced
    · have looked : r.anyExecutorBackingOff.2.tasks = r.tasks := (anyBackingOff_run _ r).1
      refine h.same (by simp [anyExecutorBackingOff]) (funext fun x => ?_)
      exact congrArg (fun tasks => (tasks x).failedAttempts) looked
    · exact absurd rfl unfinished
    · exact h.same (by simp) rfl
  | applying events =>
    cases events with
    | nil =>
      cases advanced
      by_cases failed : r.failed = true
      · intro running
        have running := running_of_quiet (moves_expireLeases r).quiet running
        exact absurd running (by simp [failed])
      · exact budgeted_expire _ _ (r := r.tick) good h (spares (by simpa using failed))
    | cons event rest =>
      cases advanced
      exact budgeted_apply good h event spares
  | finished => cases advanced

/-- What the sparing runs of `Scheduler::run` keep. -/
structure RetryBudget (S : SchedulerSetup) (resumed : List CommittedResult) : Prop where
  kept : ∀ s, (sparingSystem S resumed).Reachable s → s.run.failed = false → s.run.BudgetKept
  /-- No lease is granted for a spent task. -/
  granted : ∀ s t, (sparingSystem S resumed).Reachable s → (sparingSystem S resumed).step s t →
    s.run.GrantsWithin t.run
  /-- A task that is left spent and without an attempt fails the build. -/
  exhausted : ∀ s t, (sparingSystem S resumed).Reachable s → (sparingSystem S resumed).step s t →
    ∀ x, t.run.Spent x → (t.run.tasks x).activeLeases = ∅ → t.run.failed = true

/-- Both halves of `BudgetKept` go from state to state: the attempts of spent
tasks by what every step keeps, the queue by the structural invariant. -/
theorem reachable_budgetKept {s : RunState S} (reach : (sparingSystem S resumed).Reachable s) :
    s.run.Budgeted ∅ ∧ (s.run.failed = false → s.run.BudgetKept) := by
  have ofGood : ∀ {r : SchedulerRun S}, r.ledger.Good ∅ → r.Budgeted ∅ →
      r.Budgeted ∅ ∧ (r.failed = false → r.BudgetKept) := fun good h =>
    ⟨h, fun running => ⟨fun t mem => (h.queued good running mem).2, fun t spent =>
      h running t (Set.notMem_empty t) spent⟩⟩
  refine reach.invariant
    (P := fun s => s.run.Budgeted ∅ ∧ (s.run.failed = false → s.run.BudgetKept)) ?_ ?_
  · rintro s ⟨r, applied, rfl⟩
    have start : (schedulerSystem S resumed).Reachable ⟨r.prepare, .head⟩ :=
      .start ⟨r, applied, rfl⟩
    exact ofGood (reachable_good start (by simp)) (budgeted_prepare applied)
  · rintro s t reach ⟨budgeted, kept⟩ ⟨⟨input, advanced⟩, spares⟩
    have reach := Lib.System.guarded_reachable reach
    by_cases finished : t.stage = .finished
    · rcases advance_finished advanced finished with failed | ⟨tasks, queue, failed⟩
      · exact ⟨Budgeted.of_failed failed _, fun running => by rw [failed] at running; cases running⟩
      · refine ⟨fun running x _ spent => ?_, fun running => ⟨fun x mem => ?_, fun x spent => ?_⟩⟩
        · rw [Spent, failures, tasks] at spent
          rw [tasks]
          exact budgeted (failed ▸ running) x (Set.notMem_empty x) spent
        · rw [queue] at mem
          rw [failures, tasks]
          exact (kept (failed ▸ running)).queued x mem
        · rw [Spent, failures, tasks] at spent
          rw [tasks]
          exact (kept (failed ▸ running)).running x spent
    · have unfinished : s.stage ≠ .finished := by
        intro ended
        rw [RunState.advance, ended] at advanced
        cases advanced
      exact ofGood (reachable_good (reach.next ⟨input, advanced⟩) finished)
        (budgeted_advance (reachable_good reach unfinished) budgeted advanced finished
          (spares finished))

theorem retry_budget (S : SchedulerSetup) (resumed : List CommittedResult) :
    RetryBudget S resumed where
  kept s reach := (reachable_budgetKept reach).2
  granted := by
    rintro s t reach ⟨⟨input, advanced⟩, spares⟩
    have budgeted := (reachable_budgetKept reach).1
    have reach := Lib.System.guarded_reachable reach
    have none : grantCalls t.run.log = grantCalls s.run.log → s.run.GrantsWithin t.run := fun same =>
      ⟨[], by rw [same, List.append_nil], List.forall_mem_nil _⟩
    rcases advance_drops advanced with drops | ⟨head, running, rfl⟩ | ⟨id, -, -, same⟩
    · exact none drops.grants
    · have good := reachable_good reach (by rw [head]; simp)
      have spares := spares (by simp) running
      rw [head] at spares
      exact (granted_dispatch good budgeted running spares).toGrantsWithin
    · refine none ?_
      rw [same, onHeartbeat]
      split <;> rfl
  exhausted s t reach step x spent idle := by
    have after := (reachable_budgetKept (reach.next step)).2
    by_contra running
    exact (after (by simpa using running)).running x spent idle

/-! ## A rejected duplicate -/

/-- Two executors and a single attempt for the one task, which is duplicated. -/
def lastChanceSetup : SchedulerSetup where
  codec := sampleCodec
  policy :=
    { retry := { maxAttempts := 1, preferDifferentExecutor := false }, speculativeDuplicates := true }
  graph := soloGraph
  executorCount := 2
  executor := duelSetup.executor
  sinkError _ := none
  clock n := n
  policyValid := rfl
  executorsValid := duelSetup.executorsValid

/-- The first attempt fails while the duplicate runs, then the duplicate is
rejected. -/
def lastChanceRejected : SchedulerRun lastChanceSetup :=
  let dispatched := (SchedulerRun.start lastChanceSetup).prepare.dispatch
  let waited := dispatched.tick.perform (.waited dispatched.nextWait)
  let failed := waited.apply (.failed "lease_1" .executorLost "connection reset")
  (failed.apply (.rejected "lease_2" "queue_full" "try later")).expireLeases

theorem lastChance_reachable :
    (schedulerSystem lastChanceSetup []).Reachable ⟨lastChanceRejected, .head⟩ := by
  have head : (schedulerSystem lastChanceSetup []).Reachable
      ⟨(SchedulerRun.start lastChanceSetup).prepare, .head⟩ := .start ⟨_, rfl, rfl⟩
  have dispatched : (schedulerSystem lastChanceSetup []).Reachable
      ⟨(SchedulerRun.start lastChanceSetup).prepare.dispatch, .dispatched⟩ := head.next ⟨{}, rfl⟩
  have waited := dispatched.next
    ⟨{ events := [.failed "lease_1" .executorLost "connection reset",
        .rejected "lease_2" "queue_full" "try later"] }, rfl⟩
  exact ((waited.next ⟨{}, rfl⟩).next ⟨{}, rfl⟩).next ⟨{}, rfl⟩

def lastChanceTask : lastChanceSetup.Task := ⟨0, by decide⟩

/-- The run has not failed, but the task has used its one attempt, is queued and
is granted a third lease. -/
theorem lastChance_granted :
    (schedulerSystem lastChanceSetup []).Reachable ⟨lastChanceRejected, .head⟩ ∧
      (schedulerSystem lastChanceSetup []).step ⟨lastChanceRejected, .head⟩
        ⟨lastChanceRejected.dispatch, .dispatched⟩ ∧
      lastChanceRejected.failed = false ∧ lastChanceRejected.Spent lastChanceTask ∧
      lastChanceTask ∈ lastChanceRejected.readyQueue.tasks ∧
      grantCalls lastChanceRejected.dispatch.log =
        grantCalls lastChanceRejected.log ++ [(lastChanceTask, 3)] := by
  have running : lastChanceRejected.failed = false ∧
      lastChanceRejected.readySet.allComplete = false := by
    decide
  have step : (schedulerSystem lastChanceSetup []).step ⟨lastChanceRejected, .head⟩
      ⟨lastChanceRejected.dispatch, .dispatched⟩ :=
    ⟨{}, by simp [RunState.advance, running]⟩
  exact ⟨lastChance_reachable, step, running.1, by decide, by decide,
    by decide⟩

end Svp.Exec

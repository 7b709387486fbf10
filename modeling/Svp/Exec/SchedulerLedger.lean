import Svp.Exec.Scheduler

/-!
# The lease ledger of a run

`SchedulerRun.ledger` keeps of a run what its structural invariants speak about:
phases, leases, the counters kept beside them, the ready set and queue, and
which attempts were granted and committed. Everything else a handler writes
(statistics, loss counts, backoffs, reasons, events) leaves the ledger as it is.

`Ledger.Consistent` is the part of the invariant that holds between any two
primitive moves; `Settled` (a leased task has a lease) and `Idle` (a quarantined
executor has none) are suspended, inside a handler, for the tasks and executors
it is working on. The lemmas say what each move keeps.
-/

namespace Svp.Exec

variable {S : SchedulerSetup}

/-- The attempts granted in a log, in order. -/
def grantCalls (log : List (Effect S)) : List (S.Task × Nat) :=
  log.filterMap fun
    | .assign _ task lease => some (task, lease.attempt)
    | _ => none

structure Ledger (S : SchedulerSetup) where
  phase : S.Task → TaskPhase
  activeLeases : S.Task → Finset String
  attemptsStarted : S.Task → Nat
  digest : S.Task → Blake3Digest
  active : S.ExecutorIndex → Nat
  quarantined : S.ExecutorIndex → Bool
  leases : Lib.OrderedMap String (LeaseRecord S)
  readySet : ReadySet S.graph
  readyQueue : ReadyQueue S.graph
  nextLeaseNumber : Nat
  grants : List (S.Task × Nat)
  commits : List (S.Task × CommittedResult)
  failure : Option BuildFailure
  status : BuildStatus

namespace Ledger

def release (l : Ledger S) (leaseId : String) (lease : LeaseRecord S) : Ledger S :=
  { l with
    leases := l.leases.erase leaseId
    active := Function.update l.active lease.executor (l.active lease.executor - 1)
    activeLeases := Function.update l.activeLeases lease.task
      ((l.activeLeases lease.task).erase lease.lease.leaseId) }

def requeue (l : Ledger S) (t : S.Task) : Ledger S :=
  { l with
    phase := Function.update l.phase t .ready
    readyQueue := l.readyQueue.insert t }

def markReady (l : Ledger S) (t : S.Task) : Ledger S :=
  if l.phase t = .waiting then l.requeue t else l

/-- The task is marked committed and complete; its dependents are not looked at
yet. -/
def markCommitted (l : Ledger S) (t : S.Task) (digest : Blake3Digest) : Ledger S :=
  { l with
    phase := Function.update l.phase t .committed
    digest := Function.update l.digest t digest
    readyQueue := l.readyQueue.erase t
    readySet := (l.readySet.markComplete t).2 }

def commit (l : Ledger S) (t : S.Task) (digest : Blake3Digest) : Ledger S :=
  (l.readySet.markComplete t).1.foldl markReady (l.markCommitted t digest)

def grant (l : Ledger S) (record : LeaseRecord S) : Ledger S :=
  { l with
    nextLeaseNumber := l.nextLeaseNumber + 1
    attemptsStarted := Function.update l.attemptsStarted record.task record.lease.attempt
    phase := Function.update l.phase record.task .leased
    activeLeases := Function.update l.activeLeases record.task
      (insert record.lease.leaseId (l.activeLeases record.task))
    readyQueue := l.readyQueue.erase record.task
    active := Function.update l.active record.executor (l.active record.executor + 1)
    leases := l.leases.insert record.lease.leaseId record
    grants := l.grants ++ [(record.task, record.lease.attempt)] }

def setQuarantined (l : Ledger S) (e : S.ExecutorIndex) : Ledger S :=
  { l with quarantined := Function.update l.quarantined e true }

/-- The lease id of the `k`-th grant. -/
def leaseName (k : Nat) : String := "lease_" ++ toString k

theorem leaseName_injective : Function.Injective leaseName := by
  intro a b same
  have tail : toString a = toString b := (String.append_right_inj "lease_").mp same
  exact Nat.repr_inj.mp tail

/-- Most leases one task may have at a time. -/
def leaseLimit (S : SchedulerSetup) : Nat := if S.policy.speculativeDuplicates then 2 else 1

/-- Holds between any two moves. `due` are the waiting tasks that may have every
dependency complete because their turn to become ready is still to come. -/
structure Consistent (l : Ledger S) (due : Set S.Task) : Prop where
  named : ∀ p ∈ l.leases.entries, p.2.lease.leaseId = p.1 ∧
    ∃ k < l.nextLeaseNumber, p.1 = leaseName k
  held : ∀ t id, id ∈ l.activeLeases t ↔ ∃ p ∈ l.leases.entries, p.1 = id ∧ p.2.task = t
  active : ∀ e, l.active e = l.leases.entries.countP fun p => decide (p.2.executor = e)
  slots : ∀ e, l.active e ≤ (S.executor e).slots
  limit : ∀ t, (l.activeLeases t).card ≤ leaseLimit S
  distinct : ∀ p ∈ l.leases.entries, ∀ q ∈ l.leases.entries, p.1 ≠ q.1 →
    p.2.task = q.2.task → p.2.executor ≠ q.2.executor
  readySet : l.readySet.Sound
  complete : ∀ t, l.readySet.complete t = true ↔ l.phase t = .committed
  queued : ∀ t, t ∈ l.readyQueue.tasks ↔ l.phase t = .ready
  waiting : ∀ t, l.phase t = .waiting →
    l.activeLeases t = ∅ ∧ (l.readySet.DepsComplete t → t ∈ due)
  ready : ∀ t, l.phase t = .ready → l.activeLeases t = ∅
  runnable : ∀ t, l.phase t = .ready ∨ l.phase t = .leased → l.readySet.DepsComplete t
  granted : ∀ g ∈ l.grants, g.2 ≤ l.attemptsStarted g.1
  increasing : l.grants.Pairwise fun g g' => g.1 = g'.1 → g.2 < g'.2

/-- A leased task outside `exempt` has a lease, unless the run has failed. -/
def Settled (l : Ledger S) (exempt : Set S.Task) : Prop :=
  l.failure = none → ∀ t ∉ exempt, l.phase t = .leased → l.activeLeases t ≠ ∅

/-- A quarantined executor outside `exempt` holds no lease. -/
def Idle (l : Ledger S) (exempt : Set S.ExecutorIndex) : Prop :=
  ∀ e ∉ exempt, l.quarantined e = true → ∀ p ∈ l.leases.entries, p.2.executor ≠ e

/-! ## Consequences -/

theorem Consistent.leased {l : Ledger S} {due : Set S.Task} (h : l.Consistent due)
    {p : String × LeaseRecord S} (mem : p ∈ l.leases.entries) :
    l.phase p.2.task = .leased ∨ l.phase p.2.task = .committed := by
  have held : p.1 ∈ l.activeLeases p.2.task := (h.held _ _).mpr ⟨p, mem, rfl, rfl⟩
  cases phase : l.phase p.2.task with
  | waiting => rw [(h.waiting _ phase).1] at held; simp at held
  | ready => rw [h.ready _ phase] at held; simp at held
  | leased => exact .inl rfl
  | committed => exact .inr rfl

/-- The number of a task's active leases is the number of its leases in the
table. -/
theorem Consistent.card_activeLeases {l : Ledger S} {due : Set S.Task} (h : l.Consistent due)
    (t : S.Task) :
    (l.activeLeases t).card = l.leases.entries.countP fun p => decide (p.2.task = t) := by
  have ids : l.activeLeases t =
      ((l.leases.entries.filter fun p => decide (p.2.task = t)).map Prod.fst).toFinset := by
    ext id
    rw [h.held, List.mem_toFinset, List.mem_map]
    constructor
    · rintro ⟨p, mem, rfl, task⟩
      exact ⟨p, List.mem_filter.mpr ⟨mem, by simpa using task⟩, rfl⟩
    · rintro ⟨p, mem, rfl⟩
      obtain ⟨inTable, task⟩ := List.mem_filter.mp mem
      exact ⟨p, inTable, rfl, by simpa using task⟩
  have nodup : ((l.leases.entries.filter fun p => decide (p.2.task = t)).map Prod.fst).Nodup :=
    l.leases.keys_nodup.sublist (List.filter_sublist.map Prod.fst)
  rw [ids, List.toFinset_card_of_nodup nodup, List.length_map, List.countP_eq_length_filter]

theorem Consistent.ready_iff {l : Ledger S} (h : l.Consistent ∅) (settled : l.Settled ∅)
    (running : l.failure = none) (t : S.Task) :
    l.phase t = .ready ↔
      l.phase t ≠ .committed ∧ l.activeLeases t = ∅ ∧ l.readySet.DepsComplete t := by
  constructor
  · intro ready
    exact ⟨by rw [ready]; decide, h.ready t ready, h.runnable t (.inl ready)⟩
  · rintro ⟨notCommitted, noLease, deps⟩
    cases phase : l.phase t with
    | waiting => exact absurd ((h.waiting t phase).2 deps) (Set.notMem_empty t)
    | ready => rfl
    | leased => exact absurd noLease (settled running t (Set.notMem_empty t) phase)
    | committed => exact absurd phase notCommitted

theorem Consistent.leased_iff {l : Ledger S} (h : l.Consistent ∅) (settled : l.Settled ∅)
    (running : l.failure = none) (t : S.Task) :
    l.phase t = .leased ↔ l.phase t ≠ .committed ∧ l.activeLeases t ≠ ∅ := by
  constructor
  · intro leased
    exact ⟨by rw [leased]; decide, settled running t (Set.notMem_empty t) leased⟩
  · rintro ⟨notCommitted, hasLease⟩
    cases phase : l.phase t with
    | waiting => exact absurd (h.waiting t phase).1 hasLease
    | ready => exact absurd (h.ready t phase) hasLease
    | leased => rfl
    | committed => exact absurd phase notCommitted

/-- The next lease id is not in the table. -/
theorem Consistent.fresh {l : Ledger S} {due : Set S.Task} (h : l.Consistent due)
    (record : LeaseRecord S) : (leaseName l.nextLeaseNumber, record) ∉ l.leases.entries := by
  intro mem
  obtain ⟨-, k, less, same⟩ := h.named _ mem
  exact absurd (leaseName_injective same) (by omega)

/-! ## Moves -/

theorem Consistent.release {l : Ledger S} {due : Set S.Task} (h : l.Consistent due) {id : String}
    {lease : LeaseRecord S} (mem : (id, lease) ∈ l.leases.entries) :
    (l.release id lease).Consistent due := by
  have leaseId : lease.lease.leaseId = id := (h.named _ mem).1
  have sub : ∀ t, (l.release id lease).activeLeases t ⊆ l.activeLeases t := by
    intro t
    simp only [Ledger.release, Function.update_apply]
    split
    · next same => rw [same]; exact Finset.erase_subset _ _
    · exact Finset.Subset.refl _
  have empty : ∀ t, l.activeLeases t = ∅ → (l.release id lease).activeLeases t = ∅ :=
    fun t none => Finset.subset_empty.mp (none ▸ sub t)
  constructor
  case named => exact fun p inTable => h.named p (Lib.OrderedMap.mem_erase.mp inTable).2
  case held =>
    intro t id'
    simp only [Ledger.release, Function.update_apply, leaseId]
    split
    · next same =>
      rw [Finset.mem_erase, ← same, h.held]
      constructor
      · rintro ⟨ne, p, inTable, rfl, task⟩
        exact ⟨p, Lib.OrderedMap.mem_erase.mpr ⟨ne, inTable⟩, rfl, task⟩
      · rintro ⟨p, inTable, rfl, task⟩
        obtain ⟨ne, inTable⟩ := Lib.OrderedMap.mem_erase.mp inTable
        exact ⟨ne, p, inTable, rfl, task⟩
    · next other =>
      rw [h.held]
      constructor
      · rintro ⟨p, inTable, rfl, rfl⟩
        refine ⟨p, Lib.OrderedMap.mem_erase.mpr ⟨fun same => other ?_, inTable⟩, rfl, rfl⟩
        have : p.2 = lease := l.leases.value_unique (k := id) (by rw [← same]; exact inTable) mem
        rw [this]
      · rintro ⟨p, inTable, rfl, rfl⟩
        exact ⟨p, (Lib.OrderedMap.mem_erase.mp inTable).2, rfl, rfl⟩
  case active =>
    intro e
    have count := Lib.OrderedMap.countP_erase mem fun p => decide (p.2.executor = e)
    rw [← h.active e] at count
    simp only [Ledger.release, Function.update_apply]
    split
    · next same =>
      subst same
      simp only [decide_true, if_true] at count
      omega
    · next other =>
      simp only [Ne.symm other, decide_false, Bool.false_eq_true, if_false, add_zero] at count
      exact count
  case slots =>
    intro e
    have bound := h.slots e
    simp only [Ledger.release, Function.update_apply]
    split
    · next same => subst same; omega
    · exact bound
  case limit => exact fun t => (Finset.card_le_card (sub t)).trans (h.limit t)
  case distinct =>
    intro p inP q inQ
    exact h.distinct p (Lib.OrderedMap.mem_erase.mp inP).2 q (Lib.OrderedMap.mem_erase.mp inQ).2
  case readySet => exact h.readySet
  case complete => exact h.complete
  case queued => exact h.queued
  case waiting => exact fun t phase => ⟨empty t (h.waiting t phase).1, (h.waiting t phase).2⟩
  case ready => exact fun t phase => empty t (h.ready t phase)
  case runnable => exact h.runnable
  case granted => exact h.granted
  case increasing => exact h.increasing

theorem Settled.release {l : Ledger S} {exempt : Set S.Task} (h : l.Settled exempt) {id : String}
    {lease : LeaseRecord S} : (l.release id lease).Settled (insert lease.task exempt) := by
  intro running t notExempt leased
  obtain ⟨other, notExempt⟩ : t ≠ lease.task ∧ t ∉ exempt := by simpa using notExempt
  have same : (l.release id lease).activeLeases t = l.activeLeases t := by
    simp [Ledger.release, other]
  rw [same]
  exact h running t notExempt leased

theorem Idle.release {l : Ledger S} {exempt : Set S.ExecutorIndex} (h : l.Idle exempt) {id : String}
    {lease : LeaseRecord S} : (l.release id lease).Idle exempt :=
  fun e notExempt quarantined p mem =>
    h e notExempt quarantined p (Lib.OrderedMap.mem_erase.mp mem).2

theorem Consistent.requeue {l : Ledger S} {due : Set S.Task} (h : l.Consistent due) {t : S.Task}
    (notCommitted : l.phase t ≠ .committed) (noLease : l.activeLeases t = ∅)
    (deps : l.readySet.DepsComplete t) : (l.requeue t).Consistent (due \ {t}) := by
  have phase : ∀ x, (l.requeue t).phase x = if x = t then .ready else l.phase x :=
    fun x => Function.update_apply l.phase t .ready x
  constructor
  case complete =>
    intro x
    rw [phase]
    split
    · next same => simpa [Ledger.requeue, same] using (h.complete t).not.mpr notCommitted
    · exact h.complete x
  case queued =>
    intro x
    rw [phase, Ledger.requeue, ReadyQueue.mem_insert, h.queued]
    split
    · next same => simp [same]
    · next other => simp [other]
  case waiting =>
    intro x
    rw [phase]
    split
    · intro impossible; cases impossible
    · next other =>
      intro waiting
      exact ⟨(h.waiting x waiting).1, fun complete => ⟨(h.waiting x waiting).2 complete, other⟩⟩
  case ready =>
    intro x
    rw [phase]
    split
    · next same => exact fun _ => same ▸ noLease
    · exact h.ready x
  case runnable =>
    intro x
    rw [phase]
    split
    · next same => exact fun _ => same ▸ deps
    · exact h.runnable x
  case named => exact h.named
  case held => exact h.held
  case active => exact h.active
  case slots => exact h.slots
  case limit => exact h.limit
  case distinct => exact h.distinct
  case readySet => exact h.readySet
  case granted => exact h.granted
  case increasing => exact h.increasing

theorem Settled.requeue {l : Ledger S} {exempt : Set S.Task} {t : S.Task}
    (h : l.Settled (insert t exempt)) : (l.requeue t).Settled exempt := by
  intro running x notExempt leased
  by_cases same : x = t
  · simp [Ledger.requeue, same] at leased
  · have leased : l.phase x = .leased := by
      simpa [Ledger.requeue, Function.update_apply, same] using leased
    exact h running x (by simp [same, notExempt]) leased

theorem Consistent.mono {l : Ledger S} {due due' : Set S.Task} (h : l.Consistent due)
    (sub : ∀ t ∈ due, l.phase t = .waiting → l.readySet.DepsComplete t → t ∈ due') :
    l.Consistent due' :=
  { h with
    waiting := fun t phase =>
      ⟨(h.waiting t phase).1, fun deps => sub t ((h.waiting t phase).2 deps) phase deps⟩ }

/-- Marking the tasks of a list ready takes them off the due ones. -/
theorem Consistent.markReady_foldl {ready : List S.Task} {l : Ledger S} {due : Set S.Task}
    (h : l.Consistent (due ∪ {t | t ∈ ready}))
    (deps : ∀ t ∈ ready, l.readySet.DepsComplete t) : (ready.foldl markReady l).Consistent due := by
  induction ready generalizing l with
  | nil => exact h.mono fun t mem _ _ => by simpa using mem
  | cons t rest ih =>
    have depsRest : ∀ x ∈ rest, l.readySet.DepsComplete x :=
      fun x mem => deps x (List.mem_cons_of_mem t mem)
    rw [List.foldl_cons, markReady]
    split
    · next waiting =>
      have notCommitted : l.phase t ≠ .committed := by rw [waiting]; decide
      refine ih ?_ depsRest
      refine (h.requeue notCommitted (h.waiting t waiting).1 (deps t (by simp))).mono ?_
      rintro x ⟨inDue | inList, other⟩ - -
      · exact .inl inDue
      · rcases List.mem_cons.mp inList with same | inRest
        · exact absurd same other
        · exact .inr inRest
    · next notWaiting =>
      refine ih (h.mono ?_) depsRest
      rintro x (inDue | inList) waiting -
      · exact .inl inDue
      · rcases List.mem_cons.mp inList with rfl | inRest
        · exact absurd waiting notWaiting
        · exact .inr inRest

/-- Marking a task committed makes exactly the dependents the ready set returns
due. -/
theorem Consistent.markCommitted {l : Ledger S} {due : Set S.Task} (h : l.Consistent due)
    {t : S.Task} (fresh : l.phase t ≠ .committed) (digest : Blake3Digest) :
    (l.markCommitted t digest).Consistent (due ∪ {x | x ∈ (l.readySet.markComplete t).1}) := by
  have notComplete : l.readySet.complete t = false := by
    simpa using (h.complete t).not.mpr fresh
  have phase : ∀ x, (l.markCommitted t digest).phase x = if x = t then .committed else l.phase x :=
    fun x => Function.update_apply l.phase t .committed x
  have complete : ∀ x, (l.markCommitted t digest).readySet.complete x =
      if x = t then true else l.readySet.complete x :=
    ReadySet.markComplete_complete l.readySet t
  constructor
  case complete =>
    intro x
    rw [phase, complete]
    split
    · simp
    · exact h.complete x
  case readySet => exact h.readySet.markComplete notComplete
  case queued =>
    intro x
    rw [phase, Ledger.markCommitted, ReadyQueue.mem_erase, h.queued]
    split
    · next same => simp [same]
    · next other => simp [other]
  case waiting =>
    intro x
    rw [phase]
    split
    · intro impossible; cases impossible
    · intro waiting
      refine ⟨(h.waiting x waiting).1, fun deps => ?_⟩
      by_cases before : l.readySet.DepsComplete x
      · exact .inl ((h.waiting x waiting).2 before)
      · -- the completion is what completed the dependencies of `x`
        refine .inr ((ReadySet.mem_markComplete h.readySet notComplete).mpr ⟨?_, deps⟩)
        by_contra notDependency
        refine before fun d mem => ?_
        have after := deps d mem
        rw [complete, if_neg fun same : d = t => notDependency (same ▸ mem)] at after
        exact after
  case ready =>
    intro x
    rw [phase]
    split
    · intro impossible; cases impossible
    · exact h.ready x
  case runnable =>
    intro x
    rw [phase]
    split
    · rintro (impossible | impossible) <;> cases impossible
    · exact fun runnable => (h.runnable x runnable).markComplete t
  case named => exact h.named
  case held => exact h.held
  case active => exact h.active
  case slots => exact h.slots
  case limit => exact h.limit
  case distinct => exact h.distinct
  case granted => exact h.granted
  case increasing => exact h.increasing

theorem Consistent.commit {l : Ledger S} (h : l.Consistent ∅) {t : S.Task}
    (fresh : l.phase t ≠ .committed) (digest : Blake3Digest) :
    (l.commit t digest).Consistent ∅ := by
  have notComplete : l.readySet.complete t = false := by
    simpa using (h.complete t).not.mpr fresh
  refine Consistent.markReady_foldl (h.markCommitted fresh digest) fun x mem => ?_
  exact ((ReadySet.mem_markComplete h.readySet notComplete).mp mem).2

theorem Settled.markReady {l : Ledger S} {exempt : Set S.Task} (h : l.Settled exempt) (t : S.Task) :
    (l.markReady t).Settled exempt := by
  unfold Ledger.markReady
  split
  · exact Settled.requeue fun running x notExempt => h running x fun mem => notExempt (.inr mem)
  · exact h

theorem Settled.commit {l : Ledger S} {exempt : Set S.Task} {t : S.Task}
    (h : l.Settled (insert t exempt)) (digest : Blake3Digest) :
    (l.commit t digest).Settled exempt := by
  have marked : (l.markCommitted t digest).Settled exempt := by
    intro running x notExempt leased
    by_cases same : x = t
    · simp [Ledger.markCommitted, same] at leased
    · have leased : l.phase x = .leased := by
        simpa [Ledger.markCommitted, Function.update_apply, same] using leased
      exact h running x (by simp [same, notExempt]) leased
  have fold : ∀ (ready : List S.Task) (l : Ledger S), l.Settled exempt →
      (ready.foldl Ledger.markReady l).Settled exempt := by
    intro ready
    induction ready with
    | nil => exact fun _ h => h
    | cons x rest ih => exact fun l h => ih _ (h.markReady x)
  exact fold _ _ marked

theorem Consistent.grant {l : Ledger S} {due : Set S.Task} (h : l.Consistent due)
    {record : LeaseRecord S} (name : record.lease.leaseId = leaseName l.nextLeaseNumber)
    (attempt : record.lease.attempt = l.attemptsStarted record.task + 1)
    (notCommitted : l.phase record.task ≠ .committed)
    (deps : l.readySet.DepsComplete record.task)
    (room : l.active record.executor < (S.executor record.executor).slots)
    (below : (l.activeLeases record.task).card < leaseLimit S)
    (elsewhere : ∀ p ∈ l.leases.entries, p.2.task = record.task → p.2.executor ≠ record.executor) :
    (l.grant record).Consistent due := by
  have absent : ∀ w, (record.lease.leaseId, w) ∉ l.leases.entries := by
    rw [name]; exact h.fresh
  have phase : ∀ x, (l.grant record).phase x = if x = record.task then .leased else l.phase x :=
    fun x => Function.update_apply l.phase record.task .leased x
  have leases : ∀ x, (l.grant record).activeLeases x =
      if x = record.task then insert record.lease.leaseId (l.activeLeases record.task)
      else l.activeLeases x :=
    fun x => Function.update_apply l.activeLeases record.task _ x
  have mem : ∀ p, p ∈ (l.grant record).leases.entries ↔
      p = (record.lease.leaseId, record) ∨ p.1 ≠ record.lease.leaseId ∧ p ∈ l.leases.entries :=
    fun p => Lib.OrderedMap.mem_insert
  constructor
  case named =>
    intro p inTable
    rcases (mem p).mp inTable with rfl | ⟨-, old⟩
    · exact ⟨rfl, l.nextLeaseNumber, Nat.lt_succ_self _, name⟩
    · obtain ⟨same, k, less, named⟩ := h.named p old
      exact ⟨same, k, Nat.lt_succ_of_lt less, named⟩
  case held =>
    intro t id
    rw [leases]
    constructor
    · intro inSet
      split at inSet
      · next same =>
        rcases Finset.mem_insert.mp inSet with rfl | old
        · exact ⟨_, (mem _).mpr (.inl rfl), rfl, same.symm⟩
        · obtain ⟨p, inTable, rfl, task⟩ := (h.held _ _).mp old
          refine ⟨p, (mem p).mpr (.inr ⟨fun clash => absent p.2 ?_, inTable⟩), rfl, task.trans same.symm⟩
          rw [← clash]; exact inTable
      · obtain ⟨p, inTable, rfl, task⟩ := (h.held _ _).mp inSet
        refine ⟨p, (mem p).mpr (.inr ⟨fun clash => absent p.2 ?_, inTable⟩), rfl, task⟩
        rw [← clash]; exact inTable
    · rintro ⟨p, inTable, rfl, rfl⟩
      rcases (mem p).mp inTable with rfl | ⟨-, old⟩
      · simp
      · have inSet : p.1 ∈ l.activeLeases p.2.task := (h.held _ _).mpr ⟨p, old, rfl, rfl⟩
        split
        · next same => rw [← same]; exact Finset.mem_insert_of_mem inSet
        · exact inSet
  case active =>
    intro e
    have count := Lib.OrderedMap.countP_insert_absent record absent fun p => decide (p.2.executor = e)
    rw [← h.active e] at count
    simp only [Ledger.grant, Function.update_apply]
    split
    · next same => subst same; simpa using count.symm
    · next other => simpa [Ne.symm other] using count.symm
  case slots =>
    intro e
    simp only [Ledger.grant, Function.update_apply]
    split
    · next same => subst same; exact room
    · exact h.slots e
  case limit =>
    intro t
    rw [leases]
    split
    · exact (Finset.card_insert_le _ _).trans below
    · exact h.limit t
  case distinct =>
    intro p inP q inQ ne task
    rcases (mem p).mp inP with rfl | ⟨-, oldP⟩ <;> rcases (mem q).mp inQ with rfl | ⟨-, oldQ⟩
    · exact absurd rfl ne
    · exact (elsewhere q oldQ task.symm).symm
    · exact elsewhere p oldP task
    · exact h.distinct p oldP q oldQ ne task
  case readySet => exact h.readySet
  case complete =>
    intro t
    rw [phase]
    split
    · next same => simpa [Ledger.grant, same] using (h.complete record.task).not.mpr notCommitted
    · exact h.complete t
  case queued =>
    intro t
    rw [phase, Ledger.grant, ReadyQueue.mem_erase, h.queued]
    split
    · next same => simp [same]
    · next other => simp [other]
  case waiting =>
    intro t
    rw [phase, leases]
    split
    · intro impossible; cases impossible
    · exact h.waiting t
  case ready =>
    intro t
    rw [phase, leases]
    split
    · intro impossible; cases impossible
    · exact h.ready t
  case runnable =>
    intro t
    rw [phase]
    split
    · next same => exact fun _ => same ▸ deps
    · exact h.runnable t
  case granted =>
    intro g inGrants
    simp only [Ledger.grant, Function.update_apply]
    rcases List.mem_append.mp inGrants with old | new
    · have bound := h.granted g old
      split
      · next same => rw [same] at bound; omega
      · exact bound
    · rw [List.mem_singleton.mp new]
      simp
  case increasing =>
    refine List.pairwise_append.mpr ⟨h.increasing, List.pairwise_singleton _ _, ?_⟩
    intro g old g' new same
    rw [List.mem_singleton.mp new] at same ⊢
    have task : g.1 = record.task := same
    have bound : g.2 ≤ l.attemptsStarted record.task := task ▸ h.granted g old
    change g.2 < record.lease.attempt
    omega

theorem Settled.grant {l : Ledger S} {exempt : Set S.Task} (h : l.Settled exempt)
    (record : LeaseRecord S) : (l.grant record).Settled exempt := by
  intro running t notExempt leased
  simp only [Ledger.grant, Function.update_apply] at leased ⊢
  split
  · exact Finset.insert_ne_empty _ _
  · next other =>
    rw [if_neg other] at leased
    exact h running t notExempt leased

theorem Idle.grant {l : Ledger S} {exempt : Set S.ExecutorIndex} (h : l.Idle exempt)
    {record : LeaseRecord S} (usable : l.quarantined record.executor = false) :
    (l.grant record).Idle exempt := by
  intro e notExempt quarantined p mem
  rcases Lib.OrderedMap.mem_insert.mp mem with rfl | ⟨-, old⟩
  · rintro rfl
    exact absurd quarantined (by simp [Ledger.grant, usable])
  · exact h e notExempt quarantined p old

end Ledger

end Svp.Exec

import Svp.Exec.SchedulerLeases
import Svp.Exec.SchedulerProgress
import Svp.Lib.LossHistory

/-!
# Quarantine for losses

The scheduler keeps two numbers of an executor's losses: how many it counted
since the executor last recovered, and the number of the next lease when it
counted the last one. `historySystem` runs the scheduler and writes down what
happened to every attempt. An executor is quarantined for losses exactly when
that history has a chain of counted losses as long as the policy allows
(`loss_quarantine_iff`): the two numbers are a summary of it (`Tracks`).
-/

namespace Svp.Exec

open Ledger
open Lib (Occurrence)
open Lib.LossHistory

variable {S : SchedulerSetup}

/-! ## Histories of runs -/

/-- What happened to the attempts of a run, by executor. -/
abbrev History (S : SchedulerSetup) : Type := List (S.ExecutorIndex × Occurrence String)

/-- What happened on one executor. -/
def History.of (h : History S) (e : S.ExecutorIndex) : List (Occurrence String) :=
  h.filterMap fun p => if p.1 = e then some p.2 else none

/-- The grants of a log. -/
def grantOccurrences (log : List (Effect S)) : History S :=
  log.filterMap fun
    | .assign e _ lease => some (e, .granted lease.leaseId)
    | _ => none

namespace SchedulerRun

/-- What the next event says of an attempt: it was lost with its executor, or
its result is a verified success. -/
def eventOccurrences (r : SchedulerRun S) (event : InboxEvent) : History S :=
  if r.failed then []
  else
    match event with
    | .failed id .executorLost _ =>
      match r.leases.find? id with
      | none => []
      | some lease => [(lease.executor, .lost id)]
    | .finished id output =>
      match r.leases.find? id with
      | none => []
      | some lease =>
        if findResultDefect S.codec (S.graph.spec lease.task) lease.lease.attempt output.result
            output.payloads = none ∧ output.result.status = .succeeded then
          [(lease.executor, .verified id)]
        else []
    | _ => []

/-- The attempts lost when these leases end. -/
def expiryOccurrences (now : Millis) : List String → SchedulerRun S → History S
  | [], _ => []
  | id :: rest, r =>
    (match r.leases.find? id with
      | none => []
      | some lease => if r.failed then [] else [(lease.executor, .lost id)]) ++
      expiryOccurrences now rest (endLease now r id)

/-- The reason of a quarantine after so many counted losses. -/
def lossReason (events : Nat) : String :=
  toString events ++ " consecutive loss events (lost, expired, or " ++
    "deadline-exceeded attempts) with no verified result in between"

/-- The observer was told that the executor is quarantined for its losses. -/
def LossNoted (r : SchedulerRun S) (e : S.ExecutorIndex) : Prop :=
  ∃ events, Effect.observed
    { kind := .executorQuarantined, executorId := (S.executor e).id, detail := lossReason events } ∈
      r.log

end SchedulerRun

/-- What the step from `s` to `t` does to attempts. -/
def RunState.occurrences (s t : RunState S) : History S :=
  match s.stage with
  | .head => (grantOccurrences t.run.log).drop (grantOccurrences s.run.log).length
  | .applying (event :: _) => s.run.eventOccurrences event
  | .applying [] =>
    SchedulerRun.expiryOccurrences s.run.now (s.run.endedLeases s.run.now) s.run.tick
  | .dispatched | .finished => []

structure HistoryState (S : SchedulerSetup) where
  state : RunState S
  history : History S

/-- The runs of `Scheduler::run`, with their histories. -/
def historySystem (S : SchedulerSetup) (resumed : List CommittedResult) :
    Lib.System (HistoryState S) where
  init h := (schedulerSystem S resumed).init h.state ∧ h.history = []
  step h h' := (schedulerSystem S resumed).step h.state h'.state ∧
    h'.history = h.history ++ h.state.occurrences h'.state

/-- Writing the history down changes no run. -/
theorem history_reachable_iff {resumed : List CommittedResult} {s : RunState S} :
    (schedulerSystem S resumed).Reachable s ↔
      ∃ history, (historySystem S resumed).Reachable ⟨s, history⟩ := by
  constructor
  · intro reach
    refine reach.invariant
      (P := fun s => ∃ history, (historySystem S resumed).Reachable ⟨s, history⟩) ?_ ?_
    · exact fun s init => ⟨[], .start ⟨init, rfl⟩⟩
    · rintro s t - ⟨history, reach⟩ step
      exact ⟨history ++ s.occurrences t, reach.next ⟨step, rfl⟩⟩
  · rintro ⟨history, reach⟩
    refine reach.invariant (S := historySystem S resumed)
      (P := fun h => (schedulerSystem S resumed).Reachable h.state) ?_ ?_
    · exact fun h init => .start init.1
    · exact fun h h' _ reach step => reach.next step.1

namespace History

theorem of_append (h h' : History S) (e : S.ExecutorIndex) : (h ++ h').of e = h.of e ++ h'.of e :=
  List.filterMap_append

theorem of_same (e : S.ExecutorIndex) (o : Occurrence String) : of [(e, o)] e = [o] := by
  simp [of]

theorem of_other {e e' : S.ExecutorIndex} (other : e' ≠ e) (o : Occurrence String) :
    of [(e', o)] e = [] := by
  simp [of, other]

end History

namespace SchedulerRun

/-! ## Reasons and names -/

theorem validateExecutorsFrom_ids {ids : List String} {executors : List Executor}
    (valid : validateExecutorsFrom ids executors = .ok ()) :
    (executors.map Executor.id).Nodup ∧ ∀ executor ∈ executors, executor.id ∉ ids := by
  induction executors generalizing ids with
  | nil => exact ⟨List.nodup_nil, List.forall_mem_nil _⟩
  | cons first rest ih =>
    obtain ⟨-, valid⟩ := check_bind_eq_ok.mp valid
    obtain ⟨unique, valid⟩ := check_bind_eq_ok.mp valid
    obtain ⟨nodup, fresh⟩ := ih valid
    refine ⟨List.nodup_cons.mpr ⟨fun mem => ?_, nodup⟩, fun executor mem => ?_⟩
    · obtain ⟨executor, inRest, same⟩ := List.mem_map.mp mem
      exact fresh executor inRest (same ▸ List.mem_cons_self)
    · rcases List.mem_cons.mp mem with rfl | inRest
      · exact of_decide_eq_true (require_eq_ok.mp unique)
      · exact fun inIds => fresh executor inRest (List.mem_cons_of_mem _ inIds)

/-- The executors of a run have different ids. -/
theorem executorId_inj {e e' : S.ExecutorIndex} :
    (S.executor e).id = (S.executor e').id ↔ e = e' := by
  obtain ⟨-, valid⟩ := check_bind_eq_ok.mp S.executorsValid
  have nodup := (validateExecutorsFrom_ids valid).1
  rw [List.map_ofFn, List.nodup_ofFn] at nodup
  exact nodup.eq_iff

/-- A reason for losses starts with a digit. -/
theorem lossReason_ne {c : Char} (notDigit : c.isDigit = false) (text : List Char) (events : Nat)
    {reason : String} (starts : reason.toList = c :: text) : reason ≠ lossReason events := by
  intro same
  have chars : (lossReason events).toList = Nat.toDigits 10 events ++
      (" consecutive loss events (lost, expired, or " ++
        "deadline-exceeded attempts) with no verified result in between").toList := by
    rw [lossReason, String.append_assoc, String.toList_append]
    exact congrArg (· ++ _) Nat.toList_repr
  rw [same, chars] at starts
  cases digits : Nat.toDigits 10 events with
  | nil => exact Nat.toDigits_ne_nil digits
  | cons d rest =>
    rw [digits, List.cons_append] at starts
    have isDigit : d.isDigit = true :=
      Nat.isDigit_of_mem_toDigits (b := 10) (n := events) (by decide) (by decide)
        (digits ▸ List.mem_cons_self)
    rw [(List.cons.inj starts).1, notDigit] at isDigit
    cases isDigit

/-! ## What leaves the accounts as they are -/

/-- The counts of losses stay, no executor leaves quarantine, and nothing is told
of losses. -/
structure AccountsKept (r r' : SchedulerRun S) : Prop where
  count : ∀ e, (r'.executors e).consecutiveLossEvents = (r.executors e).consecutiveLossEvents
  horizon : ∀ e, (r'.executors e).lossHorizon = (r.executors e).lossHorizon
  quarantined : ∀ e, (r.executors e).quarantined = true → (r'.executors e).quarantined = true
  noted : ∀ e, r'.LossNoted e ↔ r.LossNoted e

theorem AccountsKept.same {r r' : SchedulerRun S} (executors : r'.executors = r.executors)
    (log : r'.log = r.log) : AccountsKept r r' where
  count e := by rw [executors]
  horizon e := by rw [executors]
  quarantined e flagged := by
    rw [executors]
    exact flagged
  noted e := by rw [LossNoted, LossNoted, log]

theorem AccountsKept.refl (r : SchedulerRun S) : AccountsKept r r := .same rfl rfl

theorem AccountsKept.trans {r r' r'' : SchedulerRun S} (h : AccountsKept r r')
    (h' : AccountsKept r' r'') : AccountsKept r r'' where
  count e := (h'.count e).trans (h.count e)
  horizon e := (h'.horizon e).trans (h.horizon e)
  quarantined e flagged := h'.quarantined e (h.quarantined e flagged)
  noted e := (h'.noted e).trans (h.noted e)

theorem accountsKept_foldl {α : Type*} {f : SchedulerRun S → α → SchedulerRun S}
    (keeps : ∀ r a, AccountsKept r (f r a)) (items : List α) (r : SchedulerRun S) :
    AccountsKept r (items.foldl f r) := by
  induction items generalizing r with
  | nil => exact .refl r
  | cons a rest ih => exact (keeps r a).trans (ih (f r a))

/-- Another executor record with the same counts. -/
theorem accountsKept_modifyExecutor {r : SchedulerRun S} {e : S.ExecutorIndex}
    {f : ExecutorRecord → ExecutorRecord}
    (count : ∀ record, (f record).consecutiveLossEvents = record.consecutiveLossEvents)
    (horizon : ∀ record, (f record).lossHorizon = record.lossHorizon)
    (quarantined : ∀ record, record.quarantined = true → (f record).quarantined = true) :
    AccountsKept r (r.modifyExecutor e f) := by
  refine ⟨fun x => ?_, fun x => ?_, fun x flagged => ?_, fun x => Iff.rfl⟩
  · simp only [modifyExecutor, Function.update_apply]
    split
    · next same => rw [count, same]
    · rfl
  · simp only [modifyExecutor, Function.update_apply]
    split
    · next same => rw [horizon, same]
    · rfl
  · simp only [modifyExecutor, Function.update_apply]
    split
    · next same => exact quarantined _ (same ▸ flagged)
    · exact flagged

/-- Doing something else than telling of a quarantine. -/
theorem accountsKept_perform (r : SchedulerRun S) {effect : Effect S}
    (other : ∀ event, effect = .observed event → event.kind ≠ .executorQuarantined) :
    AccountsKept r (r.perform effect) := by
  refine ⟨fun _ => rfl, fun _ => rfl, fun _ flagged => flagged, fun e => ?_⟩
  refine exists_congr fun events => ?_
  rw [perform, List.mem_append, List.mem_singleton]
  exact or_iff_left fun same => other _ same.symm rfl

theorem accountsKept_emit (r : SchedulerRun S) (kind : AttemptEventKind)
    (other : kind ≠ .executorQuarantined) (lease : LeaseRecord S) (detail : String) :
    AccountsKept r (r.emit kind lease detail) :=
  accountsKept_perform r fun event same => by
    cases same
    exact other

theorem accountsKept_cancel (r : SchedulerRun S) (e : S.ExecutorIndex) (id : String) :
    AccountsKept r (r.perform (.cancel e id)) :=
  accountsKept_perform r fun _ impossible => by cases impossible

theorem accountsKept_release (r : SchedulerRun S) (id : String) (lease : LeaseRecord S) :
    AccountsKept r (r.release id lease) := by
  refine AccountsKept.trans ?_ (.same (r := r.modifyExecutor lease.executor fun record =>
    { record with active := record.active - 1 }) rfl rfl)
  exact accountsKept_modifyExecutor (fun _ => rfl) (fun _ => rfl) fun _ flagged => flagged

theorem accountsKept_requeueIdle (r : SchedulerRun S) (t : S.Task) :
    AccountsKept r (r.requeueIdle t) := by
  unfold SchedulerRun.requeueIdle
  split
  · exact .same rfl rfl
  · exact .refl r

theorem accountsKept_abandonLease (e : S.ExecutorIndex) (r : SchedulerRun S) (id : String) :
    AccountsKept r (abandonLease e r id) := by
  unfold abandonLease
  split
  · exact .refl r
  · next lease _ =>
    extract_lets cancelled avoiding
    have given : AccountsKept r cancelled :=
      (accountsKept_release r id lease).trans (accountsKept_cancel _ e id)
    have avoids : AccountsKept cancelled avoiding := .same rfl rfl
    exact (given.trans avoids).trans (accountsKept_requeueIdle avoiding _)

theorem accountsKept_failBuild (r : SchedulerRun S) (kind : BuildFailureKind)
    (taskId message : String) : AccountsKept r (r.failBuild kind taskId message) := by
  unfold failBuild
  split
  · exact .refl r
  · exact .same rfl rfl

theorem accountsKept_attemptFailed (r : SchedulerRun S) (t : S.Task) (e : S.ExecutorIndex)
    (reason : String) : AccountsKept r (r.attemptFailed t e reason) := by
  unfold attemptFailed
  extract_lets counted task maxAttempts
  have kept : AccountsKept r counted := .same rfl rfl
  split
  · exact kept
  · split
    · exact kept.trans (accountsKept_failBuild counted _ _ _)
    · exact kept.trans (.same rfl rfl)

/-- What a quarantine does to the accounts: the executor is in quarantine, and
the note of it is one of losses if the reason is. -/
theorem quarantine_accounts {r : SchedulerRun S} {e : S.ExecutorIndex}
    (usable : (r.executors e).quarantined = false) (reason : String) :
    (∀ x, ((r.quarantine e reason).executors x).consecutiveLossEvents =
        (r.executors x).consecutiveLossEvents ∧
      ((r.quarantine e reason).executors x).lossHorizon = (r.executors x).lossHorizon) ∧
    (∀ x, (r.executors x).quarantined = true ∨ x = e →
      ((r.quarantine e reason).executors x).quarantined = true) ∧
    ∀ x, (r.quarantine e reason).LossNoted x ↔
      r.LossNoted x ∨ x = e ∧ ∃ events, reason = lossReason events := by
  unfold quarantine
  rw [if_neg (by simp [usable])]
  extract_lets flagged counted told
  have abandoned : AccountsKept told ((told.leasesOf e).foldl (abandonLease e) told) :=
    accountsKept_foldl (accountsKept_abandonLease e) _ told
  have record : ∀ x, told.executors x =
      if x = e then { r.executors e with quarantined := true } else r.executors x := fun x =>
    Function.update_apply _ _ _ x
  refine ⟨fun x => ?_, fun x either => ?_, fun x => ?_⟩
  · rw [abandoned.count, abandoned.horizon, record]
    split
    · next same => rw [same]; exact ⟨rfl, rfl⟩
    · exact ⟨rfl, rfl⟩
  · refine abandoned.quarantined x ?_
    rw [record]
    split
    · rfl
    · next other => exact either.resolve_right other
  · rw [abandoned.noted]
    have log : told.log = r.log ++ [.observed
        { kind := .executorQuarantined, executorId := (S.executor e).id, detail := reason }] := rfl
    simp only [LossNoted, log, List.mem_append, List.mem_singleton, exists_or]
    refine or_congr_right ?_
    constructor
    · rintro ⟨events, same⟩
      cases reason
      have same := AttemptEvent.mk.inj (Effect.observed.inj same)
      exact ⟨executorId_inj.mp same.2.2.2.1, events, same.2.2.2.2.2.2.symm⟩
    · rintro ⟨rfl, events, rfl⟩
      exact ⟨events, rfl⟩

/-- A quarantine for another reason. -/
theorem accountsKept_quarantine (r : SchedulerRun S) (e : S.ExecutorIndex) {reason : String}
    (other : ∀ events, reason ≠ lossReason events) : AccountsKept r (r.quarantine e reason) := by
  cases quarantined : (r.executors e).quarantined with
  | true =>
    rw [quarantine, if_pos quarantined]
    exact .refl r
  | false =>
    obtain ⟨accounts, flagged, noted⟩ := quarantine_accounts quarantined reason
    refine ⟨fun x => (accounts x).1, fun x => (accounts x).2, fun x before => flagged x (.inl before),
      fun x => (noted x).trans (or_iff_left ?_)⟩
    rintro ⟨-, events, same⟩
    exact other events same

theorem accountsKept_markReady (r : SchedulerRun S) (t : S.Task) :
    AccountsKept r (r.markReady t) := by
  unfold SchedulerRun.markReady
  split
  · exact .same rfl rfl
  · exact .refl r

theorem accountsKept_commit (r : SchedulerRun S) (lease : LeaseRecord S) (output : AttemptOutput) :
    AccountsKept r (r.commit lease output) := by
  unfold SchedulerRun.commit
  extract_lets executorId called
  have kept : AccountsKept r called :=
    accountsKept_perform r fun _ impossible => by cases impossible
  split
  · exact kept.trans (accountsKept_failBuild called _ _ _)
  · have told := accountsKept_emit called .committed (by decide) lease ""
    unfold markReadyDependents
    refine ((kept.trans told).trans ?_).trans (accountsKept_foldl accountsKept_markReady _ _)
    exact .same rfl rfl

theorem accountsKept_onVerifiedFailure (r : SchedulerRun S) (lease : LeaseRecord S)
    (error : TaskError) : AccountsKept r (r.onVerifiedFailure lease error) := by
  unfold onVerifiedFailure
  extract_lets taskId reason told
  have kept : AccountsKept r told := accountsKept_emit r .failed (by decide) lease reason
  split
  · exact kept
  · split
    · exact kept.trans (accountsKept_failBuild told _ _ _)
    · exact kept.trans (accountsKept_attemptFailed told _ _ _)

theorem accountsKept_onInvalidResult (r : SchedulerRun S) (lease : LeaseRecord S)
    (defect : String) : AccountsKept r (r.onInvalidResult lease defect) := by
  unfold onInvalidResult
  extract_lets counted told quarantined
  have begun : AccountsKept r counted := .same rfl rfl
  have kept : AccountsKept r told :=
    begun.trans (accountsKept_emit counted .failed (by decide) lease _)
  refine (kept.trans (accountsKept_quarantine told _ fun events => ?_)).trans
    (accountsKept_attemptFailed quarantined _ _ _)
  rw [String.append_assoc, String.append_assoc]
  exact lossReason_ne (c := 'r') rfl _ events (String.toList_append ..)

/-- What the end of a verified success does besides noting the recovery. -/
theorem accountsKept_deliver (r : SchedulerRun S) (lease : LeaseRecord S) (output : AttemptOutput) :
    AccountsKept r
      (if (r.tasks lease.task).phase ≠ .committed then r.commit lease output
      else if output.result.outputDigest = (r.tasks lease.task).committedOutputDigest then
        r.discardDuplicate lease
      else r.reportIncident lease output) := by
  split
  · exact accountsKept_commit r lease output
  · split
    · exact (accountsKept_emit r .duplicateDiscarded (by decide) lease "").trans (.same rfl rfl)
    · unfold reportIncident
      extract_lets task taskId message told incident _ listed
      have kept : AccountsKept r told :=
        accountsKept_emit r .determinismIncident (by decide) lease message
      have recorded : AccountsKept told listed := .same rfl rfl
      exact (kept.trans recorded).trans (accountsKept_failBuild listed _ _ _)

theorem accountsKept_onRejected (r : SchedulerRun S) (id code message : String) :
    AccountsKept r (r.onRejected id code message) := by
  unfold onRejected
  split
  · exact .refl r
  · next lease _ =>
    extract_lets released counted told declinedUntil backedOff
    have begun : AccountsKept released counted := .same rfl rfl
    have kept : AccountsKept r told := ((accountsKept_release r id lease).trans begun).trans
      (accountsKept_emit counted .rejected (by decide) lease _)
    have read : AccountsKept told told.tick := .same rfl rfl
    have backs : AccountsKept told backedOff :=
      read.trans (accountsKept_modifyExecutor (fun _ => rfl) (fun _ => rfl) fun _ flagged => flagged)
    exact (kept.trans backs).trans (accountsKept_requeueIdle backedOff _)

/-! ## The accounts summarize the history -/

/-- What the accounts of executor `e` say of its history. The two numbers matter
until it is quarantined. -/
structure Tracks (r : SchedulerRun S) (h : History S) (e : S.ExecutorIndex) : Prop where
  noted : r.LossNoted e ↔ LossChain (h.of e) S.policy.retry.quarantineAfterLossEvents
  quarantined : r.LossNoted e → (r.executors e).quarantined = true
  /-- The count is the length of the last chain. -/
  count : (r.executors e).quarantined = false →
    ∀ n, n ≤ (r.executors e).consecutiveLossEvents ↔ Tail (h.of e) n
  /-- The horizon separates the attempts a loss of which would count. -/
  fresh : (r.executors e).quarantined = false → ∀ p ∈ r.leases.entries, p.2.executor = e →
    (FreshNow (h.of e) p.1 ↔ (r.executors e).lossHorizon ≤ p.2.grantSequence)

structure Tracked (r : SchedulerRun S) (h : History S) : Prop where
  named : ∀ p ∈ r.leases.entries,
    p.1 = leaseName p.2.grantSequence ∧ p.2.grantSequence < r.nextLeaseNumber
  horizon : ∀ e, (r.executors e).lossHorizon ≤ r.nextLeaseNumber
  never : ∀ e, (S.executor e).lossQuarantine = .never → ¬ r.LossNoted e
  tracks : ∀ e, (S.executor e).lossQuarantine ≠ .never → r.Tracks h e

theorem Tracks.keep {r r' : SchedulerRun S} {h h' : History S} {e : S.ExecutorIndex}
    (tracks : r.Tracks h e) (leases : r'.leases.entries ⊆ r.leases.entries)
    (count : (r'.executors e).consecutiveLossEvents = (r.executors e).consecutiveLossEvents)
    (horizon : (r'.executors e).lossHorizon = (r.executors e).lossHorizon)
    (quarantined : (r.executors e).quarantined = true → (r'.executors e).quarantined = true)
    (noted : r'.LossNoted e ↔ r.LossNoted e) (same : h'.of e = h.of e) : r'.Tracks h' e where
  noted := by rw [noted, same, tracks.noted]
  quarantined told := quarantined (tracks.quarantined (noted.mp told))
  count usable n := by
    rw [count, same]
    exact tracks.count (Bool.eq_false_iff.mpr fun before =>
      Bool.eq_false_iff.mp usable (quarantined before)) n
  fresh usable p mem onE := by
    rw [horizon, same]
    exact tracks.fresh (Bool.eq_false_iff.mpr fun before =>
      Bool.eq_false_iff.mp usable (quarantined before)) p (leases mem) onE

theorem Tracked.keep {r r' : SchedulerRun S} {h : History S} (tracked : r.Tracked h)
    (drops : Drops r.ledger r'.ledger) (kept : AccountsKept r r') : r'.Tracked h where
  named p mem := by
    have next : r'.nextLeaseNumber = r.nextLeaseNumber := drops.next
    rw [next]
    exact tracked.named p (drops.leases mem)
  horizon e := by
    have next : r'.nextLeaseNumber = r.nextLeaseNumber := drops.next
    rw [next, kept.horizon]
    exact tracked.horizon e
  never e policy told := tracked.never e policy ((kept.noted e).mp told)
  tracks e policy := (tracked.tracks e policy).keep drops.leases (kept.count e) (kept.horizon e)
    (kept.quarantined e) (kept.noted e) rfl

/-- A lease in the table is on a usable executor, and the horizon tells whether
its loss would count. -/
structure Judged (r : SchedulerRun S) (h : History S) (id : String) (lease : LeaseRecord S) :
    Prop where
  usable : (r.executors lease.executor).quarantined = false
  fresh : (S.executor lease.executor).lossQuarantine ≠ .never →
    (FreshNow (h.of lease.executor) id ↔
      (r.executors lease.executor).lossHorizon ≤ lease.grantSequence)

theorem Tracked.judged {r : SchedulerRun S} {h : History S} (tracked : r.Tracked h)
    (good : r.ledger.Good ∅) {id : String} {lease : LeaseRecord S}
    (found : r.leases.find? id = some lease) : r.Judged h id lease := by
  have mem := Lib.OrderedMap.find?_eq_some.mp found
  have usable : (r.executors lease.executor).quarantined = false := by
    refine Bool.eq_false_iff.mpr fun quarantined => ?_
    exact good.idle lease.executor (Set.notMem_empty _) quarantined (id, lease) mem rfl
  exact ⟨usable, fun policy => (tracked.tracks _ policy).fresh usable (id, lease) mem rfl⟩

/-- What is done before a loss is counted does not change the judgement. -/
theorem Judged.keep {r r' : SchedulerRun S} {h : History S} {id : String} {lease : LeaseRecord S}
    (judged : r.Judged h id lease)
    (quarantined : (r'.executors lease.executor).quarantined =
      (r.executors lease.executor).quarantined)
    (horizon : (r'.executors lease.executor).lossHorizon =
      (r.executors lease.executor).lossHorizon) : r'.Judged h id lease where
  usable := quarantined.trans judged.usable
  fresh policy := by
    rw [horizon]
    exact judged.fresh policy

theorem quarantineAfterLossEvents_pos (S : SchedulerSetup) :
    0 < S.policy.retry.quarantineAfterLossEvents := by
  obtain ⟨-, valid⟩ := check_bind_eq_ok.mp S.policyValid
  obtain ⟨retry, -⟩ := check_bind_eq_ok.mp valid
  exact Nat.pos_of_ne_zero (of_decide_eq_true (require_eq_ok.mp retry)).2

theorem of_lost_other {e e' : S.ExecutorIndex} (other : e ≠ e') (h : History S)
    (o : Occurrence String) : History.of (h ++ [(e', o)]) e = h.of e := by
  rw [History.of_append, History.of_other other.symm, List.append_nil]

theorem of_lost_same (e : S.ExecutorIndex) (h : History S) (o : Occurrence String) :
    History.of (h ++ [(e, o)]) e = h.of e ++ [o] := by
  rw [History.of_append, History.of_same]

/-- A loss that does not count changes nothing. -/
theorem Tracks.idle {r : SchedulerRun S} {h : History S} {e : S.ExecutorIndex}
    (tracks : r.Tracks h e) {o : Occurrence String}
    (notGranted : ∀ a, o ≠ .granted a) (notLost : ∀ a, o = .lost a → ¬ FreshNow (h.of e) a)
    (notVerified : ∀ a, o = .verified a → ¬ FreshNow (h.of e) a) :
    r.Tracks (h ++ [(e, o)]) e where
  noted := by rw [of_lost_same, (chains_of_idle notLost notVerified _).1, tracks.noted]
  quarantined := tracks.quarantined
  count usable n := by
    rw [of_lost_same, (chains_of_idle notLost notVerified n).2]
    exact tracks.count usable n
  fresh usable p mem onE := by
    rw [of_lost_same, freshNow_snoc, ← tracks.fresh usable p mem onE]
    constructor
    · rintro (granted | ⟨fresh, -⟩)
      · exact absurd granted (notGranted _)
      · exact fresh
    · exact fun fresh => .inr ⟨fresh, fun ⟨a, same, isFresh⟩ => notLost a same isFresh⟩

/-- A loss that counts makes the last chain one longer. -/
theorem Tracks.count_lost {r : SchedulerRun S} {h : History S} {e : S.ExecutorIndex}
    (tracks : r.Tracks h e) (usable : (r.executors e).quarantined = false) {id : String}
    (fresh : FreshNow (h.of e) id) (n : Nat) :
    n ≤ (r.executors e).consecutiveLossEvents + 1 ↔ Tail (History.of (h ++ [(e, .lost id)]) e) n := by
  rw [of_lost_same]
  cases n with
  | zero => exact iff_of_true (Nat.zero_le _) (tail_zero _)
  | succ n =>
    rw [(chains_of_loss fresh n).2, ← tracks.count usable n]
    exact Nat.succ_le_succ_iff

/-- The history has a chain of the length the policy allows once the count has
reached it. -/
theorem Tracks.chain_lost {r : SchedulerRun S} {h : History S} {e : S.ExecutorIndex}
    (tracks : r.Tracks h e) (usable : (r.executors e).quarantined = false) {id : String}
    (fresh : FreshNow (h.of e) id) :
    LossChain (History.of (h ++ [(e, .lost id)]) e) S.policy.retry.quarantineAfterLossEvents ↔
      S.policy.retry.quarantineAfterLossEvents ≤ (r.executors e).consecutiveLossEvents + 1 := by
  obtain ⟨q, threshold⟩ : ∃ q, S.policy.retry.quarantineAfterLossEvents = q + 1 :=
    Nat.exists_eq_succ_of_ne_zero (quarantineAfterLossEvents_pos S).ne'
  have notYet : ¬ LossChain (h.of e) (q + 1) := fun chain => by
    have quarantined := tracks.quarantined (tracks.noted.mpr (threshold ▸ chain))
    rw [usable] at quarantined
    cases quarantined
  rw [of_lost_same, threshold, (chains_of_loss fresh q).1, ← tracks.count usable q,
    Nat.succ_le_succ_iff]
  exact or_iff_right notYet

/-- Counting a loss follows the history. -/
theorem tracked_countExecutorLoss {r : SchedulerRun S} {h : History S} {id : String}
    {lease : LeaseRecord S} (tracked : r.Tracked h) (judged : r.Judged h id lease) :
    (r.countExecutorLoss lease).Tracked (h ++ [(lease.executor, .lost id)]) := by
  have others : ∀ (r' : SchedulerRun S) e, e ≠ lease.executor → r'.Tracks h e →
      r'.Tracks (h ++ [(lease.executor, .lost id)]) e := fun r' e other tracks =>
    tracks.keep (List.Subset.refl _) rfl rfl (fun same => same) Iff.rfl (of_lost_other other h _)
  unfold countExecutorLoss
  extract_lets record events counted
  split
  · next never =>
    refine ⟨tracked.named, tracked.horizon, tracked.never, fun e policy => ?_⟩
    refine others r e ?_ (tracked.tracks e policy)
    rintro rfl
    exact policy never
  · next policy =>
    have tracks := tracked.tracks _ policy
    have fresh := judged.fresh policy
    split
    · next old =>
      -- the loss belongs to the event counted last
      have notFresh : ¬ FreshNow (h.of lease.executor) id := fun isFresh =>
        absurd (fresh.mp isFresh) (not_le.mpr old)
      refine ⟨tracked.named, tracked.horizon, tracked.never, fun e policy => ?_⟩
      by_cases same : e = lease.executor
      · subst same
        refine tracks.idle (fun a impossible => by cases impossible) (fun a same => ?_)
          fun a impossible => by cases impossible
        cases same
        exact notFresh
      · exact others r e same (tracked.tracks e policy)
    · next new =>
      have isFresh : FreshNow (h.of lease.executor) id := fresh.mpr (not_lt.mp new)
      have record' : ∀ e, counted.executors e =
          if e = lease.executor then { record with
            consecutiveLossEvents := events, lossHorizon := r.nextLeaseNumber }
          else r.executors e := fun e => Function.update_apply _ _ _ e
      have elsewhere : ∀ e, e ≠ lease.executor → counted.executors e = r.executors e := fun e other =>
        (record' e).trans (if_neg other)
      have here : counted.executors lease.executor = { record with
          consecutiveLossEvents := events, lossHorizon := r.nextLeaseNumber } :=
        (record' _).trans (if_pos rfl)
      have horizon : ∀ e, (counted.executors e).lossHorizon ≤ r.nextLeaseNumber := by
        intro e
        rw [record']
        split
        · exact le_rfl
        · exact tracked.horizon e
      have notNoted : ¬ r.LossNoted lease.executor := fun told => by
        have quarantined := tracks.quarantined told
        rw [judged.usable] at quarantined
        cases quarantined
      have chain := tracks.chain_lost judged.usable isFresh
      split
      · next enough =>
        -- the chain is long enough
        change (counted.quarantine lease.executor (lossReason events)).Tracked _
        have usable : (counted.executors lease.executor).quarantined = false := by
          rw [here]
          exact judged.usable
        have drops : Drops r.ledger
            (counted.quarantine lease.executor (lossReason events)).ledger := by
          have same : counted.ledger = r.ledger := by
            apply ledger_modifyExecutor <;> exact fun _ => rfl
          rw [← same]
          exact (moves_quarantine counted _ _).drops
        obtain ⟨accounts, flagged, noted⟩ := quarantine_accounts usable (lossReason events)
        refine ⟨fun p mem => ?_, fun e => ?_, fun e never told => ?_, fun e policy => ?_⟩
        · have next := drops.next
          change (counted.quarantine lease.executor (lossReason events)).nextLeaseNumber = _ at next
          rw [next]
          exact tracked.named p (drops.leases mem)
        · have next := drops.next
          change (counted.quarantine lease.executor (lossReason events)).nextLeaseNumber = _ at next
          rw [(accounts e).2, next]
          exact horizon e
        · rcases (noted e).mp told with before | ⟨rfl, -⟩
          · exact tracked.never e never before
          · exact policy never
        · by_cases same : e = lease.executor
          · subst same
            have now : ((counted.quarantine lease.executor (lossReason events)).executors
                lease.executor).quarantined = true := flagged _ (.inr rfl)
            refine ⟨?_, fun _ => now, fun usable => ?_, fun usable => ?_⟩
            · rw [noted, chain]
              exact iff_of_true (.inr ⟨rfl, events, rfl⟩) enough
            · rw [now] at usable
              cases usable
            · rw [now] at usable
              cases usable
          · refine others _ e same ((tracked.tracks e policy).keep drops.leases ?_ ?_ ?_ ?_ rfl)
            · rw [(accounts e).1, elsewhere e same]
            · rw [(accounts e).2, elsewhere e same]
            · exact fun before => flagged e (.inl (by rw [elsewhere e same]; exact before))
            · exact (noted e).trans (or_iff_left fun ⟨isE, _⟩ => same isE)
      · next few =>
        refine ⟨tracked.named, horizon, tracked.never, fun e policy => ?_⟩
        by_cases same : e = lease.executor
        · subst same
          refine ⟨?_, fun told => absurd told notNoted, fun _ n => ?_, fun _ p mem onE => ?_⟩
          · rw [chain]
            exact iff_of_false notNoted few
          · rw [here]
            exact tracks.count_lost judged.usable isFresh n
          · -- every attempt in the table is older than the count
            rw [of_lost_same, here, freshNow_snoc]
            refine iff_of_false ?_ (not_le.mpr (tracked.named p mem).2)
            rintro (impossible | ⟨-, notCounted⟩)
            · cases impossible
            · exact notCounted ⟨id, rfl, isFresh⟩
        · refine others counted e same ((tracked.tracks e policy).keep (List.Subset.refl _) ?_ ?_ ?_
            Iff.rfl rfl)
          · rw [elsewhere e same]
          · rw [elsewhere e same]
          · rw [elsewhere e same]
            exact fun before => before

/-- Noting a recovery follows the history. -/
theorem tracked_noteExecutorRecovery {r : SchedulerRun S} {h : History S} {id : String}
    {lease : LeaseRecord S} (tracked : r.Tracked h) (judged : r.Judged h id lease) :
    (r.noteExecutorRecovery lease).Tracked (h ++ [(lease.executor, .verified id)]) := by
  have others : ∀ (r' : SchedulerRun S) e, e ≠ lease.executor → r'.Tracks h e →
      r'.Tracks (h ++ [(lease.executor, .verified id)]) e := fun r' e other tracks =>
    tracks.keep (List.Subset.refl _) rfl rfl (fun same => same) Iff.rfl (of_lost_other other h _)
  unfold noteExecutorRecovery
  split
  · next new =>
    have elsewhere : ∀ e, e ≠ lease.executor →
        (r.modifyExecutor lease.executor fun record =>
          { record with consecutiveLossEvents := 0 }).executors e = r.executors e := fun e other =>
      Function.update_of_ne other _ _
    have here : (r.modifyExecutor lease.executor fun record =>
        { record with consecutiveLossEvents := 0 }).executors lease.executor =
          { r.executors lease.executor with consecutiveLossEvents := 0 } :=
      Function.update_self _ _ _
    refine ⟨tracked.named, fun e => ?_, tracked.never, fun e policy => ?_⟩
    · by_cases same : e = lease.executor
      · rw [same, here]
        exact tracked.horizon lease.executor
      · rw [elsewhere e same]
        exact tracked.horizon e
    · by_cases same : e = lease.executor
      · subst same
        have tracks := tracked.tracks _ policy
        have isFresh := (judged.fresh policy).mpr new
        refine ⟨?_, fun told => ?_, fun _ n => ?_, fun _ p mem onE => ?_⟩
        · rw [of_lost_same, (chains_of_recovery isFresh _).1]
          exact tracks.noted
        · rw [here]
          exact tracks.quarantined told
        · rw [of_lost_same, (chains_of_recovery isFresh n).2, here]
          exact Nat.le_zero
        · rw [of_lost_same, here, freshNow_snoc, ← tracks.fresh judged.usable p mem onE]
          constructor
          · rintro (impossible | ⟨fresh, -⟩)
            · cases impossible
            · exact fresh
          · refine fun fresh => .inr ⟨fresh, ?_⟩
            rintro ⟨a, impossible, -⟩
            cases impossible
      · refine others _ e same ((tracked.tracks e policy).keep (List.Subset.refl _) ?_ ?_ ?_
          Iff.rfl rfl)
        · rw [elsewhere e same]
        · rw [elsewhere e same]
        · rw [elsewhere e same]
          exact fun before => before
  · next old =>
    refine ⟨tracked.named, tracked.horizon, tracked.never, fun e policy => ?_⟩
    by_cases same : e = lease.executor
    · subst same
      refine (tracked.tracks _ policy).idle (fun a impossible => by cases impossible)
        (fun a impossible => by cases impossible) fun a same => ?_
      cases same
      exact fun isFresh => old ((judged.fresh policy).mp isFresh)
    · exact others r e same (tracked.tracks e policy)

/-! ## Events -/

/-- What is done with a lease before its loss is counted or its success noted. -/
theorem tracked_released {r told : SchedulerRun S} {h : History S} (good : r.ledger.Good ∅)
    (tracked : r.Tracked h) {id : String} {lease : LeaseRecord S}
    (found : r.leases.find? id = some lease) (ledger : told.ledger = (r.release id lease).ledger)
    (kept : AccountsKept (r.release id lease) told) :
    told.Tracked h ∧ told.Judged h id lease := by
  have drops : Drops r.ledger told.ledger := ledger ▸ (moves_releaseLease r id lease).drops
  have kept := (accountsKept_release r id lease).trans kept
  refine ⟨tracked.keep drops kept, (tracked.judged good found).keep ?_ (kept.horizon _)⟩
  have flags := congrFun (congrArg Ledger.quarantined ledger) lease.executor
  exact flags.trans (congrFun (congrArg Ledger.quarantined (ledger_release r id lease))
    lease.executor)

/-- A loss is counted and the attempt fails. -/
theorem tracked_lost {told : SchedulerRun S} {h : History S} {id : String} {lease : LeaseRecord S}
    (tracked : told.Tracked h) (judged : told.Judged h id lease) (reason : String) :
    ((told.countExecutorLoss lease).attemptFailed lease.task lease.executor reason).Tracked
      (h ++ [(lease.executor, .lost id)]) :=
  (tracked_countExecutorLoss tracked judged).keep (moves_attemptFailed _ _ _ _).drops
    (accountsKept_attemptFailed _ _ _ _)

theorem tracked_onFailed {r : SchedulerRun S} {h : History S} (good : r.ledger.Good ∅)
    (tracked : r.Tracked h) (running : r.failed = false) (id : String) (kind : AttemptFailureKind)
    (message : String) : (r.onFailed id kind message).Tracked
      (h ++ r.eventOccurrences (.failed id kind message)) := by
  unfold onFailed
  split
  · next absent => cases kind <;> simpa [eventOccurrences, running, absent] using tracked
  · next lease found =>
    extract_lets released reason told after
    have same : told.ledger = (r.release id lease).ledger := by simp [told, released]
    obtain ⟨tracked, judged⟩ := tracked_released good tracked found same
      (accountsKept_emit released .failed (by decide) lease reason)
    cases kind with
    | executorLost =>
      have happened : r.eventOccurrences (.failed id .executorLost message) =
          [(lease.executor, .lost id)] := by
        simp [eventOccurrences, running, found]
      rw [happened]
      exact tracked_lost tracked judged reason
    | invalidResult =>
      have happened : r.eventOccurrences (.failed id .invalidResult message) = [] := by
        simp [eventOccurrences, running]
      rw [happened, List.append_nil]
      have begun : AccountsKept told (told.modifyStats fun stats =>
          { stats with invalidResults := stats.invalidResults + 1 }) := .same rfl rfl
      have other : ∀ events, reason ≠ lossReason events := fun events =>
        lossReason_ne (c := 'i') rfl _ events
          ((congrArg String.toList (String.append_assoc ..)).trans (String.toList_append ..))
      have kept : AccountsKept told after :=
        begun.trans (accountsKept_quarantine _ lease.executor other)
      have drops : Drops told.ledger after.ledger := (moves_quarantine (told.modifyStats _) _ _).drops
      exact (tracked.keep drops kept).keep (moves_attemptFailed after _ _ _).drops
        (accountsKept_attemptFailed after _ _ _)

theorem tracked_onFinished {r : SchedulerRun S} {h : History S} (good : r.ledger.Good ∅)
    (tracked : r.Tracked h) (running : r.failed = false) (id : String) (output : AttemptOutput) :
    (r.onFinished id output).Tracked (h ++ r.eventOccurrences (.finished id output)) := by
  unfold onFinished
  split
  · next absent => simpa [eventOccurrences, running, absent] using tracked
  · next lease found =>
    extract_lets released cleared
    have same : cleared.ledger = (r.release id lease).ledger := by
      apply ledger_modifyExecutor <;> exact fun _ => rfl
    obtain ⟨tracked, judged⟩ := tracked_released good tracked found same
      (accountsKept_modifyExecutor (fun _ => rfl) (fun _ => rfl) fun _ flagged => flagged)
    split
    · next defect isDefect =>
      have happened : r.eventOccurrences (.finished id output) = [] := by
        simp [eventOccurrences, running, found, isDefect]
      rw [happened, List.append_nil]
      exact tracked.keep (moves_onInvalidResult cleared lease defect).drops
        (accountsKept_onInvalidResult cleared lease defect)
    · next noDefect =>
      split
      · next succeeded =>
        have happened : r.eventOccurrences (.finished id output) =
            [(lease.executor, .verified id)] := by
          simp [eventOccurrences, running, found, noDefect, succeeded]
        rw [happened]
        have drops := drops_onVerifiedSuccess cleared lease output
        rw [← ledger_noteExecutorRecovery cleared lease] at drops
        exact (tracked_noteExecutorRecovery tracked judged).keep drops
          (accountsKept_deliver (cleared.noteExecutorRecovery lease) lease output)
      · next error failed _ =>
        have happened : r.eventOccurrences (.finished id output) = [] := by
          simp [eventOccurrences, running, found, failed]
        rw [happened, List.append_nil]
        exact tracked.keep (moves_onVerifiedFailure cleared lease error).drops
          (accountsKept_onVerifiedFailure cleared lease error)
      · next failed _ =>
        have happened : r.eventOccurrences (.finished id output) = [] := by
          simp [eventOccurrences, running, found, failed]
        rw [happened, List.append_nil]
        exact tracked

/-- A heartbeat changes no account and no attempt. -/
theorem tracked_onHeartbeat {r : SchedulerRun S} {h : History S} (tracked : r.Tracked h)
    (id : String) : (r.onHeartbeat id).Tracked h := by
  have renews := onHeartbeat_renews r id
  have same : (r.onHeartbeat id).executors = r.executors ∧ (r.onHeartbeat id).log = r.log ∧
      (r.onHeartbeat id).nextLeaseNumber = r.nextLeaseNumber := by
    unfold onHeartbeat
    split
    · exact ⟨rfl, rfl, rfl⟩
    · exact ⟨rfl, rfl, rfl⟩
  obtain ⟨executors, log, next⟩ := same
  have noted : ∀ e, (r.onHeartbeat id).LossNoted e ↔ r.LossNoted e := fun e => by
    rw [LossNoted, LossNoted, log]
  refine ⟨fun p mem => ?_, fun e => ?_, fun e never => ?_, fun e policy => ?_⟩
  · obtain ⟨q, old, name, lease⟩ := renews p mem
    rw [next, lease, ← name]
    exact tracked.named q old
  · rw [executors, next]
    exact tracked.horizon e
  · rw [noted]
    exact tracked.never e never
  · have tracks := tracked.tracks e policy
    refine ⟨(noted e).trans tracks.noted, fun told => ?_, fun usable n => ?_,
      fun usable p mem onE => ?_⟩
    · rw [executors]
      exact tracks.quarantined ((noted e).mp told)
    · rw [executors] at usable ⊢
      exact tracks.count usable n
    · rw [executors] at usable ⊢
      obtain ⟨q, old, name, lease⟩ := renews p mem
      rw [lease] at onE
      rw [lease, ← name]
      exact tracks.fresh usable q old onE

theorem tracked_apply {r : SchedulerRun S} {h : History S} (good : r.ledger.Good ∅)
    (tracked : r.Tracked h) (event : InboxEvent) :
    (r.apply event).Tracked (h ++ r.eventOccurrences event) := by
  unfold apply
  split
  · next failed =>
    have happened : r.eventOccurrences event = [] := by
      unfold eventOccurrences
      rw [if_pos failed]
    rw [happened, List.append_nil]
    exact tracked
  · next running =>
    have running : r.failed = false := by simpa using running
    cases event with
    | finished id output => exact tracked_onFinished good tracked running id output
    | failed id kind message => exact tracked_onFailed good tracked running id kind message
    | heartbeat id =>
      have happened : r.eventOccurrences (.heartbeat id) = [] := by
        simp [eventOccurrences, running]
      rw [happened, List.append_nil]
      exact tracked_onHeartbeat tracked id
    | rejected id code message =>
      have happened : r.eventOccurrences (.rejected id code message) = [] := by
        simp [eventOccurrences, running]
      rw [happened, List.append_nil]
      exact tracked.keep (moves_onRejected r id code message).drops
        (accountsKept_onRejected r id code message)

theorem tracked_expiry (now : Millis) (ids : List String) {r : SchedulerRun S} {h : History S}
    (good : r.ledger.Good ∅) (tracked : r.Tracked h) :
    (ids.foldl (endLease now) r).Tracked (h ++ expiryOccurrences now ids r) := by
  induction ids generalizing r h with
  | nil => exact (List.append_nil h).symm ▸ tracked
  | cons id rest ih =>
    rw [List.foldl_cons, expiryOccurrences, ← List.append_assoc]
    refine ih (good_endLease now good id) ?_
    cases found : r.leases.find? id with
    | none =>
      have same : endLease now r id = r := by
        unfold endLease
        simp only [found]
      rw [same]
      simpa using tracked
    | some lease =>
      unfold endLease
      simp only [found]
      split
      · rw [List.append_nil]
        exact tracked
      · split
        · unfold endLeaseAtDeadline
          extract_lets detail counted told cancelled lossCounted
          have begun : AccountsKept (r.release id lease) counted := .same rfl rfl
          have same : cancelled.ledger = (r.release id lease).ledger := by
            simp [cancelled, told, counted]
          obtain ⟨tracked, judged⟩ := tracked_released good tracked found same
            ((begun.trans (accountsKept_emit counted .deadlineExceeded (by decide) lease detail)).trans
              (accountsKept_cancel told _ _))
          exact tracked_lost tracked judged detail
        · unfold endLeaseAtExpiry
          extract_lets counted told expired lossCounted
          have begun : AccountsKept (r.release id lease) counted := .same rfl rfl
          have heard : AccountsKept told expired :=
            accountsKept_perform told fun _ impossible => by cases impossible
          have same : expired.ledger = (r.release id lease).ledger := by
            simp [expired, told, counted]
          obtain ⟨tracked, judged⟩ := tracked_released good tracked found same
            ((begun.trans (accountsKept_emit counted .expired (by decide) lease "")).trans heard)
          exact tracked_lost tracked judged _

/-! ## Dispatch -/

/-- A grant is a fresh attempt. -/
theorem tracked_grant {r : SchedulerRun S} {h : History S} (tracked : r.Tracked h) (t : S.Task)
    (e : S.ExecutorIndex) (speculative : Bool) :
    (r.grant t e speculative).Tracked (h ++ [(e, .granted (leaseName r.nextLeaseNumber))]) := by
  -- all but the table is as if only the slot were taken
  have kept : AccountsKept r (r.grant t e speculative) := by
    let taken := r.modifyExecutor e fun record => { record with active := record.active + 1 }
    let told := taken.emit .leased (r.newLease t e speculative) ""
    let assigned := told.perform (.assign e t (r.newLease t e speculative).lease)
    have slot : AccountsKept r taken :=
      accountsKept_modifyExecutor (fun _ => rfl) (fun _ => rfl) fun _ flagged => flagged
    have tells : AccountsKept taken told := accountsKept_emit taken .leased (by decide) _ ""
    have assigns : AccountsKept told assigned :=
      accountsKept_perform told fun _ impossible => by cases impossible
    have rest : AccountsKept assigned (r.grant t e speculative) := .same rfl rfl
    exact ((slot.trans tells).trans assigns).trans rest
  have usableBefore : ∀ x, ((r.grant t e speculative).executors x).quarantined = false →
      (r.executors x).quarantined = false := fun x usable =>
    Bool.eq_false_iff.mpr fun before => Bool.eq_false_iff.mp usable (kept.quarantined x before)
  have entries : ∀ p ∈ (r.grant t e speculative).leases.entries,
      p = (leaseName r.nextLeaseNumber, r.newLease t e speculative) ∨ p ∈ r.leases.entries :=
    fun p mem => (Lib.OrderedMap.mem_insert.mp mem).imp_right And.right
  refine ⟨fun p mem => ?_, fun x => ?_, fun x never told => ?_, fun x policy => ?_⟩
  · rcases entries p mem with rfl | old
    · exact ⟨rfl, Nat.lt_succ_self _⟩
    · exact ⟨(tracked.named p old).1, Nat.lt_succ_of_lt (tracked.named p old).2⟩
  · rw [kept.horizon]
    exact (tracked.horizon x).trans (Nat.le_succ _)
  · exact tracked.never x never ((kept.noted x).mp told)
  · have tracks := tracked.tracks x policy
    by_cases same : x = e
    · subst same
      have idle := @chains_of_idle _ (h.of x) (.granted (leaseName r.nextLeaseNumber))
        (fun a impossible => by cases impossible) fun a impossible => by cases impossible
      refine ⟨?_, fun told => ?_, fun usable n => ?_, fun usable p mem onE => ?_⟩
      · rw [of_lost_same, (idle _).1, kept.noted]
        exact tracks.noted
      · exact kept.quarantined x (tracks.quarantined ((kept.noted x).mp told))
      · rw [of_lost_same, (idle n).2, kept.count]
        exact tracks.count (usableBefore x usable) n
      · rw [of_lost_same, freshNow_snoc, kept.horizon]
        rcases entries p mem with rfl | old
        · exact iff_of_true (.inl rfl) (tracked.horizon x)
        · -- the older leases have other names
          rw [← tracks.fresh (usableBefore x usable) p old onE]
          constructor
          · rintro (granted | ⟨fresh, -⟩)
            · obtain ⟨name, older⟩ := tracked.named p old
              have number := leaseName_injective ((Occurrence.granted.inj granted).trans name)
              omega
            · exact fresh
          · refine fun fresh => .inr ⟨fresh, ?_⟩
            rintro ⟨a, impossible, -⟩
            cases impossible
    · have ofSame : History.of (h ++ [(e, .granted (leaseName r.nextLeaseNumber))]) x = h.of x :=
        of_lost_other same h _
      refine ⟨?_, fun told => ?_, fun usable n => ?_, fun usable p mem onX => ?_⟩
      · rw [ofSame, kept.noted]
        exact tracks.noted
      · exact kept.quarantined x (tracks.quarantined ((kept.noted x).mp told))
      · rw [ofSame, kept.count]
        exact tracks.count (usableBefore x usable) n
      · rw [ofSame, kept.horizon]
        rcases entries p mem with rfl | old
        · exact absurd onX.symm same
        · exact tracks.fresh (usableBefore x usable) p old onX

/-- A dispatch follows the history of its grants. -/
theorem tracked_dispatch {r : SchedulerRun S} {h : History S} (tracked : r.Tracked h) :
    r.dispatch.Tracked
      (h ++ (grantOccurrences r.dispatch.log).drop (grantOccurrences r.log).length) := by
  have pass := dispatch_induction
    (P := fun r' => ∃ granted, grantOccurrences r'.log = grantOccurrences r.log ++ granted ∧
      r'.Tracked (h ++ granted))
    (fun r' ⟨granted, log, tracked⟩ => ⟨granted, log, tracked.keep (Drops.refl _) (.same rfl rfl)⟩)
    (fun r' t e speculative ⟨granted, log, tracked⟩ => ?_)
    (r := r) ⟨[], (List.append_nil _).symm, (List.append_nil h).symm ▸ tracked⟩
  · obtain ⟨granted, log, tracked⟩ := pass
    rw [log, List.drop_left]
    exact tracked
  · refine ⟨granted ++ [(e, .granted (leaseName r'.nextLeaseNumber))], ?_, ?_⟩
    · rw [← List.append_assoc, ← log]
      have appended : (r'.grant t e speculative).log = (r'.log ++ [_]) ++ [_] := rfl
      rw [appended]
      simp [grantOccurrences, newLease, leaseName]
    · rw [← List.append_assoc]
      exact tracked_grant tracked t e speculative

/-! ## Steps -/

theorem anyBackingOff_log (executors : List S.ExecutorIndex) (r : SchedulerRun S) :
    (anyBackingOff executors r).2.log = r.log := by
  induction executors generalizing r with
  | nil => rfl
  | cons e rest ih =>
    rw [anyBackingOff]
    split
    · exact ih r
    · split
      · rfl
      · exact ih r.tick

theorem accountsKept_abandonOutstandingLeases (r : SchedulerRun S) :
    AccountsKept r r.abandonOutstandingLeases := by
  refine ⟨fun _ => rfl, fun _ => rfl, fun _ flagged => flagged, fun e => ?_⟩
  refine exists_congr fun events => ?_
  rw [abandonOutstandingLeases, List.mem_append]
  refine or_iff_left fun mem => ?_
  obtain ⟨entry, -, impossible⟩ := List.mem_map.mp mem
  cases impossible

theorem grantOccurrences_abandonOutstandingLeases (r : SchedulerRun S) :
    grantOccurrences r.abandonOutstandingLeases.log = grantOccurrences r.log := by
  have cancels : grantOccurrences (r.leases.entries.map fun entry =>
      (.cancel entry.2.executor entry.1 : Effect S)) = [] := by
    rw [grantOccurrences, List.filterMap_map]
    exact List.filterMap_eq_nil_iff.mpr fun _ _ => rfl
  refine (List.filterMap_append).trans ?_
  rw [← grantOccurrences, ← grantOccurrences, cancels, List.append_nil]

end SchedulerRun

open SchedulerRun

theorem tracked_advance {s t : RunState S} {h : History S} {input : RoundInput}
    (good : s.run.ledger.Good ∅) (tracked : s.run.Tracked h) (advanced : s.advance input = some t) :
    t.run.Tracked (h ++ s.occurrences t) := by
  have drops := advance_drops advanced
  obtain ⟨r, stage⟩ := s
  unfold RunState.advance at advanced
  unfold RunState.occurrences
  cases stage with
  | head =>
    -- a run that ends here keeps its accounts
    have ends : ∀ r' : SchedulerRun S, Drops r.ledger r'.ledger → AccountsKept r r' →
        r'.log = r.log → r'.abandonOutstandingLeases.Tracked
          (h ++ (grantOccurrences r'.abandonOutstandingLeases.log).drop
            (grantOccurrences r.log).length) := by
      intro r' drops kept log
      rw [grantOccurrences_abandonOutstandingLeases, log, List.drop_length, List.append_nil]
      exact (tracked.keep drops kept).keep (drops_abandonOutstandingLeases r')
        (accountsKept_abandonOutstandingLeases r')
    simp only at advanced
    split_ifs at advanced <;> cases advanced
    · exact ends r (Drops.refl _) (.refl r) rfl
    · exact ends (r.setStatus .cancelled) ⟨List.Subset.refl _, rfl, rfl⟩ (.same rfl rfl) rfl
    · exact ends (r.setStatus .succeeded) ⟨List.Subset.refl _, rfl, rfl⟩ (.same rfl rfl) rfl
    · exact tracked_dispatch tracked
  | dispatched =>
    have drops : Drops r.ledger t.run.ledger := by
      rcases drops with drops | ⟨head, -, -⟩ | ⟨id, rest, applying, -⟩
      · exact drops
      · cases head
      · cases applying
    have looked : AccountsKept r r.anyExecutorBackingOff.2 :=
      .same (anyBackingOff_run _ r).2.1 (anyBackingOff_log _ r)
    have waited : ∀ (r : SchedulerRun S) timeout, AccountsKept r (r.tick.perform (.waited timeout)) := by
      intro r timeout
      have read : AccountsKept r r.tick := .same rfl rfl
      exact read.trans (accountsKept_perform r.tick fun _ impossible => by cases impossible)
    rw [List.append_nil]
    simp only at advanced
    split_ifs at advanced <;> cases advanced
    · exact tracked.keep drops (looked.trans (waited _ _))
    · exact tracked.keep drops ((looked.trans (accountsKept_failBuild _ _ _ _)).trans
        (accountsKept_abandonOutstandingLeases _))
    · exact tracked.keep drops (waited _ _)
  | applying events =>
    cases events with
    | nil =>
      cases advanced
      exact tracked_expiry r.now _ (r := r.tick) good (tracked.keep (Drops.refl _) (.same rfl rfl))
    | cons event rest =>
      cases advanced
      exact tracked_apply good tracked event
  | finished => cases advanced

/-! ## Before the first round -/

variable {resumed : List CommittedResult}

theorem resumedResult_accounts {r r' : SchedulerRun S} {committed : CommittedResult}
    (applied : r.applyResumedResult committed = .ok r') :
    r'.executors = r.executors ∧ r'.log = r.log := by
  unfold applyResumedResult at applied
  simp only [] at applied
  split at applied
  · cases applied
  · split at applied
    · cases applied
    · split at applied
      · cases applied
      · split at applied
        · cases applied
        · cases applied
          exact ⟨rfl, rfl⟩

theorem resumed_accounts {r r' : SchedulerRun S} (applied : r.applyResumed resumed = .ok r') :
    r'.executors = r.executors ∧ r'.log = r.log := by
  induction resumed generalizing r with
  | nil =>
    cases applied
    exact ⟨rfl, rfl⟩
  | cons committed rest ih =>
    obtain ⟨middle, first, applied⟩ := bind_eq_ok.mp applied
    obtain ⟨executors, log⟩ := resumedResult_accounts first
    exact ⟨(ih applied).1.trans executors, (ih applied).2.trans log⟩

theorem accountsKept_prepare (r : SchedulerRun S) : AccountsKept r r.prepare := by
  refine accountsKept_foldl (fun r t => ?_) _ r
  unfold markInitiallyReady
  split
  · exact .same rfl rfl
  · exact .refl r

/-- A history in which nothing happened has no chain of losses. -/
theorem lossChain_nil {n : Nat} (chain : LossChain ([] : List (Occurrence String)) n) : n = 0 := by
  obtain ⟨s, card, all, -⟩ := chain
  rw [← card, Finset.card_eq_zero]
  exact Finset.eq_empty_of_forall_notMem fun i mem => absurd (all i mem).lt (Nat.not_lt_zero i)

theorem tracked_start {r : SchedulerRun S} (applied : (start S).applyResumed resumed = .ok r) :
    r.prepare.Tracked [] := by
  have untouched : Untouched (start S).ledger := ⟨consistent_start, rfl, fun _ => .inl rfl⟩
  have empty : r.leases.entries = [] := (untouched_applyResumed untouched applied).table
  obtain ⟨executors, log⟩ := resumed_accounts applied
  have silent : ∀ e, ¬ r.LossNoted e := by
    rintro e ⟨events, told⟩
    rw [log] at told
    cases told
  have noLease : ∀ p, p ∉ r.leases.entries := fun p mem => by
    rw [empty] at mem
    cases mem
  refine Tracked.keep (r := r) ⟨fun p mem => absurd mem (noLease p), fun e => ?_,
    fun e _ => silent e, fun e _ => ⟨?_, fun told => absurd told (silent e), fun _ n => ?_,
      fun _ p mem => absurd mem (noLease p)⟩⟩ (drops_prepare r) (accountsKept_prepare r)
  · rw [executors]
    exact Nat.zero_le _
  · exact iff_of_false (silent e) fun chain =>
      (quarantineAfterLossEvents_pos S).ne' (lossChain_nil chain)
  · rw [executors]
    constructor
    · intro none
      rw [Nat.le_zero.mp none]
      exact tail_zero _
    · rintro ⟨s, card, all, -⟩
      exact (lossChain_nil ⟨s, card, all, fun i mem => absurd (all i mem).lt (Nat.not_lt_zero i)⟩).le

/-! ## Runs -/

/-- In every state of a run the accounts summarize the history. -/
theorem reachable_tracked {h : HistoryState S} (reach : (historySystem S resumed).Reachable h) :
    h.state.run.Tracked h.history := by
  refine reach.invariant (S := historySystem S resumed)
    (P := fun h => h.state.run.Tracked h.history) ?_ ?_
  · rintro ⟨s, history⟩ ⟨⟨r, applied, rfl⟩, rfl⟩
    exact tracked_start applied
  · rintro ⟨s, history⟩ ⟨t, later⟩ reach tracked ⟨⟨input, advanced⟩, grown⟩
    change later = history ++ s.occurrences t at grown
    rw [grown]
    have reach : (schedulerSystem S resumed).Reachable s :=
      history_reachable_iff.mpr ⟨history, reach⟩
    have unfinished : s.stage ≠ .finished := by
      intro ended
      rw [RunState.advance, ended] at advanced
      cases advanced
    exact tracked_advance (reachable_good reach unfinished) tracked advanced

/-- What a run tells of losses, beside what its history says. -/
structure LossQuarantineSpec (h : HistoryState S) (e : S.ExecutorIndex) : Prop where
  quarantined_iff : (S.executor e).lossQuarantine ≠ .never →
    (h.state.run.LossNoted e ↔
      LossChain (h.history.of e) S.policy.retry.quarantineAfterLossEvents)
  inQuarantine : h.state.run.LossNoted e → (h.state.run.executors e).quarantined = true
  never : (S.executor e).lossQuarantine = .never → ¬ h.state.run.LossNoted e
  /-- The losses of a crash count once: before the next counted loss the executor
  was granted another attempt. -/
  once : ∀ i j, Counted (h.history.of e) i → Counted (h.history.of e) j → i < j →
    ∃ g id, i < g ∧ g < j ∧ (h.history.of e)[g]? = some (.granted id)

/-- The two numbers the scheduler keeps are exactly the definition over the
history, in every state of every run. -/
theorem loss_quarantine_iff (S : SchedulerSetup) (resumed : List CommittedResult) :
    (∀ s, (schedulerSystem S resumed).Reachable s ↔
      ∃ history, (historySystem S resumed).Reachable ⟨s, history⟩) ∧
    ∀ h, (historySystem S resumed).Reachable h → ∀ e, LossQuarantineSpec h e := by
  refine ⟨fun s => history_reachable_iff, fun h reach e => ?_⟩
  have tracked := reachable_tracked reach
  refine ⟨fun policy => (tracked.tracks e policy).noted, fun told => ?_, tracked.never e,
    fun i j first second lt => granted_between first second lt⟩
  exact (tracked.tracks e fun never => tracked.never e never told).quarantined told

end Svp.Exec

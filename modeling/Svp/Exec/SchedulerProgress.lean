import Svp.Exec.SchedulerSafety

/-!
# When the scheduler gives up and when it leaves work

`dispatch` and the dead-end check look at the executors in turn and read the
clock anew at each look. `dispatchLook` and `checkLook` are the runs as they
stand when an executor's turn comes.

1. `reachable_progress`, dead ends: a run fails for lack of a usable executor
   only when every ready task that some executor still accepts has one whose
   backoff ended between its two looks.
2. `reachable_progress`, stalls: what dispatch leaves for an executor with a
   free slot is a task that executor failed and another usable one accepts.
3. `deadEnd_and_stall`: both exceptions occur, with a clock that never goes
   back.
-/

namespace Svp.Exec

open Ledger

namespace SchedulerRun

variable {S : SchedulerSetup}

/-! ## What granting leaves alone -/

/-- Between the two runs only leases on the executors in `served` were granted. -/
structure GrantsOnly (served : Set S.ExecutorIndex) (r r' : SchedulerRun S) : Prop where
  reads : r.clockReads ≤ r'.clockReads
  quarantined : ∀ e, (r'.executors e).quarantined = (r.executors e).quarantined
  declinedUntil : ∀ e, (r'.executors e).declinedUntil = (r.executors e).declinedUntil
  active : ∀ e, e ∉ served → (r'.executors e).active = (r.executors e).active
  avoid : ∀ t, (r'.tasks t).avoid = (r.tasks t).avoid
  queue : ∀ t, t ∈ r'.readyQueue.tasks → t ∈ r.readyQueue.tasks

theorem GrantsOnly.refl (served : Set S.ExecutorIndex) (r : SchedulerRun S) :
    GrantsOnly served r r :=
  ⟨le_refl _, fun _ => rfl, fun _ => rfl, fun _ _ => rfl, fun _ => rfl, fun _ mem => mem⟩

theorem GrantsOnly.trans {served : Set S.ExecutorIndex} {r r' r'' : SchedulerRun S}
    (h : GrantsOnly served r r') (h' : GrantsOnly served r' r'') : GrantsOnly served r r'' where
  reads := h.reads.trans h'.reads
  quarantined e := (h'.quarantined e).trans (h.quarantined e)
  declinedUntil e := (h'.declinedUntil e).trans (h.declinedUntil e)
  active e out := (h'.active e out).trans (h.active e out)
  avoid t := (h'.avoid t).trans (h.avoid t)
  queue t mem := h.queue t (h'.queue t mem)

theorem GrantsOnly.mono {served served' : Set S.ExecutorIndex} {r r' : SchedulerRun S}
    (h : GrantsOnly served r r') (sub : served ⊆ served') : GrantsOnly served' r r' where
  reads := h.reads
  quarantined := h.quarantined
  declinedUntil := h.declinedUntil
  active e out := h.active e fun mem => out (sub mem)
  avoid := h.avoid
  queue := h.queue

theorem grantsOnly_tick (r : SchedulerRun S) : GrantsOnly ∅ r r.tick :=
  ⟨Nat.le_succ _, fun _ => rfl, fun _ => rfl, fun _ _ => rfl, fun _ => rfl, fun _ mem => mem⟩

theorem executors_grant (r : SchedulerRun S) (t : S.Task) (e : S.ExecutorIndex)
    (speculative : Bool) : (r.grant t e speculative).executors =
      Function.update r.executors e
        { r.executors e with active := (r.executors e).active + 1 } := rfl

theorem grantsOnly_grant (r : SchedulerRun S) (t : S.Task) (e : S.ExecutorIndex)
    (speculative : Bool) : GrantsOnly {e} r (r.grant t e speculative) where
  reads := Nat.le_succ _
  quarantined e' := by
    rw [executors_grant]
    by_cases same : e' = e
    · subst same
      rw [Function.update_self]
    · rw [Function.update_of_ne same]
  declinedUntil e' := by
    rw [executors_grant]
    by_cases same : e' = e
    · subst same
      rw [Function.update_self]
    · rw [Function.update_of_ne same]
  active e' out := by
    rw [executors_grant, Function.update_of_ne out]
  avoid t' := by
    show (Function.update r.tasks t _ t').avoid = _
    by_cases same : t' = t
    · subst same
      rw [Function.update_self]
      rfl
    · rw [Function.update_of_ne same]
  queue t' mem := (ReadyQueue.mem_erase.mp mem).2

theorem grantsOnly_fillSlots (e : S.ExecutorIndex) (rounds : Nat) (r : SchedulerRun S) :
    GrantsOnly {e} r (fillSlots e rounds r) := by
  induction rounds generalizing r with
  | zero => exact .refl _ r
  | succ rounds ih =>
    rw [fillSlots]
    split
    · split
      · exact .refl _ r
      · next t _ => exact (grantsOnly_grant r t e false).trans (ih _)
    · exact .refl _ r

theorem grantsOnly_fillSlotsSpeculative (e : S.ExecutorIndex) (rounds : Nat)
    (r : SchedulerRun S) : GrantsOnly {e} r (fillSlotsSpeculative e rounds r) := by
  induction rounds generalizing r with
  | zero => exact .refl _ r
  | succ rounds ih =>
    rw [fillSlotsSpeculative]
    split
    · split
      · exact .refl _ r
      · next lease _ => exact (grantsOnly_grant r lease.task e true).trans (ih _)
    · exact .refl _ r

theorem grantsOnly_dispatchTo (r : SchedulerRun S) (e : S.ExecutorIndex) :
    GrantsOnly {e} r (r.dispatchTo e) := by
  have ticked : GrantsOnly {e} r r.tick := (grantsOnly_tick r).mono (Set.empty_subset _)
  unfold dispatchTo
  split
  · exact ticked
  · exact ticked.trans (grantsOnly_fillSlots e _ r.tick)

theorem grantsOnly_dispatchSpeculativeTo (r : SchedulerRun S) (e : S.ExecutorIndex) :
    GrantsOnly {e} r (r.dispatchSpeculativeTo e) := by
  have ticked : GrantsOnly {e} r r.tick := (grantsOnly_tick r).mono (Set.empty_subset _)
  unfold dispatchSpeculativeTo
  split
  · exact ticked
  · exact ticked.trans (grantsOnly_fillSlotsSpeculative e _ r.tick)

theorem grantsOnly_foldl {f : SchedulerRun S → S.ExecutorIndex → SchedulerRun S}
    (serves : ∀ r e, GrantsOnly {e} r (f r e)) (executors : List S.ExecutorIndex)
    (r : SchedulerRun S) : GrantsOnly {e | e ∈ executors} r (executors.foldl f r) := by
  induction executors generalizing r with
  | nil => exact .refl _ r
  | cons e rest ih =>
    have head : GrantsOnly {x | x ∈ e :: rest} r (f r e) :=
      (serves r e).mono fun x (same : x = e) => by simp [same]
    exact head.trans ((ih (f r e)).mono fun x mem => List.mem_cons_of_mem e mem)

/-! ## One executor's turn -/

/-- Nothing more can be granted on the executor: it has no free slot, or there
is no ready task it should take. -/
def Served (r : SchedulerRun S) (e : S.ExecutorIndex) : Prop :=
  r.hasFreeSlot e = true → ∀ t ∈ r.readyQueue.tasks, r.takes e t = false

/-- Whether an executor takes a task is not changed by granting. -/
theorem GrantsOnly.takes {served : Set S.ExecutorIndex} {r r' : SchedulerRun S}
    (h : GrantsOnly served r r') (e : S.ExecutorIndex) (t : S.Task) :
    r'.takes e t = r.takes e t := by
  simp only [SchedulerRun.takes, hasOtherUsableExecutor, h.avoid, h.quarantined]

/-- Granting on other executors keeps an executor served. -/
theorem Served.keep {served : Set S.ExecutorIndex} {r r' : SchedulerRun S} {e : S.ExecutorIndex}
    (done : r.Served e) (h : GrantsOnly served r r') (out : e ∉ served) : r'.Served e := by
  intro free t mem
  rw [h.takes]
  refine done ?_ t (h.queue t mem)
  simpa only [hasFreeSlot, h.quarantined, h.active e out] using free

/-- As many rounds as there are free slots serve the executor. -/
theorem served_fillSlots {e : S.ExecutorIndex} (rounds : Nat) (r : SchedulerRun S)
    (enough : (S.executor e).slots ≤ (r.executors e).active + rounds) :
    (fillSlots e rounds r).Served e := by
  induction rounds generalizing r with
  | zero =>
    intro free
    have room := ((hasFreeSlot_iff r e).mp free).2
    exact absurd room (not_lt.mpr enough)
  | succ rounds ih =>
    rw [fillSlots]
    split
    · split
      · next stuck =>
        intro _ t mem
        simpa using List.find?_eq_none.mp stuck t mem
      · next t _ =>
        refine ih _ ?_
        rw [executors_grant, Function.update_self]
        show _ ≤ (r.executors e).active + 1 + rounds
        omega
    · next full =>
      intro free
      exact absurd free full

theorem served_dispatchTo {r : SchedulerRun S} {e : S.ExecutorIndex}
    (seen : r.backingOff e = false) : (r.dispatchTo e).Served e := by
  rw [dispatchTo, seen]
  exact served_fillSlots _ _ (Nat.le_add_left _ _)

/-- The run as it stands when `dispatch` looks at an executor. -/
def dispatchLook (r : SchedulerRun S) (e : S.ExecutorIndex) : SchedulerRun S :=
  ((List.finRange S.executorCount).takeWhile fun x => decide (x ≠ e)).foldl dispatchTo r

/-- The executors before and after a given one. -/
theorem finRange_split {n : Nat} (e : Fin n) : ∃ before after,
    List.finRange n = before ++ e :: after ∧
      ((List.finRange n).takeWhile fun x => decide (x ≠ e)) = before ∧ e ∉ after := by
  obtain ⟨before, after, split, notBefore⟩ := List.eq_append_cons_of_mem (List.mem_finRange e)
  refine ⟨before, after, split, ?_, ?_⟩
  · rw [split, List.takeWhile_append_of_pos]
    · simp
    · intro x mem
      simp only [ne_eq, decide_eq_true_eq]
      rintro rfl
      exact notBefore mem
  · have nodup := List.nodup_finRange n
    rw [split] at nodup
    exact (List.nodup_cons.mp (List.nodup_append.mp nodup).2.1).1

/-- The first pass of `dispatch` serves every executor it does not find backing
off. -/
theorem served_pass {r : SchedulerRun S} {e : S.ExecutorIndex}
    (seen : (r.dispatchLook e).backingOff e = false) :
    ((List.finRange S.executorCount).foldl dispatchTo r).Served e := by
  obtain ⟨before, after, split, earlier, notAfter⟩ := finRange_split e
  rw [dispatchLook, earlier] at seen
  rw [split, List.foldl_append, List.foldl_cons]
  exact (served_dispatchTo seen).keep
    (grantsOnly_foldl grantsOnly_dispatchTo after _) notAfter

theorem served_dispatch {r : SchedulerRun S} {e : S.ExecutorIndex}
    (seen : (r.dispatchLook e).backingOff e = false) : r.dispatch.Served e := by
  unfold dispatch
  extract_lets passed
  split
  · next both =>
    -- the queue was empty before the duplicates, so nothing is left
    have drained : passed.readyQueue.tasks = [] := by
      simpa using (Bool.and_eq_true_iff.mp both).2
    intro _ t mem
    have before := (grantsOnly_foldl grantsOnly_dispatchSpeculativeTo _ passed).queue t mem
    rw [drained] at before
    cases before
  · exact served_pass seen

/-- What an executor does not take although it accepts it. -/
theorem left_of_not_takes {r : SchedulerRun S} {e : S.ExecutorIndex} {t : S.Task}
    (left : r.takes e t = false) (accepts : (S.executor e).accepts (S.graph.spec t) = true) :
    S.policy.retry.preferDifferentExecutor = true ∧ e ∈ (r.tasks t).avoid ∧
      r.hasOtherUsableExecutor t e = true := by
  unfold takes at left
  rw [accepts] at left
  simp only [Bool.true_and, Bool.or_eq_false_iff, Bool.not_eq_false', decide_eq_false_iff_not,
    not_not] at left
  exact ⟨left.1.1, left.1.2, left.2⟩

theorem hasOtherUsableExecutor_iff {r : SchedulerRun S} {t : S.Task} {e : S.ExecutorIndex} :
    r.hasOtherUsableExecutor t e = true ↔ ∃ other, other ≠ e ∧
      (r.executors other).quarantined = false ∧ other ∉ (r.tasks t).avoid ∧
        (S.executor other).accepts (S.graph.spec t) = true := by
  simp [hasOtherUsableExecutor, and_assoc]

/-! ## The dead-end check -/

/-- The run as it stands when the dead-end check looks at an executor. -/
def checkLook (r : SchedulerRun S) (e : S.ExecutorIndex) : SchedulerRun S :=
  (anyBackingOff ((List.finRange S.executorCount).takeWhile fun x => decide (x ≠ e)) r).2

/-- The check looks at every executor that is not quarantined before it denies
that one is backing off. -/
theorem anyBackingOff_looks {executors : List S.ExecutorIndex} {r : SchedulerRun S}
    (none : (anyBackingOff executors r).1 = false) {e : S.ExecutorIndex} (mem : e ∈ executors)
    (usable : (r.executors e).quarantined = false) :
    (anyBackingOff (executors.takeWhile fun x => decide (x ≠ e)) r).2.backingOff e = false := by
  induction executors generalizing r with
  | nil => cases mem
  | cons x rest ih =>
    by_cases same : x = e
    · subst same
      rw [anyBackingOff, usable] at none
      simp only [Bool.false_eq_true, if_false] at none
      rw [List.takeWhile_cons_of_neg (by simp)]
      show r.backingOff x = false
      cases seen : r.backingOff x with
      | false => rfl
      | true => simp [seen] at none
    · have later : e ∈ rest := (List.mem_cons.mp mem).resolve_left (Ne.symm same)
      rw [List.takeWhile_cons_of_pos (by simp [same])]
      rw [anyBackingOff] at none ⊢
      split at none
      · next quarantined =>
        rw [if_pos quarantined]
        exact ih none later usable
      · next free =>
        rw [if_neg free]
        split at none
        · cases none
        · next calm =>
          rw [if_neg calm]
          exact ih none later usable

end SchedulerRun

open SchedulerRun

variable {S : SchedulerSetup}

/-! ## The two properties and their exceptions -/

/-- The run has failed for lack of a usable executor. -/
def SchedulerRun.GaveUp (r : SchedulerRun S) : Prop :=
  ∃ f, r.outcome.failure = some f ∧ f.kind = .noUsableExecutor

/-- An executor that is not quarantined and accepts the task. -/
def SchedulerRun.Usable (r : SchedulerRun S) (e : S.ExecutorIndex) (t : S.Task) : Prop :=
  (r.executors e).quarantined = false ∧ (S.executor e).accepts (S.graph.spec t) = true

/-- No reading of the clock between the two runs finds the executor backing off. -/
def OutsideBackoff (r r' : SchedulerRun S) (e : S.ExecutorIndex) : Prop :=
  ∀ reading, r.clockReads ≤ reading → reading < r'.clockReads →
    (r.executors e).declinedUntil ≤ S.clock reading

/-- A run gives up only when no executor is usable for any ready task. -/
def NoSpuriousDeadEnd (S : SchedulerSetup) (resumed : List CommittedResult) : Prop :=
  ∀ s, (schedulerSystem S resumed).Reachable s → s.run.GaveUp →
    ∀ t ∈ s.run.readyQueue.tasks, ∀ e, ¬ s.run.Usable e t

/-- Dispatch leaves no task to an executor with a free slot that accepts it. -/
def NoStall (S : SchedulerSetup) (resumed : List CommittedResult) : Prop :=
  ∀ s s', (schedulerSystem S resumed).Reachable ⟨s, .head⟩ →
    (schedulerSystem S resumed).step ⟨s, .head⟩ ⟨s', .dispatched⟩ →
    ∀ e, OutsideBackoff s s' e → s'.hasFreeSlot e = true →
      ∀ t ∈ s'.readyQueue.tasks, (S.executor e).accepts (S.graph.spec t) = false

/-- The run gave up after dispatching from `s`; every ready task with a usable
executor has one whose backoff ended between the two looks. -/
structure ExplainedDeadEnd (resumed : List CommittedResult) (s : SchedulerRun S)
    (t : RunState S) : Prop where
  reachable : (schedulerSystem S resumed).Reachable ⟨s, .head⟩
  dispatched : (schedulerSystem S resumed).step ⟨s, .head⟩ ⟨s.dispatch, .dispatched⟩
  deadEnd : DeadEnd ⟨s.dispatch, .dispatched⟩ t
  lapsed : ∀ task ∈ t.run.readyQueue.tasks, (∃ e, t.run.Usable e task) →
    ∃ e, t.run.Usable e task ∧ (s.dispatchLook e).backingOff e = true ∧
      (s.dispatch.checkLook e).backingOff e = false

/-- What the dead-end check and `dispatch` do guarantee. -/
structure Progress (S : SchedulerSetup) (resumed : List CommittedResult) : Prop where
  deadEnd : ∀ t, (schedulerSystem S resumed).Reachable t → t.run.GaveUp →
    ∃ s, ExplainedDeadEnd resumed s t
  noStall : ∀ s s', (schedulerSystem S resumed).Reachable ⟨s, .head⟩ →
    (schedulerSystem S resumed).step ⟨s, .head⟩ ⟨s', .dispatched⟩ →
    ∀ e, OutsideBackoff s s' e → s'.hasFreeSlot e = true →
      ∀ t ∈ s'.readyQueue.tasks, (S.executor e).accepts (S.graph.spec t) = true →
        S.policy.retry.preferDifferentExecutor = true ∧ e ∈ (s'.tasks t).avoid ∧
          ∃ other, other ∉ (s'.tasks t).avoid ∧ s'.Usable other t

/-! ## Proofs -/

theorem dispatched_eq {s s' : SchedulerRun S} {resumed : List CommittedResult}
    (step : (schedulerSystem S resumed).step ⟨s, .head⟩ ⟨s', .dispatched⟩) : s' = s.dispatch := by
  obtain ⟨input, advanced⟩ := step
  simp only [RunState.advance] at advanced
  split_ifs at advanced <;> cases advanced
  rfl

/-- An executor outside backoff throughout is so when dispatch looks at it. -/
theorem OutsideBackoff.look {r : SchedulerRun S} {e : S.ExecutorIndex}
    (outside : OutsideBackoff r r.dispatch e) : (r.dispatchLook e).backingOff e = false := by
  obtain ⟨before, after, split, earlier, -⟩ := finRange_split e
  have look : GrantsOnly _ r (r.dispatchLook e) := grantsOnly_foldl grantsOnly_dispatchTo _ r
  -- the look itself is one of the readings before the pass ends
  have turn : (r.dispatchLook e).tick.clockReads ≤ ((r.dispatchLook e).dispatchTo e).clockReads := by
    unfold dispatchTo
    split
    · exact le_refl _
    · exact (grantsOnly_fillSlots e _ (r.dispatchLook e).tick).reads
  have later : ((r.dispatchLook e).dispatchTo e).clockReads ≤ r.dispatch.clockReads := by
    have pass : ((r.dispatchLook e).dispatchTo e).clockReads ≤
        ((List.finRange S.executorCount).foldl dispatchTo r).clockReads := by
      rw [split, List.foldl_append, List.foldl_cons, dispatchLook, earlier]
      exact (grantsOnly_foldl grantsOnly_dispatchTo after _).reads
    refine pass.trans ?_
    unfold dispatch
    extract_lets passed
    split
    · exact (grantsOnly_foldl grantsOnly_dispatchSpeculativeTo _ passed).reads
    · exact le_refl _
  have reading := outside _ look.reads (Nat.lt_of_lt_of_le (Nat.lt_succ_self _) (turn.trans later))
  rw [backingOff, decide_eq_false_iff_not, look.declinedUntil e]
  exact not_lt.mpr reading

theorem left_after_dispatch {r : SchedulerRun S} {e : S.ExecutorIndex} {t : S.Task}
    (seen : (r.dispatchLook e).backingOff e = false) (free : r.dispatch.hasFreeSlot e = true)
    (mem : t ∈ r.dispatch.readyQueue.tasks)
    (accepts : (S.executor e).accepts (S.graph.spec t) = true) :
    S.policy.retry.preferDifferentExecutor = true ∧ e ∈ (r.dispatch.tasks t).avoid ∧
      ∃ other, other ∉ (r.dispatch.tasks t).avoid ∧ r.dispatch.Usable other t := by
  have left := served_dispatch seen free t mem
  obtain ⟨prefers, avoided, others⟩ := left_of_not_takes left accepts
  obtain ⟨other, -, usable, fresh, accepts'⟩ := hasOtherUsableExecutor_iff.mp others
  exact ⟨prefers, avoided, other, fresh, usable, accepts'⟩

theorem validateExecutorsFrom_slots {ids : List String} {executors : List Executor}
    (valid : validateExecutorsFrom ids executors = .ok ()) {executor : Executor}
    (mem : executor ∈ executors) : 0 < executor.slots := by
  induction executors generalizing ids with
  | nil => cases mem
  | cons first rest ih =>
    obtain ⟨_, slots, valid⟩ := bind_eq_ok.mp valid
    obtain ⟨_, -, valid⟩ := bind_eq_ok.mp valid
    cases List.mem_cons.mp mem with
    | inl same =>
      subst same
      exact Nat.pos_of_ne_zero (of_decide_eq_true (require_eq_ok.mp slots))
    | inr later => exact ih valid later

theorem slots_pos (S : SchedulerSetup) (e : S.ExecutorIndex) : 0 < (S.executor e).slots := by
  obtain ⟨_, -, valid⟩ := bind_eq_ok.mp S.executorsValid
  exact validateExecutorsFrom_slots valid (List.mem_ofFn.mpr ⟨e, rfl⟩)

/-- What the dead-end check leaves as it is. -/
theorem anyBackingOff_run (executors : List S.ExecutorIndex) (r : SchedulerRun S) :
    (anyBackingOff executors r).2.tasks = r.tasks ∧
      (anyBackingOff executors r).2.executors = r.executors ∧
      (anyBackingOff executors r).2.readyQueue = r.readyQueue := by
  induction executors generalizing r with
  | nil => exact ⟨rfl, rfl, rfl⟩
  | cons e rest ih =>
    rw [anyBackingOff]
    split
    · exact ih r
    · split
      · exact ⟨rfl, rfl, rfl⟩
      · exact ih r.tick

theorem DeadEnd.run {s : SchedulerRun S} {t : RunState S} (h : DeadEnd ⟨s, .dispatched⟩ t) :
    t.run.executors = s.executors ∧ t.run.readyQueue = s.readyQueue := by
  have checked := anyBackingOff_run (List.finRange S.executorCount) s
  rw [h.outcome]
  show (failBuild _ _ _ _).executors = _ ∧ (failBuild _ _ _ _).readyQueue = _
  unfold failBuild
  split
  · exact checked.2
  · exact checked.2

/-- A run that gives up does so at a dead end; every usable executor was backing
off when dispatch looked at it, or leaves its tasks to one that was. -/
theorem explained_of_deadEnd {resumed : List CommittedResult} {s : SchedulerRun S} {t : RunState S}
    (reach : (schedulerSystem S resumed).Reachable ⟨s, .head⟩)
    (step : (schedulerSystem S resumed).step ⟨s, .head⟩ ⟨s.dispatch, .dispatched⟩)
    (deadEnd : DeadEnd ⟨s.dispatch, .dispatched⟩ t) : ExplainedDeadEnd resumed s t := by
  refine ⟨reach, step, deadEnd, ?_⟩
  obtain ⟨executors, queue⟩ := deadEnd.run
  have good := reachable_good (reach.next step) (by simp)
  have noLease : s.dispatch.leases.entries = [] := Lib.OrderedMap.isEmpty_iff.mp deadEnd.empty
  -- no lease is left, so every usable executor has a free slot
  have free : ∀ e, (s.dispatch.executors e).quarantined = false →
      s.dispatch.hasFreeSlot e = true := by
    intro e usable
    have active : (s.dispatch.executors e).active = 0 := by
      have count := good.consistent.active e
      change _ = s.dispatch.leases.entries.countP _ at count
      rw [noLease] at count
      exact count
    refine (hasFreeSlot_iff _ e).mpr ⟨usable, ?_⟩
    change (s.dispatch.executors e).active < _
    rw [active]
    exact slots_pos S e
  have lookedAt : ∀ e, (s.dispatch.executors e).quarantined = false →
      (s.dispatch.checkLook e).backingOff e = false := fun e usable =>
    anyBackingOff_looks deadEnd.notBackingOff (List.mem_finRange e) usable
  rintro task mem ⟨e, usable⟩
  simp only [Usable, executors, queue] at mem usable ⊢
  cases seen : (s.dispatchLook e).backingOff e with
  | true => exact ⟨e, usable, seen, lookedAt e usable.1⟩
  | false =>
    obtain ⟨-, -, other, fresh, usable'⟩ := left_after_dispatch seen (free e usable.1) mem usable.2
    refine ⟨other, usable', ?_, lookedAt other usable'.1⟩
    cases seen' : (s.dispatchLook other).backingOff other with
    | true => rfl
    | false =>
      obtain ⟨-, avoided, -⟩ := left_after_dispatch seen' (free other usable'.1) mem usable'.2
      exact absurd avoided fresh

/-- A dispatched state comes from the loop head that dispatched. -/
theorem dispatched_from {resumed : List CommittedResult} {s : RunState S}
    (reach : (schedulerSystem S resumed).Reachable s) (stage : s.stage = .dispatched) :
    ∃ h, (schedulerSystem S resumed).Reachable ⟨h, .head⟩ ∧
      (schedulerSystem S resumed).step ⟨h, .head⟩ s ∧ s = ⟨h.dispatch, .dispatched⟩ := by
  refine reach.invariant (P := fun s => s.stage = .dispatched → ∃ h,
    (schedulerSystem S resumed).Reachable ⟨h, .head⟩ ∧
      (schedulerSystem S resumed).step ⟨h, .head⟩ s ∧ s = ⟨h.dispatch, .dispatched⟩) ?_ ?_ stage
  · rintro s ⟨r, -, rfl⟩ stage
    cases stage
  · rintro ⟨r, at_⟩ ⟨r', stage'⟩ reach - step stage
    obtain rfl : stage' = .dispatched := stage
    obtain ⟨input, advanced⟩ := id step
    unfold RunState.advance at advanced
    cases at_ with
    | head => exact ⟨r, reach, step, by rw [dispatched_eq step]⟩
    | dispatched =>
      simp only at advanced
      split_ifs at advanced <;> cases advanced
    | applying events => cases events <;> cases advanced
    | finished => cases advanced

theorem gaveUp_explained {resumed : List CommittedResult} {t : RunState S}
    (reach : (schedulerSystem S resumed).Reachable t) :
    t.run.ledger.NoDeadEnd ∨ ∃ s, ExplainedDeadEnd resumed s t := by
  refine reach.invariant (P := fun t => t.run.ledger.NoDeadEnd ∨
    ∃ s, ExplainedDeadEnd resumed s t) ?_ ?_
  · rintro s ⟨r, applied, rfl⟩
    refine .inl ((quiet_prepare r).noDeadEnd fun f same => ?_)
    rw [(resumed_start applied).failure] at same
    cases same
  · rintro s t reach before ⟨input, advanced⟩
    cases before with
    | inr explained =>
      obtain ⟨h, explained⟩ := explained
      rw [explained.deadEnd.outcome] at advanced
      cases advanced
    | inl none =>
      rcases advance_cases (reachable_good reach) advanced with
        (quiet | deadEnd) | ⟨-, running, -, -, rfl⟩ | ⟨_, _, _, _, -, -, -, commits⟩
      · exact .inl (quiet.noDeadEnd none)
      · obtain ⟨h, reachH, step, rfl⟩ := dispatched_from reach deadEnd.stage
        exact .inr ⟨h, explained_of_deadEnd reachH step deadEnd⟩
      · exact .inl ((quiet_abandonOutstandingLeases (s.run.setStatus .succeeded)).noDeadEnd none)
      · exact .inl commits.noDeadEnd

/-- Dead ends and stalls of every run, whatever its clock does. -/
theorem reachable_progress (S : SchedulerSetup) (resumed : List CommittedResult) :
    Progress S resumed where
  deadEnd t reach := by
    rintro ⟨f, failed, kind⟩
    cases gaveUp_explained reach with
    | inl none => exact absurd kind (none f failed)
    | inr explained => exact explained
  noStall s s' _ step e outside free t mem accepts := by
    obtain rfl := dispatched_eq step
    exact left_after_dispatch outside.look free mem accepts

/-! ## Both exceptions occur -/

/-- One executor, and a clock that stands still until the seventh reading. -/
def lapseSetup : SchedulerSetup where
  codec := sampleCodec
  policy := {}
  graph := soloGraph
  executorCount := 1
  executor _ := { id := "local", slots := 1 }
  sinkError _ := none
  clock n := if n < 6 then 0 else 2000
  policyValid := validateSchedulerPolicy_default
  executorsValid := soloSetup.executorsValid

/-- The run after the executor rejected its lease: it backs off until 2000. -/
def lapseRejected : SchedulerRun lapseSetup :=
  let dispatched := (SchedulerRun.start lapseSetup).prepare.dispatch
  let waited := dispatched.tick.perform (.waited dispatched.nextWait)
  (waited.apply (.rejected "lease_1" "queue_full" "try later")).expireLeases

/-- The dead-end check reads 2000 where the dispatch before it read 0. -/
def lapseEnd : RunState lapseSetup where
  run := ((anyExecutorBackingOff lapseRejected.dispatch).2.failBuild .noUsableExecutor ""
    kNoUsableExecutorMessage).abandonOutstandingLeases
  stage := .finished

theorem lapseEnd_reachable : (schedulerSystem lapseSetup []).Reachable lapseEnd := by
  have head : (schedulerSystem lapseSetup []).Reachable
      ⟨(SchedulerRun.start lapseSetup).prepare, .head⟩ := .start ⟨_, rfl, rfl⟩
  have dispatched : (schedulerSystem lapseSetup []).Reachable
      ⟨(SchedulerRun.start lapseSetup).prepare.dispatch, .dispatched⟩ := head.next ⟨{}, rfl⟩
  have waited := dispatched.next
    ⟨{ events := [.rejected "lease_1" "queue_full" "try later"] }, rfl⟩
  have rejected := waited.next ⟨{}, rfl⟩
  have again : (schedulerSystem lapseSetup []).Reachable ⟨lapseRejected, .head⟩ :=
    rejected.next ⟨{}, rfl⟩
  have idle : (schedulerSystem lapseSetup []).Reachable ⟨lapseRejected.dispatch, .dispatched⟩ := by
    refine again.next ⟨{}, ?_⟩
    have running : lapseRejected.failed = false ∧ lapseRejected.readySet.allComplete = false := by
      decide
    simp [RunState.advance, running]
  refine idle.next ⟨{}, ?_⟩
  have deadEnd : lapseRejected.dispatch.leases.isEmpty = true ∧
      (anyExecutorBackingOff lapseRejected.dispatch).1 = false := by
    decide
  simp [RunState.advance, deadEnd, lapseEnd]

/-- Two independent tasks. -/
def pairGraph : TaskGraph where
  nodes :=
    [{ spec := { soloSpec with taskId := "left" }, orderKey := { lane := "left" } },
      { spec := { soloSpec with taskId := "right" }, orderKey := { lane := "right" } }]
  uniqueIds := by decide
  uniqueKeys := by decide
  ascending := by simp [soloSpec]
  closed := by simp [soloSpec]
  acyclic := by decide

def spareSetup : SchedulerSetup where
  codec := sampleCodec
  policy := {}
  graph := pairGraph
  executorCount := 2
  executor := duelSetup.executor
  sinkError _ := none
  clock n := n
  policyValid := validateSchedulerPolicy_default
  executorsValid := duelSetup.executorsValid

/-- The run after the first executor lost its task; the second is still busy. -/
def spareLost : SchedulerRun spareSetup :=
  let dispatched := (SchedulerRun.start spareSetup).prepare.dispatch
  let waited := dispatched.tick.perform (.waited dispatched.nextWait)
  (waited.apply (.failed "lease_1" .executorLost "connection reset")).expireLeases

theorem spareLost_reachable : (schedulerSystem spareSetup []).Reachable ⟨spareLost, .head⟩ := by
  have head : (schedulerSystem spareSetup []).Reachable
      ⟨(SchedulerRun.start spareSetup).prepare, .head⟩ := .start ⟨_, rfl, rfl⟩
  have dispatched : (schedulerSystem spareSetup []).Reachable
      ⟨(SchedulerRun.start spareSetup).prepare.dispatch, .dispatched⟩ := head.next ⟨{}, rfl⟩
  have waited := dispatched.next
    ⟨{ events := [.failed "lease_1" .executorLost "connection reset"] }, rfl⟩
  exact (waited.next ⟨{}, rfl⟩).next ⟨{}, rfl⟩

theorem spareLost_dispatches : (schedulerSystem spareSetup []).step ⟨spareLost, .head⟩
    ⟨spareLost.dispatch, .dispatched⟩ := by
  refine ⟨{}, ?_⟩
  have running : spareLost.failed = false ∧ spareLost.readySet.allComplete = false := by
    decide
  simp [RunState.advance, running]

/-- A run gives up although its executor was only backing off, and a free
executor leaves a task it failed to a busy one. -/
theorem deadEnd_and_stall :
    (Monotone lapseSetup.clock ∧ ¬ NoSpuriousDeadEnd lapseSetup []) ∧
      (Monotone spareSetup.clock ∧ ¬ NoStall spareSetup []) := by
  refine ⟨⟨?_, fun claim => ?_⟩, ?_, fun claim => ?_⟩
  · intro a b le
    show (if a < 6 then (0 : Int) else 2000) ≤ if b < 6 then 0 else 2000
    split_ifs <;> omega
  · have gaveUp : lapseEnd.run.GaveUp :=
      ⟨⟨.noUsableExecutor, "", kNoUsableExecutorMessage⟩, by decide, rfl⟩
    have queued : (⟨0, by decide⟩ : lapseSetup.Task) ∈ lapseEnd.run.readyQueue.tasks := by
      decide
    have usable : lapseEnd.run.Usable (0 : Fin 1) (⟨0, by decide⟩ : lapseSetup.Task) :=
      ⟨by decide, rfl⟩
    exact claim lapseEnd lapseEnd_reachable gaveUp _ queued _ usable
  · intro a b le
    exact Int.ofNat_le.mpr le
  · have outside : OutsideBackoff spareLost spareLost.dispatch (0 : Fin 2) := by
      intro reading _ _
      exact Int.natCast_nonneg reading
    have queued : (⟨0, by decide⟩ : spareSetup.Task) ∈ spareLost.dispatch.readyQueue.tasks := by
      decide
    have refused := claim spareLost _ spareLost_reachable spareLost_dispatches (0 : Fin 2) outside
      (by decide) _ queued
    cases refused

end Svp.Exec

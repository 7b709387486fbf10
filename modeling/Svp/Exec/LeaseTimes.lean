import Svp.Exec.SchedulerLeases

/-!
# Lease expiries and attempt deadlines

A lease's duration is saturated at the largest 64-bit count, and then added to a
clock reading by a sum that is not. The sum is the exact one as long as it fits
(`Fits`): near the end of the clock, or for an estimate whose duration is near
saturation, it wraps and the expiry lies before the grant.
-/

namespace Svp.Exec

/-! ## Durations -/

/-- From a clock reading on there is room for
`max(floor, factor × estimated_seconds)`. -/
def Fits (now floor : Int) (factor estimatedSeconds : Nat) : Prop :=
  now + floor ≤ kInt64Max ∧
    (now ≤ 0 ∨ now + (estimatedSeconds * kMsPerSecond * factor : Nat) ≤ kInt64Max)

instance (now floor : Int) (factor estimatedSeconds : Nat) :
    Decidable (Fits now floor factor estimatedSeconds) :=
  inferInstanceAs (Decidable (_ ∧ _))

/-- The scaled estimate, capped at the largest count and raised to the floor. -/
theorem scaledWithFloor_eq {factor : Nat} (positive : 0 < factor) (floor : Int)
    (estimatedSeconds : Nat) : scaledWithFloor floor factor estimatedSeconds =
      max ((min (estimatedSeconds * kMsPerSecond * factor) kInt64Max : Nat) : Int) floor := by
  have small : estimatedSeconds ≤ kInt64Max / kMsPerSecond / factor ↔
      estimatedSeconds * kMsPerSecond * factor ≤ kInt64Max := by
    rw [Nat.le_div_iff_mul_le positive, Nat.le_div_iff_mul_le (by decide), Nat.mul_right_comm]
  unfold scaledWithFloor
  simp only [small]
  split
  · next fits => rw [min_eq_left fits]
  · next large => rw [min_eq_right (not_le.mp large).le]

theorem scaledWithFloor_fits {factor : Nat} (positive : 0 < factor) (now floor : Int)
    (estimatedSeconds : Nat) :
    now + (scaledWithFloor floor factor estimatedSeconds : Int) ≤ kInt64Max ↔
      Fits now floor factor estimatedSeconds := by
  rw [scaledWithFloor_eq positive, Fits]
  -- a saturated estimate fits exactly from the readings that are not positive
  generalize estimatedSeconds * kMsPerSecond * factor = scaled
  omega

theorem scaledWithFloor_pos {floor : Millis} (positive : 0 < floor) (factor estimatedSeconds : Nat) :
    0 < scaledWithFloor floor factor estimatedSeconds :=
  lt_of_lt_of_le positive (le_max_right _ _)

theorem scaledWithFloor_mono {floor floor' : Millis} {factor factor' : Nat}
    (positive : 0 < factor) (floors : floor ≤ floor') (factors : factor ≤ factor')
    (estimatedSeconds : Nat) : scaledWithFloor floor factor estimatedSeconds ≤
      scaledWithFloor floor' factor' estimatedSeconds := by
  rw [scaledWithFloor_eq positive, scaledWithFloor_eq (positive.trans_le factors)]
  refine max_le_max (Int.ofNat_le.mpr (min_le_min ?_ le_rfl)) floors
  exact Nat.mul_le_mul_left _ factors

/-- A sum of 64-bit counts is the exact one where that is a 64-bit count. -/
theorem addMillis_eq_iff {now duration : Int} (low : -(2 ^ 63) ≤ now) (positive : 0 < duration) :
    addMillis now duration = now + duration ↔ now + duration ≤ kInt64Max := by
  have largest : (kInt64Max : Int) = 2 ^ 63 - 1 := rfl
  rw [addMillis, largest]
  constructor
  · intro exact
    have below : (now + duration).bmod (2 ^ 64) < 2 ^ 63 := Int.bmod_lt (by decide)
    rw [exact] at below
    omega
  · intro fits
    exact Int.bmod_eq_of_le (by norm_num; omega) (by norm_num; omega)

/-! ## Policies -/

/-- What `validateLeasePolicy` checks of floors and factors. -/
structure LeasePolicy.Valid (policy : LeasePolicy) : Prop where
  floor : 0 < policy.leaseFloor
  factor : 0 < policy.leaseFactor
  deadlineFloor : policy.leaseFloor ≤ policy.attemptDeadlineFloor
  deadlineFactor : policy.leaseFactor ≤ policy.attemptDeadlineFactor

theorem validateLeasePolicy_valid {policy : LeasePolicy}
    (valid : validateLeasePolicy policy = .ok ()) : policy.Valid := by
  obtain ⟨positive, valid⟩ := check_bind_eq_ok.mp valid
  obtain ⟨-, deadline⟩ := check_bind_eq_ok.mp valid
  obtain ⟨floor, -, factor⟩ := of_decide_eq_true (require_eq_ok.mp positive)
  obtain ⟨deadlineFloor, deadlineFactor⟩ := of_decide_eq_true (require_eq_ok.mp deadline)
  exact ⟨floor, Nat.pos_of_ne_zero factor, deadlineFloor, deadlineFactor⟩

/-- Every lease policy of a valid scheduler policy is valid. -/
theorem leasePolicyFor_valid {policy : SchedulerPolicy}
    (valid : validateSchedulerPolicy policy = .ok ()) (taskType : String) :
    (leasePolicyFor policy taskType).Valid := by
  obtain ⟨lease, valid⟩ := check_bind_eq_ok.mp valid
  obtain ⟨-, valid⟩ := check_bind_eq_ok.mp valid
  obtain ⟨overrides, -⟩ := check_bind_eq_ok.mp valid
  unfold leasePolicyFor
  split
  · exact validateLeasePolicy_valid lease
  · next override found =>
    have checked := forM_eq_ok.mp overrides _ (Lib.OrderedMap.find?_eq_some.mp found)
    obtain ⟨lease, -⟩ := check_bind_eq_ok.mp checked
    exact validateLeasePolicy_valid lease

/-! ## What a run writes -/

variable {S : SchedulerSetup}

namespace SchedulerSetup

/-- The lease rules of a task. -/
def leasePolicy (S : SchedulerSetup) (t : S.Task) : LeasePolicy :=
  leasePolicyFor S.policy (S.graph.spec t).taskType

def estSeconds (S : SchedulerSetup) (t : S.Task) : Nat := (S.graph.spec t).resources.estSeconds

end SchedulerSetup

namespace SchedulerRun

/-- The times of a lease granted now: the reading plus the durations of the
policy, neither before the reading, and the deadline not before the expiry. -/
structure GrantTimes (r : SchedulerRun S) (written : LeaseRecord S) : Prop where
  grantedAt : written.grantedAt = r.now
  expiresAt : written.expiresAt =
    r.now + leaseDuration (S.leasePolicy written.task) (S.estSeconds written.task)
  deadlineAt : written.deadlineAt =
    r.now + attemptDeadline (S.leasePolicy written.task) (S.estSeconds written.task)
  expiryAfter : r.now ≤ written.expiresAt
  deadlineAfter : r.now ≤ written.deadlineAt
  ordered : written.expiresAt ≤ written.deadlineAt

/-- The expiry of a lease renewed now. -/
structure HeartbeatTimes (r : SchedulerRun S) (written : LeaseRecord S) : Prop where
  expiresAt : written.expiresAt =
    r.now + leaseDuration (S.leasePolicy written.task) (S.estSeconds written.task)
  expiryAfter : r.now ≤ written.expiresAt

/-- There is room for the attempt deadline of a task granted now. -/
def DeadlineFits (r : SchedulerRun S) (t : S.Task) : Prop :=
  Fits r.now (S.leasePolicy t).attemptDeadlineFloor (S.leasePolicy t).attemptDeadlineFactor
    (S.estSeconds t)

/-- There is room for the lease of a task renewed now. -/
def LeaseFits (r : SchedulerRun S) (t : S.Task) : Prop :=
  Fits r.now (S.leasePolicy t).leaseFloor (S.leasePolicy t).leaseFactor (S.estSeconds t)

theorem newLease_times_iff {r : SchedulerRun S} (low : -(2 ^ 63) ≤ r.now) (t : S.Task)
    (e : S.ExecutorIndex) (speculative : Bool) :
    r.GrantTimes (r.newLease t e speculative) ↔ r.DeadlineFits t := by
  have valid : (S.leasePolicy t).Valid := leasePolicyFor_valid S.policyValid _
  have factor := valid.factor.trans_le valid.deadlineFactor
  have positive : 0 < leaseDuration (S.leasePolicy t) (S.estSeconds t) :=
    scaledWithFloor_pos valid.floor _ _
  have longer : leaseDuration (S.leasePolicy t) (S.estSeconds t) ≤
      attemptDeadline (S.leasePolicy t) (S.estSeconds t) :=
    scaledWithFloor_mono valid.factor valid.deadlineFloor valid.deadlineFactor _
  have fits : r.now + attemptDeadline (S.leasePolicy t) (S.estSeconds t) ≤ kInt64Max ↔
      r.DeadlineFits t := scaledWithFloor_fits factor _ _ _
  rw [← fits]
  constructor
  · intro times
    exact (addMillis_eq_iff low (positive.trans_le longer)).mp times.deadlineAt
  · intro room
    -- the deadline fits, so the shorter lease does too
    have deadline := (addMillis_eq_iff low (positive.trans_le longer)).mpr room
    have expiry := (addMillis_eq_iff low positive).mpr
      (le_trans (Int.add_le_add_left longer _) room)
    refine ⟨rfl, expiry, deadline, le_of_le_of_eq ?_ expiry.symm, le_of_le_of_eq ?_ deadline.symm,
      le_of_eq_of_le expiry (le_of_le_of_eq ?_ deadline.symm)⟩
    · exact le_add_of_nonneg_right positive.le
    · exact le_add_of_nonneg_right (positive.le.trans longer)
    · exact Int.add_le_add_left longer _

/-- The lease a heartbeat renews. -/
theorem find?_onHeartbeat {r : SchedulerRun S} {id : String} {lease : LeaseRecord S}
    (found : r.leases.find? id = some lease) : (r.onHeartbeat id).leases.find? id =
      some { lease with expiresAt := addMillis r.now lease.lease.duration } := by
  unfold onHeartbeat
  rw [found]
  exact (Lib.OrderedMap.find?_insert _ _ _ _).trans (if_pos rfl)

theorem renewed_times_iff {r : SchedulerRun S} (low : -(2 ^ 63) ≤ r.now) {lease : LeaseRecord S}
    (duration : lease.lease.duration =
      leaseDuration (S.leasePolicy lease.task) (S.estSeconds lease.task)) :
    r.HeartbeatTimes { lease with expiresAt := addMillis r.now lease.lease.duration } ↔
      r.LeaseFits lease.task := by
  have valid : (S.leasePolicy lease.task).Valid := leasePolicyFor_valid S.policyValid _
  have positive : 0 < leaseDuration (S.leasePolicy lease.task) (S.estSeconds lease.task) :=
    scaledWithFloor_pos valid.floor _ _
  have fits : r.now + leaseDuration (S.leasePolicy lease.task) (S.estSeconds lease.task) ≤
      kInt64Max ↔ r.LeaseFits lease.task := scaledWithFloor_fits valid.factor _ _ _
  rw [← fits, ← addMillis_eq_iff low positive, duration]
  constructor
  · exact fun times => times.expiresAt
  · intro exact
    exact ⟨exact, le_of_le_of_eq (le_add_of_nonneg_right positive.le) exact.symm⟩

end SchedulerRun

open SchedulerRun Ledger

/-- A lease keeps the duration its task's policy gave it. -/
theorem reachable_durations {resumed : List CommittedResult} {s : RunState S}
    (reach : (schedulerSystem S resumed).Reachable s) :
    ∀ p ∈ s.run.leases.entries,
      p.2.lease.duration = leaseDuration (S.leasePolicy p.2.task) (S.estSeconds p.2.task) :=
  reachable_leases
    (P := fun lease =>
      lease.lease.duration = leaseDuration (S.leasePolicy lease.task) (S.estSeconds lease.task))
    (fun _ _ _ _ => rfl) (fun _ _ same => same) reach

/-- What is written at a grant is right exactly where the attempt deadline fits,
and what is written at a heartbeat exactly where the lease does. The clock may
show every 64-bit count. -/
theorem lease_times_iff (S : SchedulerSetup) (clock : ∀ n, -(2 ^ 63) ≤ S.clock n) :
    (∀ (r : SchedulerRun S) (t : S.Task) (e : S.ExecutorIndex) (speculative : Bool),
      ∃ written, (r.grant t e speculative).leases.find? (leaseName r.nextLeaseNumber) =
          some written ∧ written.task = t ∧ (r.GrantTimes written ↔ r.DeadlineFits t)) ∧
    ∀ (resumed : List CommittedResult) (s : RunState S),
      (schedulerSystem S resumed).Reachable s → ∀ id lease,
        s.run.leases.find? id = some lease →
          ∃ written, (s.run.onHeartbeat id).leases.find? id = some written ∧
            written.task = lease.task ∧
              (s.run.HeartbeatTimes written ↔ s.run.LeaseFits lease.task) := by
  constructor
  · intro r t e speculative
    refine ⟨r.newLease t e speculative, ?_, rfl, newLease_times_iff (clock _) t e speculative⟩
    exact (Lib.OrderedMap.find?_insert _ _ _ _).trans (if_pos rfl)
  · intro resumed s reach id lease found
    refine ⟨_, find?_onHeartbeat found, rfl, renewed_times_iff (clock _) ?_⟩
    exact reachable_durations reach _ (Lib.OrderedMap.find?_eq_some.mp found)

theorem lease_times_iff_solo : ∃ written,
    (soloStart.run.tick.grant (0 : Fin 1) (0 : Fin 1) false).leases.find? "lease_1" =
      some written ∧ soloStart.run.tick.GrantTimes written := by
  have clock : ∀ n, -(2 ^ 63) ≤ soloSetup.clock n := fun n =>
    le_trans (by decide) (Int.natCast_nonneg n)
  obtain ⟨written, found, -, times⟩ :=
    (lease_times_iff soloSetup clock).1 soloStart.run.tick (0 : Fin 1) (0 : Fin 1) false
  exact ⟨written, found, times.mpr ⟨by decide, .inr (by decide)⟩⟩

/-! A task whose estimate in milliseconds is past the largest count, granted one
millisecond after the clock's origin. -/

def longSpec : TaskSpec := { soloSpec with resources := { estSeconds := 9223372036854776 } }

def longGraph : TaskGraph where
  nodes := [{ spec := longSpec, orderKey := { lane := "lane" } }]
  uniqueIds := by decide
  uniqueKeys := by decide
  ascending := by simp [longSpec, soloSpec]
  closed := by simp [longSpec, soloSpec]
  acyclic := by decide

def longSetup : SchedulerSetup := { soloSetup with graph := longGraph, sinkError := fun _ => none }

def longStart : RunState longSetup := ⟨(SchedulerRun.start longSetup).prepare, .head⟩

/-- The lease ends before it is granted. -/
theorem longEstimate_wraps :
    (schedulerSystem longSetup []).Reachable
      ⟨longStart.run.tick.grant (0 : Fin 1) (0 : Fin 1) false, .dispatched⟩ ∧
    ∃ written, (longStart.run.tick.grant (0 : Fin 1) (0 : Fin 1) false).leases.find? "lease_1" =
        some written ∧ written.grantedAt = 1 ∧ written.expiresAt = -(2 ^ 63) ∧
      written.deadlineAt = -(2 ^ 63) ∧ ¬ longStart.run.tick.GrantTimes written := by
  refine ⟨.next (.start ⟨_, rfl, rfl⟩ : (schedulerSystem longSetup []).Reachable longStart)
    ⟨{}, rfl⟩, longStart.run.tick.newLease (0 : Fin 1) (0 : Fin 1) false, ?_, rfl, rfl, rfl, ?_⟩
  · exact (Lib.OrderedMap.find?_insert _ _ _ _).trans (if_pos rfl)
  · intro times
    exact absurd times.expiryAfter (by decide)

end Svp.Exec

import Svp.Exec.Error
import Svp.Lib.OrderedMap

/-!
# Lease, retry and scheduler policies

Durations are milliseconds; a policy is usable only after
`validateSchedulerPolicy`.
-/

namespace Svp.Exec

/-- `std::chrono::milliseconds`, a signed 64-bit count. -/
abbrev Millis := Int

def kInt64Max : Nat := 2 ^ 63 - 1

/-- Sum of two counts as 64-bit two's complement. -/
def addMillis (a b : Millis) : Millis := (a + b).bmod (2 ^ 64)

def kMinHeartbeatsPerLeaseFloor : Int := 3

structure LeasePolicy where
  leaseFloor : Millis := 30000
  leaseFactor : Nat := 2
  heartbeatInterval : Millis := 5000
  attemptDeadlineFloor : Millis := 600000
  attemptDeadlineFactor : Nat := 8
deriving DecidableEq

def kDefaultMaxAttempts : Nat := 3

structure RetryPolicy where
  maxAttempts : Nat := kDefaultMaxAttempts
  preferDifferentExecutor : Bool := true
  quarantineAfterLossEvents : Nat := 3
deriving DecidableEq

/-- Lease and retry rules of one task type. -/
structure TaskTypePolicy where
  lease : LeasePolicy := {}
  maxAttempts : Nat := kDefaultMaxAttempts
deriving DecidableEq

structure SchedulerPolicy where
  lease : LeasePolicy := {}
  retry : RetryPolicy := {}
  taskTypes : Lib.OrderedMap String TaskTypePolicy := .empty
  speculativeDuplicates : Bool := false
  maxIdleWait : Millis := 50
  rejectionBackoff : Millis := 2000

def validateLeasePolicy (policy : LeasePolicy) : Except ExecError Unit := do
  require (0 < policy.leaseFloor ∧ 0 < policy.heartbeatInterval ∧ policy.leaseFactor ≠ 0)
    .invalidValue ("lease policy needs a positive lease_floor and " ++
      "heartbeat_interval and a lease_factor >= 1")
  require (policy.heartbeatInterval * kMinHeartbeatsPerLeaseFloor < policy.leaseFloor)
    .invalidValue ("lease policy heartbeat_interval must be less than " ++
      "lease_floor / 3 (plan §4.4)")
  require (policy.leaseFloor ≤ policy.attemptDeadlineFloor ∧
      policy.leaseFactor ≤ policy.attemptDeadlineFactor)
    .invalidValue ("lease policy attempt deadline must not be shorter than the lease: " ++
      "attempt_deadline_floor >= lease_floor and " ++
      "attempt_deadline_factor >= lease_factor")

def validateRetryPolicy (policy : RetryPolicy) : Except ExecError Unit :=
  require (policy.maxAttempts ≠ 0 ∧ policy.quarantineAfterLossEvents ≠ 0) .invalidValue
    "retry policy needs max_attempts >= 1 and quarantine_after_loss_events >= 1"

def validateTaskTypePolicy (retry : RetryPolicy) (entry : String × TaskTypePolicy) :
    Except ExecError Unit := do
  validateLeasePolicy entry.2.lease
  validateRetryPolicy { retry with maxAttempts := entry.2.maxAttempts }
  require (entry.1 ≠ "") .invalidValue "scheduler policy task-type overrides need a task type"

def validateSchedulerPolicy (policy : SchedulerPolicy) : Except ExecError Unit := do
  validateLeasePolicy policy.lease
  validateRetryPolicy policy.retry
  policy.taskTypes.entries.forM (validateTaskTypePolicy policy.retry)
  require (0 < policy.maxIdleWait) .invalidValue
    "scheduler policy max_idle_wait must be positive"
  require (0 < policy.rejectionBackoff) .invalidValue
    "scheduler policy rejection_backoff must be positive"

/-- The default policy is usable. -/
theorem validateSchedulerPolicy_default : validateSchedulerPolicy {} = .ok () := rfl

def leasePolicyFor (policy : SchedulerPolicy) (taskType : String) : LeasePolicy :=
  match policy.taskTypes.find? taskType with
  | none => policy.lease
  | some override => override.lease

def maxAttemptsFor (policy : SchedulerPolicy) (taskType : String) : Nat :=
  match policy.taskTypes.find? taskType with
  | none => policy.retry.maxAttempts
  | some override => override.maxAttempts

def kMsPerSecond : Nat := 1000

/-- `max(floor, factor × estimated_seconds)` in milliseconds, saturating. -/
def scaledWithFloor (floor : Millis) (factor estimatedSeconds : Nat) : Millis :=
  let scaledMs :=
    if estimatedSeconds ≤ kInt64Max / kMsPerSecond / factor then
      estimatedSeconds * kMsPerSecond * factor
    else kInt64Max
  max (scaledMs : Int) floor

def leaseDuration (policy : LeasePolicy) (estimatedSeconds : Nat) : Millis :=
  scaledWithFloor policy.leaseFloor policy.leaseFactor estimatedSeconds

def attemptDeadline (policy : LeasePolicy) (estimatedSeconds : Nat) : Millis :=
  scaledWithFloor policy.attemptDeadlineFloor policy.attemptDeadlineFactor estimatedSeconds

end Svp.Exec

import Svp.Exec.WorkerFrames

/-!
# The leases of one worker session and the frames that answer them

`WorkerSessionLeases` is the coordinator's record of the leases a session holds;
`pumpWorkerFrame` is one round of the loop that reads the worker's frames. The
main result is the account of a round (`pumpWorkerFrame_account`): for every
lease, what the round answers and what the session still owes afterwards add up
to what it owed before.
-/

namespace Svp.Exec

open Lib (OrderedMap)

/-! ## Answers -/

/-- The event is a terminal one (finished, failed or rejected) of the lease. -/
def InboxEvent.answers (leaseId : String) : InboxEvent → Bool
  | .heartbeat _ => false
  | .finished id _ => id == leaseId
  | .failed id _ _ => id == leaseId
  | .rejected id _ _ => id == leaseId

/-- How many of the events answer the lease. -/
def answerCount (events : List InboxEvent) (leaseId : String) : Nat :=
  events.countP (InboxEvent.answers leaseId)

@[simp] theorem answerCount_nil (leaseId : String) : answerCount [] leaseId = 0 := rfl

@[simp] theorem answerCount_append (first second : List InboxEvent) (leaseId : String) :
    answerCount (first ++ second) leaseId =
      answerCount first leaseId + answerCount second leaseId :=
  List.countP_append

/-! ## The lease table -/

structure Outstanding where
  taskId : String
  attempt : Nat
  cancelled : Bool := false
deriving DecidableEq

/-- The leases one worker session holds, by lease id. -/
abbrev WorkerSessionLeases := OrderedMap String Outstanding

namespace WorkerSessionLeases

def add (leases : WorkerSessionLeases) (leaseId taskId : String) (attempt : Nat) :
    WorkerSessionLeases :=
  leases.insert leaseId { taskId, attempt }

def markCancelled (leases : WorkerSessionLeases) (leaseId : String) : WorkerSessionLeases :=
  match leases.find? leaseId with
  | none => leases
  | some lease => leases.insert leaseId { lease with cancelled := true }

def isLive (leases : WorkerSessionLeases) (leaseId : String) : Bool :=
  match leases.find? leaseId with
  | none => false
  | some lease => !lease.cancelled

/-- Removes the lease a RESULT belongs to, the first in id order whose task and
attempt it names, and returns it unless it was cancelled. -/
def claimResult (leases : WorkerSessionLeases) (result : TaskResult) :
    Except ExecError (Option String × WorkerSessionLeases) :=
  match leases.entries.find? fun entry =>
      entry.2.taskId == result.taskId && entry.2.attempt == result.attempt with
  | some (leaseId, lease) =>
    .ok (if lease.cancelled then none else some leaseId, leases.erase leaseId)
  | none => .error ⟨.frameMalformed, "RESULT for task `" ++ result.taskId ++ "` attempt " ++
      toString result.attempt ++ " matches no lease issued to this worker"⟩

/-- Removes the lease a REJECT names and tells whether it was live. -/
def claimRejected (leases : WorkerSessionLeases) (leaseId : String) :
    Except ExecError (Bool × WorkerSessionLeases) :=
  match leases.find? leaseId with
  | some lease => .ok (!lease.cancelled, leases.erase leaseId)
  | none => .error ⟨.frameMalformed, "REJECT for lease `" ++ leaseId ++
      "` matches no lease issued to this worker"⟩

/-- The leases not cancelled, in id order, and the cleared table. -/
def takeLive (leases : WorkerSessionLeases) : List String × WorkerSessionLeases :=
  ((leases.entries.filter fun entry => !entry.2.cancelled).map Prod.fst, .empty)

/-- 1 for a live lease, 0 for any other id. -/
def owed (leases : WorkerSessionLeases) (leaseId : String) : Nat :=
  if leases.isLive leaseId then 1 else 0

@[simp] theorem owed_empty (leaseId : String) :
    owed (OrderedMap.empty : WorkerSessionLeases) leaseId = 0 := rfl

theorem owed_eq_zero {leases : WorkerSessionLeases} {leaseId : String}
    (absent : leases.find? leaseId = none) : leases.owed leaseId = 0 := by
  simp [owed, isLive, absent]

theorem owed_congr {leases leases' : WorkerSessionLeases} {leaseId : String}
    (same : leases.find? leaseId = leases'.find? leaseId) :
    leases.owed leaseId = leases'.owed leaseId := by
  have live : leases.isLive leaseId = leases'.isLive leaseId := by
    unfold isLive
    rw [same]
  unfold owed
  rw [live]

theorem owed_add (leases : WorkerSessionLeases) (leaseId taskId : String) (attempt : Nat) :
    (leases.add leaseId taskId attempt).owed leaseId = 1 := by
  simp [owed, isLive, add, OrderedMap.find?_insert]

theorem owed_add_ne (leases : WorkerSessionLeases) {leaseId other : String} (taskId : String)
    (attempt : Nat) (ne : other ≠ leaseId) :
    (leases.add leaseId taskId attempt).owed other = leases.owed other :=
  owed_congr (by rw [add, OrderedMap.find?_insert, if_neg ne])

theorem owed_markCancelled (leases : WorkerSessionLeases) (leaseId : String) :
    (leases.markCancelled leaseId).owed leaseId = 0 := by
  unfold markCancelled
  cases found : leases.find? leaseId with
  | none => exact owed_eq_zero found
  | some lease => simp [owed, isLive, OrderedMap.find?_insert]

theorem owed_markCancelled_ne (leases : WorkerSessionLeases) {leaseId other : String}
    (ne : other ≠ leaseId) : (leases.markCancelled leaseId).owed other = leases.owed other := by
  unfold markCancelled
  cases leases.find? leaseId with
  | none => rfl
  | some lease => exact owed_congr (by rw [OrderedMap.find?_insert, if_neg ne])

theorem contains_markCancelled {leases : WorkerSessionLeases} {leaseId other : String}
    (holds : (leases.markCancelled leaseId).contains other = true) :
    leases.contains other = true := by
  unfold markCancelled at holds
  cases found : leases.find? leaseId with
  | none => rwa [found] at holds
  | some lease =>
    rw [found] at holds
    simp only [OrderedMap.contains, OrderedMap.find?_insert] at holds ⊢
    split at holds
    · next same => rw [same, found]; rfl
    · exact holds

/-- Claiming a stored lease leaves the others as they were. -/
theorem owed_erase (leases : WorkerSessionLeases) {leaseId : String} {lease : Outstanding}
    (found : leases.find? leaseId = some lease) (other : String) :
    (if leaseId = other ∧ lease.cancelled = false then 1 else 0) +
      WorkerSessionLeases.owed (leases.erase leaseId) other = leases.owed other := by
  by_cases same : other = leaseId
  · subst same
    simp only [owed, isLive, OrderedMap.find?_erase, found, if_true, true_and]
    cases lease.cancelled <;> simp
  · have different : leaseId ≠ other := fun h => same h.symm
    rw [if_neg fun h => different h.1, zero_add]
    exact owed_congr (by rw [OrderedMap.find?_erase, if_neg same])

theorem contains_erase {leases : WorkerSessionLeases} {leaseId other : String}
    (holds : (leases.erase leaseId).contains other = true) : leases.contains other = true := by
  simp only [OrderedMap.contains, OrderedMap.find?_erase] at holds ⊢
  split at holds
  · cases holds
  · exact holds

/-- Each live lease is taken once. -/
theorem count_takeLive (leases : WorkerSessionLeases) (leaseId : String) :
    leases.takeLive.1.count leaseId = leases.owed leaseId := by
  have unique : leases.takeLive.1.Nodup :=
    leases.keys_nodup.sublist (List.filter_sublist.map Prod.fst)
  rw [unique.count, owed]
  have same : leaseId ∈ leases.takeLive.1 ↔ leases.isLive leaseId = true := by
    simp only [takeLive, List.mem_map, List.mem_filter, Bool.not_eq_true', isLive]
    constructor
    · rintro ⟨⟨id, lease⟩, ⟨mem, live⟩, rfl⟩
      rw [OrderedMap.find?_eq_some.mpr mem]
      simpa using live
    · intro live
      cases found : leases.find? leaseId with
      | none => simp [found] at live
      | some lease =>
        rw [found] at live
        exact ⟨(leaseId, lease), ⟨OrderedMap.find?_eq_some.mp found, by simpa using live⟩, rfl⟩
  simp only [same]

end WorkerSessionLeases

/-! ## Reading the worker's frames -/

/-- How a worker session's frame stream ended, seen from the coordinator. -/
structure WorkerSessionEnd where
  failure : AttemptFailureKind := .executorLost
  reason : String
deriving DecidableEq

/-- What one read of the stream gives. -/
inductive StreamRead
  | frame (frame : Frame)
  | endOfStream
  | failed (error : ExecError)

/-- Where one round of the reading loop leads. -/
inductive PumpRound
  | goesOn
  | delivers (event : InboxEvent)
  | ends (sessionEnd : WorkerSessionEnd)

variable (codec : Codec)

/-- `json::dump` of a body, as text. -/
def dumpText (body : Json) : String :=
  (String.fromUTF8? ⟨(dump codec.json body).toArray⟩).getD ""

/-- The event a frame other than ERROR calls for, and the table after it. The
event is delivered after the lock is released. -/
def handleWorkerFrame (frame : Frame) (leases : WorkerSessionLeases) :
    Except ExecError (Option InboxEvent × WorkerSessionLeases) :=
  match frame.type with
  | .heartbeat => do
    let leaseId ← leaseIdFromHeartbeatFrame frame
    return (if leases.isLive leaseId then some (.heartbeat leaseId) else none, leases)
  | .result => do
    let result ← taskResultFromResultFrame codec frame
    let (leaseId, leases) ← leases.claimResult result
    return (leaseId.map fun id => .finished id { result, payloads := frame.payloads }, leases)
  | .reject => do
    let rejection ← leaseRejectionFromFrame frame
    let (live, leases) ← leases.claimRejected rejection.leaseId
    return (if live then some (.rejected rejection.leaseId rejection.code rejection.message)
      else none, leases)
  | type => .error ⟨.frameMalformed, "worker sent an unexpected " ++ messageTypeName type ++ " frame"⟩

/-- A stream that ends inside a frame is a worker that died mid-write; everything
else is bytes that cannot be accepted. -/
def rejectedStreamEnd (error : ExecError) : WorkerSessionEnd where
  failure := if error.code = .frameTruncated then .executorLost else .invalidResult
  reason := "worker stream rejected: " ++ error.message

/-- One round of `pump_worker_frames`. -/
def pumpWorkerFrame (endOfStreamReason : String) (leases : WorkerSessionLeases) :
    StreamRead → PumpRound × WorkerSessionLeases
  | .endOfStream => (.ends { reason := endOfStreamReason }, leases)
  | .failed error => (.ends (rejectedStreamEnd error), leases)
  | .frame frame =>
    if frame.type = .error then
      (.ends { reason := "worker reported a protocol error: " ++ dumpText codec frame.body }, leases)
    else
      match handleWorkerFrame codec frame leases with
      | .error error => (.ends (rejectedStreamEnd error), leases)
      | .ok (none, leases) => (.goesOn, leases)
      | .ok (some event, leases) => (.delivers event, leases)

/-- The answers a round is about to deliver. -/
def PumpRound.answers (leaseId : String) : PumpRound → Nat
  | .delivers event => answerCount [event] leaseId
  | _ => 0

/-- What a table and the events taken out of it owe a lease stays the same, and
no lease enters the table. -/
structure LeaseAccount (taken : String → Nat) (leases leases' : WorkerSessionLeases) : Prop where
  balance : ∀ id, taken id + leases'.owed id = leases.owed id
  kept : ∀ id, leases'.contains id = true → leases.contains id = true

theorem LeaseAccount.unchanged (leases : WorkerSessionLeases) :
    LeaseAccount (fun _ => 0) leases leases :=
  ⟨fun _ => zero_add _, fun _ holds => holds⟩

/-- Taking one lease out of the table, delivered if it was live. -/
theorem LeaseAccount.claim {leases : WorkerSessionLeases} {leaseId : String} {lease : Outstanding}
    (found : leases.find? leaseId = some lease) {event : Option InboxEvent}
    (answers : ∀ id, answerCount event.toList id =
      if leaseId = id ∧ lease.cancelled = false then 1 else 0) :
    LeaseAccount (answerCount event.toList) leases (leases.erase leaseId) where
  balance id := by rw [answers, leases.owed_erase found]
  kept id holds := WorkerSessionLeases.contains_erase holds

theorem handleWorkerFrame_account {frame : Frame} {leases leases' : WorkerSessionLeases}
    {event : Option InboxEvent}
    (handled : handleWorkerFrame codec frame leases = .ok (event, leases')) :
    LeaseAccount (answerCount event.toList) leases leases' := by
  unfold handleWorkerFrame at handled
  split at handled
  · -- HEARTBEAT: the table stays, and a renewal answers nothing
    obtain ⟨leaseId, -, handled⟩ := bind_eq_ok.mp handled
    cases handled
    have none : answerCount (if leases.isLive leaseId then some (InboxEvent.heartbeat leaseId)
        else none).toList = fun _ => 0 := by
      funext id
      cases leases.isLive leaseId <;> rfl
    rw [none]
    exact LeaseAccount.unchanged leases
  · -- RESULT: the claimed lease leaves the table
    obtain ⟨result, -, handled⟩ := bind_eq_ok.mp handled
    obtain ⟨⟨claimed, rest⟩, claim, handled⟩ := bind_eq_ok.mp handled
    cases handled
    unfold WorkerSessionLeases.claimResult at claim
    split at claim
    · next leaseId lease found =>
      have stored := OrderedMap.find?_eq_some.mpr (List.mem_of_find?_eq_some found)
      cases claim
      refine LeaseAccount.claim stored fun id => ?_
      cases cancelled : lease.cancelled <;>
        simp [answerCount, InboxEvent.answers, List.countP_singleton]
    · cases claim
  · -- REJECT: so does the rejected one
    obtain ⟨rejection, -, handled⟩ := bind_eq_ok.mp handled
    obtain ⟨⟨live, rest⟩, claim, handled⟩ := bind_eq_ok.mp handled
    cases handled
    unfold WorkerSessionLeases.claimRejected at claim
    split at claim
    · next lease stored =>
      cases claim
      refine LeaseAccount.claim stored fun id => ?_
      cases cancelled : lease.cancelled <;>
        simp [answerCount, InboxEvent.answers, List.countP_singleton]
    · cases claim
  · cases handled

theorem pumpWorkerFrame_account (endOfStreamReason : String) (leases : WorkerSessionLeases)
    (read : StreamRead) :
    LeaseAccount
      (fun id => (pumpWorkerFrame codec endOfStreamReason leases read).1.answers id) leases
      (pumpWorkerFrame codec endOfStreamReason leases read).2 := by
  cases read with
  | endOfStream => exact LeaseAccount.unchanged leases
  | failed error => exact LeaseAccount.unchanged leases
  | frame frame =>
    unfold pumpWorkerFrame
    by_cases isError : frame.type = .error
    · simp only [if_pos isError]
      exact LeaseAccount.unchanged leases
    · simp only [if_neg isError]
      cases handled : handleWorkerFrame codec frame leases with
      | error error => exact LeaseAccount.unchanged leases
      | ok outcome =>
        obtain ⟨event, rest⟩ := outcome
        have account := handleWorkerFrame_account codec handled
        cases event with
        | none => exact account
        | some event => exact account

end Svp.Exec

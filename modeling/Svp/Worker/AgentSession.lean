import Svp.Worker.Admission
import Svp.Exec.WorkerFrames

/-!
# An agent session

One coordinator session of a worker agent: the input thread reads the coordinator's
frames, the relay thread those of the session process. Both release leases, from the
ledger and the slots that all sessions of the agent share, while other sessions use them
too. Every call that takes a lock is one step, so the threads and the other sessions
interleave in any order.

The lemmas of the last sections say which leases of the session the ledger and the slots
hold after a step of one of its threads, and that no call of another session changes them.
-/

namespace Svp.Worker

open Lib (OrderedMap)
open Exec (LeasedAssignment)

/-! ## The program -/

/-- What the session was created with and HELLO said. -/
structure SessionConfig where
  session : String
  coordinator : String
  /-- The slots HELLO declared for each task type. -/
  capacity : OrderedMap String Nat

/-- Key of the lease table: `(task_id, attempt)`. -/
abbrev AttemptKey := String ×ₗ Nat

def attemptKey (taskId : String) (attempt : Nat) : AttemptKey := toLex (taskId, attempt)

/-- Where `assign` is: before `try_take`, `try_admit`, the release of the slot of a lease
refused for memory, or the entry in the lease table. -/
inductive AssignStage
  | taking
  | admitting
  | refusing
  | listing
deriving DecidableEq

/-- Where `release` is: before the ledger, the slots or the lease table. -/
inductive CancelStage
  | memory
  | slot
  | table
deriving DecidableEq

/-- Where `finish` is: `run` has returned, the ledger is released, the slots are too. -/
inductive EndStage
  | left
  | memoryReleased
  | finished
deriving DecidableEq

/-- The input thread. -/
inductive Input
  | reading
  /-- Before REJECT is written. -/
  | rejecting
  | assigning (stage : AssignStage) (assignment : LeasedAssignment)
  | cancelling (stage : CancelStage) (leaseId : String)
  | ended (stage : EndStage)

/-- Before the ledger or the slots. -/
inductive RelayStage
  | memory
  | slot
deriving DecidableEq

/-- The relay thread, absent until the first ASSIGN starts the session process. -/
inductive Relay
  | absent
  | reading
  | releasing (stage : RelayStage) (key : AttemptKey) (leaseId : String)
  | finished

/-- Why a lease is released. -/
inductive Cause
  | result (key : AttemptKey)
  | cancel
  | refusal
  | finish
deriving DecidableEq

/-- What was done with one lease. Not in the source. -/
structure Account where
  taken : Nat := 0
  admitted : Nat := 0
  slotReleases : List Cause := []
  memoryReleases : List Cause := []
deriving DecidableEq

structure SessionState where
  ledger : AdmissionLedger
  slots : SlotSharing
  leases : OrderedMap AttemptKey String
  input : Input
  relay : Relay
  /-- The assignments received. Not in the source. -/
  assigned : List LeasedAssignment
  /-- What was done with each lease. Not in the source. -/
  accounts : String → Account

def leaseIdOf (assignment : LeasedAssignment) : String := assignment.lease.leaseId

def keyOf (assignment : LeasedAssignment) : AttemptKey :=
  attemptKey assignment.spec.taskId assignment.lease.attempt

def SessionConfig.slotRequest (config : SessionConfig) (assignment : LeasedAssignment) :
    SlotRequest where
  coordinator := config.coordinator
  session := config.session
  leaseId := leaseIdOf assignment
  taskType := assignment.spec.taskType
  declaredSlots := (config.capacity.find? assignment.spec.taskType).getD 0

def SessionConfig.leaseAdmission (config : SessionConfig) (assignment : LeasedAssignment) :
    LeaseAdmission where
  session := config.session
  leaseId := leaseIdOf assignment
  taskType := assignment.spec.taskType
  requiredBytes := requiredBytes assignment.spec.resources.estPeakRssMb

namespace SessionState

/-- Whether the ledger has the lease under this session. -/
def holdsMemory (s : SessionState) (config : SessionConfig) (leaseId : String) : Bool :=
  s.ledger.admitted.contains (leaseKey config.session leaseId)

/-- Whether the slots have the lease under this session. -/
def holdsSlot (s : SessionState) (config : SessionConfig) (leaseId : String) : Bool :=
  s.slots.held.contains (leaseKey config.session leaseId)

/-- Whether the lease table names the lease. -/
def Lists (s : SessionState) (leaseId : String) : Prop :=
  ∃ key, s.leases.find? key = some leaseId

def note (s : SessionState) (leaseId : String) (change : Account → Account) : SessionState :=
  { s with accounts := Function.update s.accounts leaseId (change (s.accounts leaseId)) }

/-! ### The input thread -/

/-- An ASSIGN frame is read; the first one starts the session process. -/
def receive (s : SessionState) (assignment : LeasedAssignment) : SessionState :=
  { s with
    input := .assigning .taking assignment
    relay := match s.relay with | .absent => .reading | relay => relay
    assigned := assignment :: s.assigned }

def take (s : SessionState) (config : SessionConfig) (assignment : LeasedAssignment)
    (load : TaskTypeCounts) (now : Int) : SessionState :=
  let taken := s.slots.tryTake load (config.slotRequest assignment) now
  if taken.2.admitted then
    { s with slots := taken.1, input := .assigning .admitting assignment }.note
      (leaseIdOf assignment) fun account => { account with taken := account.taken + 1 }
  else { s with slots := taken.1, input := .rejecting }

def admitLease (s : SessionState) (config : SessionConfig) (assignment : LeasedAssignment)
    (memory : MemorySnapshot) (inUse : SessionInUse) (now : Int) : SessionState :=
  let admitted := s.ledger.tryAdmit (config.leaseAdmission assignment) memory inUse now
  if admitted.2.admitted then
    { s with ledger := admitted.1, input := .assigning .listing assignment }.note
      (leaseIdOf assignment) fun account => { account with admitted := account.admitted + 1 }
  else { s with ledger := admitted.1, input := .assigning .refusing assignment }

/-- `ledger().release`; the release is noted when the lease was there. -/
def releaseMemory (s : SessionState) (config : SessionConfig) (leaseId : String) (cause : Cause) :
    SessionState :=
  let released := { s with ledger := s.ledger.release config.session leaseId }
  if s.holdsMemory config leaseId then
    released.note leaseId fun account =>
      { account with memoryReleases := cause :: account.memoryReleases }
  else released

/-- `slots().release`; the release is noted when the lease was there. -/
def releaseSlot (s : SessionState) (config : SessionConfig) (leaseId : String) (cause : Cause) :
    SessionState :=
  let released := { s with slots := s.slots.release config.session leaseId }
  if s.holdsSlot config leaseId then
    released.note leaseId fun account =>
      { account with slotReleases := cause :: account.slotReleases }
  else released

def goto (s : SessionState) (input : Input) : SessionState := { s with input := input }

/-- `leases_[{task_id, attempt}] = lease_id`, and the frame goes to the session process. -/
def enter (s : SessionState) (assignment : LeasedAssignment) : SessionState :=
  { s with
    leases := s.leases.insert (keyOf assignment) (leaseIdOf assignment)
    input := .reading }

/-- `std::erase_if(leases_, ...)` of `release`. -/
def unlist (s : SessionState) (leaseId : String) : SessionState :=
  { s with leases := s.leases.filter fun _ listed => listed ≠ leaseId }

/-- `ledger().release_session` of `finish`. -/
def finishMemory (s : SessionState) (config : SessionConfig) : SessionState :=
  { s with
    ledger := s.ledger.releaseSession config.session
    input := .ended .memoryReleased
    accounts := fun leaseId =>
      if s.holdsMemory config leaseId then
        { s.accounts leaseId with
          memoryReleases := .finish :: (s.accounts leaseId).memoryReleases }
      else s.accounts leaseId }

/-- `slots().release_session` of `finish`. -/
def finishSlots (s : SessionState) (config : SessionConfig) : SessionState :=
  { s with
    slots := s.slots.releaseSession config.session
    input := .ended .finished
    accounts := fun leaseId =>
      if s.holdsSlot config leaseId then
        { s.accounts leaseId with slotReleases := .finish :: (s.accounts leaseId).slotReleases }
      else s.accounts leaseId }

/-! ### The relay thread -/

def relayTo (s : SessionState) (relay : Relay) : SessionState := { s with relay := relay }

/-- A RESULT frame is read and its lease looked up and erased under the lock. -/
def claim (s : SessionState) (key : AttemptKey) : SessionState :=
  match s.leases.find? key with
  | some leaseId =>
    { s with
      leases := s.leases.erase key
      relay := if leaseId = "" then .reading else .releasing .memory key leaseId }
  | none => s

end SessionState

/-! ### Other sessions -/

/-- A call of another session on what the agent shares. -/
inductive SharedCall
  | tryTake (load : TaskTypeCounts) (request : SlotRequest) (now : Int)
  | releaseSlot (session leaseId : String)
  | releaseSlots (session : String)
  | tryAdmit (lease : LeaseAdmission) (memory : MemorySnapshot) (inUse : SessionInUse) (now : Int)
  | releaseMemory (session leaseId : String)
  | releaseSession (session : String)

namespace SharedCall

def session : SharedCall → String
  | tryTake _ request _ => request.session
  | releaseSlot session _ => session
  | releaseSlots session => session
  | tryAdmit lease _ _ _ => lease.session
  | releaseMemory session _ => session
  | releaseSession session => session

def apply (s : SessionState) : SharedCall → SessionState
  | tryTake load request now => { s with slots := (s.slots.tryTake load request now).1 }
  | releaseSlot session leaseId => { s with slots := s.slots.release session leaseId }
  | releaseSlots session => { s with slots := s.slots.releaseSession session }
  | tryAdmit lease memory inUse now =>
    { s with ledger := (s.ledger.tryAdmit lease memory inUse now).1 }
  | releaseMemory session leaseId => { s with ledger := s.ledger.release session leaseId }
  | releaseSession session => { s with ledger := s.ledger.releaseSession session }

end SharedCall

/-! ### Steps -/

/-- `allowed s a`: the entry of assignment `a` may be written in state `s`. -/
inductive SessionStep (config : SessionConfig)
    (allowed : SessionState → LeasedAssignment → Prop) : SessionState → SessionState → Prop
  /-- A frame that touches no lease is handled, or the thread goes on after REJECT. -/
  | next {s : SessionState} : s.input = .reading ∨ s.input = .rejecting →
      SessionStep config allowed s (s.goto .reading)
  /-- `run` returns: SHUTDOWN, the end of the input, or an error. -/
  | leave {s : SessionState} : (s.input = .reading ∨ s.input = .rejecting ∨
      ∃ assignment, s.input = .assigning .admitting assignment) →
      SessionStep config allowed s (s.goto (.ended .left))
  /-- ASSIGN, with a lease id no earlier one had; `identifier_of_assignFrame`. -/
  | receive {s : SessionState} {assignment : LeasedAssignment} : s.input = .reading →
      Exec.isRecordIdentifier (leaseIdOf assignment) = true →
      (∀ earlier ∈ s.assigned, leaseIdOf earlier ≠ leaseIdOf assignment) →
      SessionStep config allowed s (s.receive assignment)
  | take {s : SessionState} {assignment : LeasedAssignment} (load : TaskTypeCounts) (now : Int) :
      s.input = .assigning .taking assignment →
      SessionStep config allowed s (s.take config assignment load now)
  | admitLease {s : SessionState} {assignment : LeasedAssignment} (memory : MemorySnapshot)
      (inUse : SessionInUse) (now : Int) : s.input = .assigning .admitting assignment →
      SessionStep config allowed s (s.admitLease config assignment memory inUse now)
  | refuse {s : SessionState} {assignment : LeasedAssignment} :
      s.input = .assigning .refusing assignment →
      SessionStep config allowed s
        ((s.releaseSlot config (leaseIdOf assignment) .refusal).goto .rejecting)
  | enter {s : SessionState} {assignment : LeasedAssignment} :
      s.input = .assigning .listing assignment → allowed s assignment →
      SessionStep config allowed s (s.enter assignment)
  /-- CANCEL. -/
  | cancel {s : SessionState} (leaseId : String) : s.input = .reading →
      SessionStep config allowed s (s.goto (.cancelling .memory leaseId))
  | cancelMemory {s : SessionState} {leaseId : String} :
      s.input = .cancelling .memory leaseId → SessionStep config allowed s
        ((s.releaseMemory config leaseId .cancel).goto (.cancelling .slot leaseId))
  | cancelSlot {s : SessionState} {leaseId : String} :
      s.input = .cancelling .slot leaseId → SessionStep config allowed s
        ((s.releaseSlot config leaseId .cancel).goto (.cancelling .table leaseId))
  | cancelTable {s : SessionState} {leaseId : String} :
      s.input = .cancelling .table leaseId →
      SessionStep config allowed s ((s.unlist leaseId).goto .reading)
  /-- `finish` goes on once the relay thread, if there is one, has been joined. -/
  | finishMemory {s : SessionState} : s.input = .ended .left →
      s.relay = .absent ∨ s.relay = .finished →
      SessionStep config allowed s (s.finishMemory config)
  | finishSlots {s : SessionState} : s.input = .ended .memoryReleased →
      SessionStep config allowed s (s.finishSlots config)
  /-- RESULT. -/
  | claim {s : SessionState} (key : AttemptKey) : s.relay = .reading →
      SessionStep config allowed s (s.claim key)
  | claimMemory {s : SessionState} {key : AttemptKey} {leaseId : String} :
      s.relay = .releasing .memory key leaseId → SessionStep config allowed s
        ((s.releaseMemory config leaseId (.result key)).relayTo (.releasing .slot key leaseId))
  | claimSlot {s : SessionState} {key : AttemptKey} {leaseId : String} :
      s.relay = .releasing .slot key leaseId → SessionStep config allowed s
        ((s.releaseSlot config leaseId (.result key)).relayTo .reading)
  /-- The relay thread ends: the process is gone, or a frame cannot be read or written. -/
  | relayEnds {s : SessionState} : s.relay = .reading →
      SessionStep config allowed s (s.relayTo .finished)
  | shared {s : SessionState} (call : SharedCall) : call.session ≠ config.session →
      SessionStep config allowed s (call.apply s)

/-- The runs of a session, from the answer to HELLO on. The shared ledger and slots may hold
leases of other sessions. -/
def sessionSystem (config : SessionConfig) (allowed : SessionState → LeasedAssignment → Prop) :
    Lib.System SessionState where
  init s := (∀ leaseId, s.holdsMemory config leaseId = false) ∧
    (∀ leaseId, s.holdsSlot config leaseId = false) ∧ s.leases = .empty ∧ s.input = .reading ∧
    s.relay = .absent ∧ s.assigned = [] ∧ s.accounts = fun _ => {}
  step := SessionStep config allowed

/-! ## What a step does to the accounts -/

/-- The lease id of an ASSIGN frame that is read is a record identifier. -/
theorem identifier_of_assignFrame {codec : Exec.Codec} {frame : Exec.Frame} {a : LeasedAssignment}
    (read : Exec.leasedAssignmentFromFrame codec frame = .ok a) :
    Exec.isRecordIdentifier (leaseIdOf a) = true := by
  obtain ⟨_, -, read⟩ := Exec.bind_eq_ok.mp read
  obtain ⟨_, -, read⟩ := Exec.bind_eq_ok.mp read
  obtain ⟨_, -, read⟩ := Exec.bind_eq_ok.mp read
  obtain ⟨leaseJson, -, read⟩ := Exec.bind_eq_ok.mp read
  obtain ⟨_, -, read⟩ := Exec.bind_eq_ok.mp read
  obtain ⟨written, -, read⟩ := Exec.bind_eq_ok.mp read
  obtain ⟨leaseId, checked, read⟩ := Exec.bind_eq_ok.mp read
  obtain ⟨attempt, -, read⟩ := Exec.bind_eq_ok.mp read
  obtain ⟨duration, -, read⟩ := Exec.bind_eq_ok.mp read
  obtain ⟨interval, -, read⟩ := Exec.bind_eq_ok.mp read
  obtain ⟨taskSpec, -, read⟩ := Exec.bind_eq_ok.mp read
  obtain ⟨spec, -, read⟩ := Exec.bind_eq_ok.mp read
  cases read
  obtain ⟨valid, rfl⟩ := Exec.checkedLeaseId_eq_ok checked
  exact valid

namespace SessionState

variable (s : SessionState) (config : SessionConfig)

@[simp] theorem holdsMemory_goto (input : Input) (leaseId : String) :
    (s.goto input).holdsMemory config leaseId = s.holdsMemory config leaseId := rfl

@[simp] theorem holdsSlot_goto (input : Input) (leaseId : String) :
    (s.goto input).holdsSlot config leaseId = s.holdsSlot config leaseId := rfl

/-- `releaseMemory` touches the ledger alone. -/
theorem releaseMemory_eq (leaseId : String) (cause : Cause) : ∃ accounts,
    s.releaseMemory config leaseId cause =
      { s with ledger := s.ledger.release config.session leaseId, accounts := accounts } := by
  rw [releaseMemory]
  split
  · exact ⟨_, rfl⟩
  · exact ⟨_, rfl⟩

/-- `releaseSlot` touches the slots alone. -/
theorem releaseSlot_eq (leaseId : String) (cause : Cause) : ∃ accounts,
    s.releaseSlot config leaseId cause =
      { s with slots := s.slots.release config.session leaseId, accounts := accounts } := by
  rw [releaseSlot]
  split
  · exact ⟨_, rfl⟩
  · exact ⟨_, rfl⟩

theorem leaseKey_inj {session leaseId leaseId' : String} :
    leaseKey session leaseId = leaseKey session leaseId' ↔ leaseId = leaseId' := by
  rw [leaseKey, leaseKey, toLex_inj, Prod.mk.injEq, and_iff_right rfl]

theorem holdsSlot_take (assignment : LeasedAssignment) (load : TaskTypeCounts) (now : Int)
    (leaseId : String) :
    (s.take config assignment load now).holdsSlot config leaseId =
      ((s.slots.tryTake load (config.slotRequest assignment) now).2.admitted &&
        decide (leaseId = leaseIdOf assignment) || s.holdsSlot config leaseId) := by
  have held : (s.take config assignment load now).slots =
      (s.slots.tryTake load (config.slotRequest assignment) now).1 := by
    rw [take]
    split <;> rfl
  rw [holdsSlot, held, SlotSharing.held_tryTake]
  split
  · next admitted =>
    rw [OrderedMap.contains_insert, admitted, Bool.true_and]
    simp only [SessionConfig.slotRequest, leaseKey_inj]
    rfl
  · next refused =>
    rw [Bool.not_eq_true] at refused
    rw [refused]
    rfl

theorem holdsMemory_admitLease (assignment : LeasedAssignment) (memory : MemorySnapshot)
    (inUse : SessionInUse) (now : Int) (leaseId : String) :
    (s.admitLease config assignment memory inUse now).holdsMemory config leaseId =
      ((s.ledger.tryAdmit (config.leaseAdmission assignment) memory inUse now).2.admitted &&
        decide (leaseId = leaseIdOf assignment) || s.holdsMemory config leaseId) := by
  have held : (s.admitLease config assignment memory inUse now).ledger =
      (s.ledger.tryAdmit (config.leaseAdmission assignment) memory inUse now).1 := by
    rw [admitLease]
    split <;> rfl
  rw [holdsMemory, held, AdmissionLedger.admitted_tryAdmit]
  split
  · next admitted =>
    rw [OrderedMap.contains_insert, admitted, Bool.true_and]
    simp only [SessionConfig.leaseAdmission, leaseKey_inj]
    rfl
  · next refused =>
    rw [Bool.not_eq_true] at refused
    rw [refused]
    rfl

theorem contains_releaseMemory (released leaseId : String) :
    (s.ledger.release config.session released).admitted.contains (leaseKey config.session leaseId) =
      (decide (leaseId ≠ released) && s.holdsMemory config leaseId) := by
  rw [AdmissionLedger.release, OrderedMap.contains_erase]
  simp only [ne_eq, leaseKey_inj]
  rfl

theorem contains_releaseSlot (released leaseId : String) :
    (s.slots.release config.session released).held.contains (leaseKey config.session leaseId) =
      (decide (leaseId ≠ released) && s.holdsSlot config leaseId) := by
  rw [SlotSharing.release, OrderedMap.contains_erase]
  simp only [ne_eq, leaseKey_inj]
  rfl

theorem holdsMemory_finishMemory (leaseId : String) :
    (s.finishMemory config).holdsMemory config leaseId = false := by
  have gone := OrderedMap.contains_filter_keys s.ledger.admitted
    (fun key => decide (sessionOf key ≠ config.session)) (leaseKey config.session leaseId)
  exact gone.trans (by simp [sessionOf, leaseKey])

theorem holdsSlot_finishSlots (leaseId : String) :
    (s.finishSlots config).holdsSlot config leaseId = false := by
  have gone := OrderedMap.contains_filter_keys s.slots.held
    (fun key => decide (sessionOf key ≠ config.session)) (leaseKey config.session leaseId)
  exact gone.trans (by simp [sessionOf, leaseKey])

end SessionState

theorem leaseKey_ne {own session : String} (other : session ≠ own) (leaseId leaseId' : String) :
    leaseKey own leaseId ≠ leaseKey session leaseId' :=
  fun same => other (congrArg sessionOf same).symm

namespace SharedCall

variable {config : SessionConfig} {call : SharedCall} (other : call.session ≠ config.session)
  (s : SessionState) (leaseId : String)
include other

theorem holdsSlot_apply : (call.apply s).holdsSlot config leaseId = s.holdsSlot config leaseId := by
  cases call with
  | tryTake load request now =>
    rw [SessionState.holdsSlot, apply, SlotSharing.held_tryTake]
    split
    · rw [OrderedMap.contains_insert, decide_eq_false (leaseKey_ne (show request.session ≠ _ from other) leaseId _), Bool.false_or]
      rfl
    · rfl
  | releaseSlot session released =>
    show OrderedMap.contains (OrderedMap.erase _ _) _ = _
    rw [OrderedMap.contains_erase, decide_eq_true (leaseKey_ne (show session ≠ _ from other) leaseId _), Bool.true_and]
    rfl
  | releaseSlots session =>
    have kept := OrderedMap.contains_filter_keys s.slots.held
      (fun key => decide (sessionOf key ≠ session)) (leaseKey config.session leaseId)
    exact kept.trans (by
      rw [decide_eq_true (show sessionOf (leaseKey config.session leaseId) ≠ session from
        Ne.symm other), Bool.true_and]
      rfl)
  | tryAdmit | releaseMemory | releaseSession => rfl

theorem holdsMemory_apply :
    (call.apply s).holdsMemory config leaseId = s.holdsMemory config leaseId := by
  cases call with
  | tryAdmit lease memory inUse now =>
    rw [SessionState.holdsMemory, apply, AdmissionLedger.admitted_tryAdmit]
    split
    · rw [OrderedMap.contains_insert, decide_eq_false (leaseKey_ne (show lease.session ≠ _ from other) leaseId _), Bool.false_or]
      rfl
    · rfl
  | releaseMemory session released =>
    show OrderedMap.contains (OrderedMap.erase _ _) _ = _
    rw [OrderedMap.contains_erase, decide_eq_true (leaseKey_ne (show session ≠ _ from other) leaseId _), Bool.true_and]
    rfl
  | releaseSession session =>
    have kept := OrderedMap.contains_filter_keys s.ledger.admitted
      (fun key => decide (sessionOf key ≠ session)) (leaseKey config.session leaseId)
    exact kept.trans (by
      rw [decide_eq_true (show sessionOf (leaseKey config.session leaseId) ≠ session from
        Ne.symm other), Bool.true_and]
      rfl)
  | tryTake | releaseSlot | releaseSlots => rfl

end SharedCall

end Svp.Worker

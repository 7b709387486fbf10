import Svp.Exec.WorkerSession

/-!
# The worker's loop

`run_worker_loop` serves one coordinator session. The reader starts a task thread
for every ASSIGN and drops the lease a CANCEL names; a lease it does not know it
leaves alone. The task threads send a RESULT unless their lease was dropped
meanwhile. Which frames arrive and when a task is done are free; heartbeats are
not followed.

A CANCEL has its effect whenever the frames come in order (`run_not_leftRunning`):
no lease is left running whose CANCEL was read, if no ASSIGN for it follows the
CANCEL.
-/

namespace Svp.Exec

open Lib (OrderedMap)

inductive WorkerLoopExit
  | inputClosed
  | shutdown
  | protocolError
deriving DecidableEq

structure RunningLease where
  dropped : Bool := false
  /-- The attempt's token was asked to cancel. -/
  cancellation : Bool := false
deriving DecidableEq

def kWorkerProtocolErrorCode : String := "protocol_error"

def protocolErrorFrame (message : String) : Frame where
  type := .error
  body := .object [("code", .string kWorkerProtocolErrorCode), ("message", .string message)]
  payloads := []

/-- What the reader and the task threads share, and how the reader ended. -/
structure WorkerLoop where
  leases : OrderedMap String RunningLease := .empty
  exit : Option WorkerLoopExit := none
  /-- The frames sent to the coordinator. -/
  sent : List Frame := []

/-- A turn of the reader or of the task thread of a lease. -/
inductive WorkerEvent
  | read (item : StreamRead)
  | resultReady (leaseId : String) (result : Frame)
  | finished (leaseId : String)

namespace WorkerLoop

/-- None when the lease is already running. -/
def start (w : WorkerLoop) (leaseId : String) : Option WorkerLoop :=
  if w.leases.contains leaseId then none else some { w with leases := w.leases.insert leaseId {} }

def drop (w : WorkerLoop) (leaseId : String) : WorkerLoop :=
  match w.leases.find? leaseId with
  | none => w
  | some _ => { w with leases := w.leases.insert leaseId { dropped := true, cancellation := true } }

/-- The loop returns, and its session drops every lease. -/
def close (w : WorkerLoop) (exit : WorkerLoopExit) : WorkerLoop :=
  { w with
    leases := w.leases.entries.foldl (fun leases entry =>
      leases.insert entry.1 { dropped := true, cancellation := true }) w.leases
    exit := some exit }

/-- Sends an ERROR and returns. -/
def refuse (w : WorkerLoop) (message : String) : WorkerLoop :=
  { w with sent := w.sent ++ [protocolErrorFrame message] }.close .protocolError

variable (codec : Codec)

/-- What the reader does with a frame. -/
def readFrame (w : WorkerLoop) (frame : Frame) : WorkerLoop :=
  match frame.type with
  | .assign =>
    match leasedAssignmentFromFrame codec frame with
    | .error error => w.refuse error.message
    | .ok assignment =>
      match w.start assignment.lease.leaseId with
      | none => w.refuse ("lease `" ++ assignment.lease.leaseId ++ "` is already running")
      | some started => started
  | .cancel =>
    match leaseIdFromCancelFrame frame with
    | .error error => w.refuse error.message
    | .ok leaseId => w.drop leaseId
  | .shutdown => w.close .shutdown
  | type => w.refuse ("unexpected " ++ messageTypeName type ++ " frame")

def step (w : WorkerLoop) : WorkerEvent → WorkerLoop
  | .read item =>
    -- the reader has returned
    if w.exit.isSome then w
    else
      match item with
      | .failed error => w.refuse error.message
      | .endOfStream => w.close .inputClosed
      | .frame frame => w.readFrame codec frame
  | .resultReady leaseId result =>
    match w.leases.find? leaseId with
    | none => w
    | some lease => if lease.dropped then w else { w with sent := w.sent ++ [result] }
  | .finished leaseId => { w with leases := w.leases.erase leaseId }

def run (events : List WorkerEvent) : WorkerLoop := events.foldl (step codec) {}

/-- The frames the reader was given. -/
def framesRead (events : List WorkerEvent) : List Frame :=
  events.filterMap fun
    | .read (.frame frame) => some frame
    | _ => none

/-- The lease is running and nobody told its attempt to stop. -/
def LeftRunning (w : WorkerLoop) (leaseId : String) : Prop :=
  ∃ lease, w.leases.find? leaseId = some lease ∧ lease.dropped = false

end WorkerLoop

/-! ## Frames that name a lease -/

def Frame.Assigns (codec : Codec) (frame : Frame) (leaseId : String) : Prop :=
  ∃ assignment, leasedAssignmentFromFrame codec frame = .ok assignment ∧
    assignment.lease.leaseId = leaseId

def Frame.Cancels (frame : Frame) (leaseId : String) : Prop :=
  leaseIdFromCancelFrame frame = .ok leaseId

/-- No ASSIGN comes after a CANCEL for its lease. -/
def InOrder (codec : Codec) (frames : List Frame) : Prop :=
  frames.Pairwise fun earlier later =>
    ∀ leaseId, earlier.Cancels leaseId → ¬ later.Assigns codec leaseId

variable {codec : Codec}

theorem requireControlFrame_eq_ok {frame : Frame} {type : MessageType}
    (accepted : requireControlFrame frame type = .ok ()) : frame.type = type := by
  obtain ⟨expected, -⟩ := check_bind_eq_ok.mp accepted
  exact of_decide_eq_true (require_eq_ok.mp expected)

theorem Frame.Assigns.type {frame : Frame} {leaseId : String} (assigns : frame.Assigns codec leaseId) :
    frame.type = .assign := by
  obtain ⟨assignment, read, -⟩ := assigns
  exact requireControlFrame_eq_ok (check_bind_eq_ok.mp read).1

theorem Frame.Cancels.type {frame : Frame} {leaseId : String} (cancels : frame.Cancels leaseId) :
    frame.type = .cancel :=
  requireControlFrame_eq_ok (check_bind_eq_ok.mp cancels).1

theorem Frame.Cancels.not_assigns {frame : Frame} {leaseId : String} (cancels : frame.Cancels leaseId)
    (other : String) : ¬ frame.Assigns codec other := fun assigns => by
  have type := assigns.type
  rw [cancels.type] at type
  cases type

/-- Where an assignment has its lease id from. -/
theorem leaseId_of_read {frame : Frame} {assignment : LeasedAssignment}
    (read : leasedAssignmentFromFrame codec frame = .ok assignment) :
    ∃ leaseJson, requiredObject frame.body "lease" "ASSIGN.body" = .ok leaseJson ∧
      requiredString leaseJson "lease_id" "ASSIGN.body.lease" = .ok assignment.lease.leaseId := by
  obtain ⟨-, read⟩ := check_bind_eq_ok.mp read
  obtain ⟨-, read⟩ := check_bind_eq_ok.mp read
  obtain ⟨-, read⟩ := check_bind_eq_ok.mp read
  obtain ⟨leaseJson, isLease, read⟩ := bind_eq_ok.mp read
  obtain ⟨-, read⟩ := check_bind_eq_ok.mp read
  obtain ⟨text, isText, read⟩ := bind_eq_ok.mp read
  obtain ⟨id, accepted, read⟩ := bind_eq_ok.mp read
  obtain ⟨attempt, -, read⟩ := bind_eq_ok.mp read
  obtain ⟨duration, -, read⟩ := bind_eq_ok.mp read
  obtain ⟨heartbeatInterval, -, read⟩ := bind_eq_ok.mp read
  obtain ⟨specJson, -, read⟩ := bind_eq_ok.mp read
  obtain ⟨spec, -, built⟩ := bind_eq_ok.mp read
  cases built
  have same := (checkedLeaseId_eq_ok accepted).2
  exact ⟨leaseJson, isLease, isText.trans (congrArg _ same.symm)⟩

/-- An ASSIGN names the lease it was made for. -/
theorem assigns_of_make {spec : TaskSpec} {lease : Lease} {frame : Frame}
    (made : makeLeasedAssignFrame codec spec lease = .ok frame) :
    frame.type = .assign ∧ ∀ leaseId, frame.Assigns codec leaseId → leaseId = lease.leaseId := by
  obtain ⟨-, made⟩ := check_bind_eq_ok.mp made
  obtain ⟨expiresInMs, -, made⟩ := bind_eq_ok.mp made
  obtain ⟨heartbeatIntervalMs, -, made⟩ := bind_eq_ok.mp made
  obtain ⟨checked, accepted, made⟩ := bind_eq_ok.mp made
  obtain ⟨taskSpec, -, made⟩ := bind_eq_ok.mp made
  obtain ⟨-, rfl⟩ := checkedLeaseId_eq_ok accepted
  cases made
  refine ⟨rfl, ?_⟩
  rintro leaseId ⟨assignment, read, rfl⟩
  obtain ⟨leaseJson, isLease, isText⟩ := leaseId_of_read read
  cases isLease
  exact (Except.ok.inj isText).symm

/-- A CANCEL names the lease it was made for. -/
theorem cancels_of_make {leaseId : String} {frame : Frame}
    (made : makeCancelFrame leaseId = .ok frame) :
    frame.type = .cancel ∧ frame.Cancels leaseId := by
  have cancels : frame.Cancels leaseId := leaseIdFrom_leaseIdFrame made
  exact ⟨cancels.type, cancels⟩

namespace WorkerLoop

/-! ## What becomes of a cancelled lease -/

variable {w : WorkerLoop} {leaseId : String}

theorem not_leftRunning_insert {id : String} {lease : RunningLease} (idle : ¬ w.LeftRunning leaseId)
    (stays : leaseId = id → lease.dropped = true) :
    ¬ ({ w with leases := w.leases.insert id lease } : WorkerLoop).LeftRunning leaseId := by
  rintro ⟨found, stored, running⟩
  simp only [OrderedMap.find?_insert] at stored
  split at stored
  · next same =>
    cases stored
    rw [stays same] at running
    cases running
  · exact idle ⟨found, stored, running⟩

theorem not_leftRunning_drop (w : WorkerLoop) (leaseId : String) :
    ¬ (w.drop leaseId).LeftRunning leaseId := by
  unfold drop
  cases found : w.leases.find? leaseId with
  | none =>
    rintro ⟨lease, stored, -⟩
    rw [found] at stored
    cases stored
  | some lease =>
    rintro ⟨stored, same, running⟩
    simp only [OrderedMap.find?_insert, if_true] at same
    cases same
    cases running

/-- Dropping another lease starts nothing. -/
theorem not_leftRunning_drop_of (idle : ¬ w.LeftRunning leaseId) (id : String) :
    ¬ (w.drop id).LeftRunning leaseId := by
  unfold drop
  split
  · exact idle
  · exact not_leftRunning_insert idle fun _ => rfl

/-- After the end of the loop every lease is dropped. -/
theorem not_leftRunning_close (w : WorkerLoop) (exit : WorkerLoopExit) (leaseId : String) :
    ¬ (w.close exit).LeftRunning leaseId := by
  let drops := fun (leases : OrderedMap String RunningLease) (entry : String × RunningLease) =>
    leases.insert entry.1 { dropped := true, cancellation := true }
  have fold : ∀ (entries : List (String × RunningLease)) (leases : OrderedMap String RunningLease),
      (∀ id lease, leases.find? id = some lease → lease.dropped = true ∨ ∃ l, (id, l) ∈ entries) →
      ∀ id lease, (entries.foldl drops leases).find? id = some lease → lease.dropped = true := by
    intro entries
    induction entries with
    | nil =>
      intro leases covered id lease found
      rcases covered id lease found with dropped | ⟨l, mem⟩
      · exact dropped
      · cases mem
    | cons entry rest ih =>
      intro leases covered
      refine ih (drops leases entry) fun id lease found => ?_
      simp only [drops, OrderedMap.find?_insert] at found
      split at found
      · cases found
        exact .inl rfl
      · next other =>
        rcases covered id lease found with dropped | ⟨l, mem⟩
        · exact .inl dropped
        · rcases List.mem_cons.mp mem with rfl | mem
          · exact absurd rfl other
          · exact .inr ⟨l, mem⟩
  rintro ⟨lease, found, running⟩
  have dropped := fold w.leases.entries w.leases
    (fun id lease found => .inr ⟨lease, OrderedMap.find?_eq_some.mp found⟩) leaseId lease found
  rw [dropped] at running
  cases running

theorem not_leftRunning_refuse (w : WorkerLoop) (message leaseId : String) :
    ¬ (w.refuse message).LeftRunning leaseId :=
  not_leftRunning_close _ _ leaseId

/-- What the reader does with a frame that is no ASSIGN of the lease. -/
theorem not_leftRunning_readFrame {frame : Frame} (idle : ¬ w.LeftRunning leaseId)
    (other : ¬ frame.Assigns codec leaseId) : ¬ (w.readFrame codec frame).LeftRunning leaseId := by
  unfold readFrame
  split
  · split
    · exact not_leftRunning_refuse _ _ _
    · next assignment read =>
      split
      · exact not_leftRunning_refuse _ _ _
      · next started isStarted =>
        unfold start at isStarted
        split at isStarted
        · cases isStarted
        · cases isStarted
          exact not_leftRunning_insert idle fun same => absurd ⟨assignment, read, same.symm⟩ other
  · split
    · exact not_leftRunning_refuse _ _ _
    · exact not_leftRunning_drop_of idle _
  · exact not_leftRunning_close _ _ _
  · exact not_leftRunning_refuse _ _ _

theorem not_leftRunning_step {event : WorkerEvent} (idle : ¬ w.LeftRunning leaseId)
    (other : ∀ frame, event = .read (.frame frame) → ¬ frame.Assigns codec leaseId) :
    ¬ (w.step codec event).LeftRunning leaseId := by
  cases event with
  | read item =>
    simp only [step]
    split
    · exact idle
    · cases item with
      | frame frame => exact not_leftRunning_readFrame idle (other frame rfl)
      | endOfStream => exact not_leftRunning_close _ _ _
      | failed error => exact not_leftRunning_refuse _ _ _
  | resultReady id result =>
    simp only [step]
    split
    · exact idle
    · split
      · exact idle
      · exact idle
  | finished id =>
    rintro ⟨lease, found, running⟩
    simp only [step, OrderedMap.find?_erase] at found
    split at found
    · cases found
    · exact idle ⟨lease, found, running⟩

/-- Once the reader has returned, no lease is left running. -/
def Closed (w : WorkerLoop) : Prop := w.exit.isSome = true → ∀ leaseId, ¬ w.LeftRunning leaseId

theorem closed_readFrame (w : WorkerLoop) (frame : Frame) (serving : w.exit.isSome = false) :
    (w.readFrame codec frame).Closed := by
  have goesOn : ∀ next : WorkerLoop, next.exit = w.exit → next.Closed := fun next same returned => by
    rw [same, serving] at returned
    cases returned
  unfold readFrame
  split
  · split
    · exact fun _ => not_leftRunning_refuse _ _
    · split
      · exact fun _ => not_leftRunning_refuse _ _
      · next started isStarted =>
        unfold start at isStarted
        split at isStarted
        · cases isStarted
        · cases isStarted
          exact goesOn _ rfl
  · split
    · exact fun _ => not_leftRunning_refuse _ _
    · refine goesOn _ ?_
      unfold drop
      split <;> rfl
  · exact fun _ => not_leftRunning_close _ _
  · exact fun _ => not_leftRunning_refuse _ _

theorem closed_step {event : WorkerEvent} (closed : w.Closed) : (w.step codec event).Closed := by
  by_cases returned : w.exit.isSome = true
  · intro _ leaseId
    cases event with
    | read item =>
      simp only [step, if_pos returned]
      exact closed returned leaseId
    | resultReady id result =>
      exact not_leftRunning_step (closed returned leaseId) fun _ impossible => by cases impossible
    | finished id =>
      exact not_leftRunning_step (closed returned leaseId) fun _ impossible => by cases impossible
  · have exit : ∀ next : WorkerLoop, next.exit = w.exit → next.Closed := fun next same after =>
      absurd (same ▸ after) returned
    cases event with
    | read item =>
      simp only [step, if_neg returned]
      cases item with
      | frame frame => exact closed_readFrame w frame (Bool.eq_false_iff.mpr returned)
      | endOfStream => exact fun _ => not_leftRunning_close _ _
      | failed error => exact fun _ => not_leftRunning_refuse _ _
    | resultReady id result =>
      refine exit _ ?_
      simp only [step]
      split
      · rfl
      · split <;> rfl
    | finished id => exact exit _ rfl

/-- Reading a CANCEL stops its lease. -/
theorem not_leftRunning_cancel {frame : Frame} (closed : w.Closed) (cancels : frame.Cancels leaseId) :
    ¬ (w.step codec (.read (.frame frame))).LeftRunning leaseId := by
  simp only [step]
  split
  · next returned => exact closed returned leaseId
  · have read : w.readFrame codec frame = w.drop leaseId := by
      unfold readFrame
      rw [cancels.type]
      simp only
      rw [show leaseIdFromCancelFrame frame = .ok leaseId from cancels]
    rw [read]
    exact not_leftRunning_drop w leaseId

theorem run_append (events : List WorkerEvent) (event : WorkerEvent) :
    run codec (events ++ [event]) = (run codec events).step codec event := by
  rw [run, List.foldl_append]
  rfl

theorem framesRead_append (events : List WorkerEvent) (event : WorkerEvent) :
    framesRead (events ++ [event]) = framesRead events ++ framesRead [event] :=
  List.filterMap_append

theorem closed_run (events : List WorkerEvent) : (run codec events).Closed := by
  induction events using List.reverseRecOn with
  | nil => exact fun impossible => by cases impossible
  | append_singleton events event ih =>
    rw [run_append]
    exact closed_step ih

/-- No lease is left running whose CANCEL was read, if the frames come in order. -/
theorem run_not_leftRunning {events : List WorkerEvent} (ordered : InOrder codec (framesRead events))
    {frame : Frame} (mem : frame ∈ framesRead events) (cancels : frame.Cancels leaseId) :
    ¬ (run codec events).LeftRunning leaseId := by
  induction events using List.reverseRecOn with
  | nil => cases mem
  | append_singleton events event ih =>
    rw [framesRead_append] at ordered mem
    rw [run_append]
    obtain ⟨before, -, across⟩ := List.pairwise_append.mp ordered
    rcases List.mem_append.mp mem with earlier | last
    · refine not_leftRunning_step (ih before earlier) ?_
      rintro later rfl
      exact across frame earlier later List.mem_cons_self leaseId cancels
    · cases event with
      | read item =>
        cases item with
        | frame read =>
          have same : frame = read := List.mem_singleton.mp last
          exact not_leftRunning_cancel (closed_run events) (same ▸ cancels)
        | endOfStream => cases last
        | failed error => cases last
      | resultReady id result => cases last
      | finished id => cases last

end WorkerLoop

end Svp.Exec

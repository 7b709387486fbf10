import Svp.Exec.WorkerSession

/-!
# Session-backed executors

`LoopbackExecutor` and `RemoteExecutor` as one transition system
(`sessionExecutorSystem`) with two kinds. The scheduler thread's calls, the
threads of the sessions and `close_idle_session` take turns in any order; a step
is one locked section, one frame read, one event delivered or one frame written.
What the worker sends, when a connection opens or ends and which writes fail are
free.

`Session.step` is the thread of one session. The scheduler's calls are the
functions on `ExecutorState` under the source's names.
-/

namespace Svp.Exec

inductive ExecutorKind
  | loopback
  | remote
deriving DecidableEq

/-- What an executor is built with, as far as its sessions go. -/
structure ExecutorSetup where
  codec : Codec
  kind : ExecutorKind

/-! ## One session -/

/-- An ASSIGN frame issued before the connection opened. -/
structure PendingAssign where
  leaseId : String
  frame : Frame

/-- Where a session's thread stands. The two stages before `handshaking` and the
sending of queued frames belong to a remote session only. -/
inductive SessionStage
  | connecting (reason : String)
  | pausing (reason : String)
  | handshaking
  | sending (queued : List PendingAssign)
  | reading
  | delivering (event : InboxEvent)
  | ending (sessionEnd : WorkerSessionEnd)
  | reporting (sessionEnd : WorkerSessionEnd) (orphaned : List String)

structure Session where
  leases : WorkerSessionLeases := .empty
  pending : List PendingAssign := []
  connected : Bool
  ready : Bool
  retiring : Bool := false
  stage : SessionStage
  /-- The frames this executor has written to the worker. -/
  sent : List Frame := []

/-- A worker process: connected from the start, its thread reading. -/
def LoopbackExecutor.newSession : Session where
  connected := true
  ready := true
  stage := .reading

def RemoteExecutor.newSession : Session where
  connected := false
  ready := false
  stage := .connecting "worker session closed while connecting"

/-- What the surroundings decide about a step of a session's thread. -/
inductive SessionInput
  | connected
  | connectFailed (message : String) (giveUp : Bool)
  | pauseOver
  | preambleDone
  | preambleFailed (message : String)
  | written (ok : Bool)
  | read (item : StreamRead)
  | advance

namespace Session

/-- `finished` is set in the locked section that takes what is left of the
leases, after which the thread only reports. -/
def finished (session : Session) : Bool :=
  match session.stage with
  | .reporting _ _ => true
  | _ => false

/-- The thread has nothing left to report. -/
def done (session : Session) : Bool :=
  match session.stage with
  | .reporting _ [] => true
  | _ => false

def endOfStreamReason : ExecutorKind → String
  | .loopback => "worker process ended"
  | .remote => "worker connection ended"

/-- Takes the connection unless the session or the executor is going away. -/
def adoptConnection (session : Session) (stopping : Bool) (reason : String) : Session :=
  if session.retiring || stopping then { session with stage := .ending { reason } }
  else { session with connected := true, stage := .handshaking }

/-- Marks the session ready and moves its queued ASSIGNs to the thread. -/
def markReady (session : Session) : Session :=
  { session with ready := true, pending := [], stage := .sending session.pending }

/-- The locked section at the end of a session: what is still owed is taken, to
be reported unless the executor is stopping. -/
def finish (session : Session) (stopping : Bool) (sessionEnd : WorkerSessionEnd) : Session :=
  let (live, leases) := session.leases.takeLive
  { session with
    leases
    pending := []
    stage := .reporting sessionEnd (if stopping then [] else live) }

/-- One round of the pump. -/
def pump (setup : ExecutorSetup) (session : Session) (item : StreamRead) : Session :=
  match pumpWorkerFrame setup.codec (endOfStreamReason setup.kind) session.leases item with
  | (.goesOn, leases) => { session with leases }
  | (.delivers event, leases) => { session with leases, stage := .delivering event }
  | (.ends sessionEnd, leases) => { session with leases, stage := .ending sessionEnd }

/-- A step of the session's thread: the session after it and the events it
delivers. -/
def step (setup : ExecutorSetup) (stopping : Bool) (session : Session) (input : SessionInput) :
    Option (Session × List InboxEvent) :=
  match session.stage, input with
  | .connecting reason, .connected => some (session.adoptConnection stopping reason, [])
  | .connecting _, .connectFailed message giveUp =>
    let reason := "cannot reach worker: " ++ message
    some ({ session with stage := if giveUp then .ending { reason } else .pausing reason }, [])
  | .pausing reason, .pauseOver =>
    some ({ session with
      stage := if session.retiring || stopping then .ending { reason } else .connecting reason }, [])
  | .handshaking, .preambleDone => some (session.markReady, [])
  | .handshaking, .preambleFailed message =>
    some ({ session with
      stage := .ending { reason := "worker session setup failed: " ++ message } }, [])
  | .sending [], .advance => some ({ session with stage := .reading }, [])
  | .sending (assign :: rest), .written ok =>
    some (if ok then { session with sent := session.sent ++ [assign.frame], stage := .sending rest }
      else { session with stage := .reading }, [])
  | .reading, .read item => some (session.pump setup item, [])
  | .delivering event, .advance => some ({ session with stage := .reading }, [event])
  | .ending sessionEnd, .advance => some (session.finish stopping sessionEnd, [])
  | .reporting sessionEnd (leaseId :: rest), .advance =>
    some ({ session with stage := .reporting sessionEnd rest },
      [.failed leaseId sessionEnd.failure sessionEnd.reason])
  | _, _ => none

end Session

/-! ## The executor -/

/-- A lease handed to the executor, and the session that got it; none when no
worker process could be started for it. -/
structure Assignment where
  leaseId : String
  session : Option Nat
deriving DecidableEq

structure ExecutorState where
  /-- Every session opened so far; the last one is the current one. -/
  sessions : List Session := []
  stopping : Bool := false
  /-- The frame the scheduler's call under way is about to write. -/
  outgoing : Option (Nat × Frame) := none
  /-- The sessions a SHUTDOWN is about to be written to. -/
  closing : List Nat := []
  /-- The events delivered to the scheduler, oldest first. -/
  inbox : List InboxEvent := []
  /-- The leases handed over so far. -/
  assigned : List Assignment := []
  /-- The leases cancelled or expired so far. -/
  cancelRequested : List String := []

namespace ExecutorState

/-- The answers a lease has had. -/
def answers (st : ExecutorState) (leaseId : String) : Nat := answerCount st.inbox leaseId

def update (st : ExecutorState) (k : Nat) (session : Session) : ExecutorState :=
  { st with sessions := st.sessions.set k session }

/-- The session new leases go to, opened when the current one is finished or
retiring. -/
def liveSession (st : ExecutorState) (opened : Except ExecError Session) :
    Except ExecError (Nat × Session × ExecutorState) :=
  let openSession : Except ExecError (Nat × Session × ExecutorState) := do
    let session ← opened
    return (st.sessions.length, session, { st with sessions := st.sessions ++ [session] })
  match st.sessions.getLast? with
  | some current =>
    if !current.finished && !current.retiring then .ok (st.sessions.length - 1, current, st)
    else openSession
  | none => openSession

/-- The first session that holds the lease. -/
def sessionFor (st : ExecutorState) (leaseId : String) : Option (Session × Nat) :=
  st.sessions.zipIdx.find? fun entry => entry.1.leases.contains leaseId

/-- Records a lease in the table of the session it went to. -/
def hand (st : ExecutorState) (k : Nat) (session : Session) (spec : TaskSpec) (lease : Lease) :
    ExecutorState :=
  { st.update k { session with leases := session.leases.add lease.leaseId spec.taskId lease.attempt }
    with assigned := st.assigned ++ [⟨lease.leaseId, some k⟩] }

end ExecutorState

namespace LoopbackExecutor

variable (codec : Codec)

/-- `spawned` is the outcome of starting a worker process, should one be needed. -/
def assign (st : ExecutorState) (spec : TaskSpec) (lease : Lease)
    (spawned : Except ExecError Unit) : ExecutorState :=
  match st.liveSession (spawned.map fun _ => newSession) with
  | .error error =>
    { st with
      inbox := st.inbox ++ [.failed lease.leaseId .executorLost error.message]
      assigned := st.assigned ++ [⟨lease.leaseId, none⟩] }
  | .ok (k, session, st) =>
    { st.hand k session spec lease with
      outgoing := (makeLeasedAssignFrame codec spec lease).toOption.map fun frame => (k, frame) }

def cancel (st : ExecutorState) (leaseId : String) : ExecutorState :=
  match st.sessionFor leaseId with
  | none => st
  | some (session, k) =>
    if session.finished then st
    else
      { st.update k { session with leases := session.leases.markCancelled leaseId } with
        outgoing := (makeCancelFrame leaseId).toOption.map fun frame => (k, frame) }

end LoopbackExecutor

namespace RemoteExecutor

variable (codec : Codec)

/-- Throws where the ASSIGN frame cannot be made; nothing is handed over then. -/
def assign (st : ExecutorState) (spec : TaskSpec) (lease : Lease) : Except ExecError ExecutorState := do
  let frame ← makeLeasedAssignFrame codec spec lease
  let (k, session, st) ← st.liveSession (.ok newSession)
  if session.ready then return { st.hand k session spec lease with outgoing := some (k, frame) }
  else
    let queued := { session with pending := session.pending ++ [⟨lease.leaseId, frame⟩] }
    return st.hand k queued spec lease

def cancel (st : ExecutorState) (leaseId : String) : ExecutorState :=
  match st.sessionFor leaseId with
  | none => st
  | some (session, k) =>
    if session.finished then st
    else
      let marked := { session with leases := session.leases.markCancelled leaseId }
      if session.ready then
        { st.update k marked with
          outgoing := (makeCancelFrame leaseId).toOption.map fun frame => (k, frame) }
      else
        st.update k { marked with pending := session.pending.filter (·.leaseId != leaseId) }

/-- Retires the current session when it holds no lease. -/
def closeIdleSession (st : ExecutorState) : ExecutorState :=
  match st.sessions.getLast? with
  | none => st
  | some session =>
    if session.finished || session.retiring || st.stopping || !session.leases.isEmpty ||
        !session.pending.isEmpty then st
    else
      let k := st.sessions.length - 1
      let st := st.update k { session with retiring := true }
      if session.ready then { st with closing := st.closing ++ [k] } else st

end RemoteExecutor

namespace ExecutorState

/-- The scheduler stopped waiting for the lease: its session is torn down. -/
def leaseExpired (st : ExecutorState) (leaseId : String) : ExecutorState :=
  match st.sessionFor leaseId with
  | none => st
  | some (session, k) =>
    if session.finished then st
    else
      st.update k
        { session with leases := session.leases.markCancelled leaseId, retiring := true }

/-- `stop` sets the flag and asks every connected session to shut down; the
sessions end on their own threads. -/
def stop (st : ExecutorState) : ExecutorState :=
  { st with
    stopping := true
    closing := st.closing ++
      (st.sessions.zipIdx.filter fun entry => entry.1.connected && !entry.1.finished).map Prod.snd }

/-- A frame written to session `k`; a write to a connection that is gone fails. -/
def write (st : ExecutorState) (k : Nat) (frame : Frame) (ok : Bool) : ExecutorState :=
  match st.sessions[k]? with
  | some session =>
    if ok then st.update k { session with sent := session.sent ++ [frame] } else st
  | none => st

end ExecutorState

/-! ## The system -/

/-- The calls the scheduler thread makes. -/
inductive ExecutorCall
  | assign (spec : TaskSpec) (lease : Lease) (spawned : Except ExecError Unit)
  | cancel (leaseId : String)
  | leaseExpired (leaseId : String)
  | stop

inductive ExecutorAction
  | call (call : ExecutorCall)
  | callWrites (ok : Bool)
  | closeIdleSession
  | shutdownWritten (k : Nat) (ok : Bool)
  | session (k : Nat) (input : SessionInput)

namespace ExecutorState

variable (setup : ExecutorSetup)

def assign (st : ExecutorState) (spec : TaskSpec) (lease : Lease)
    (spawned : Except ExecError Unit) : ExecutorState :=
  match setup.kind with
  | .loopback => LoopbackExecutor.assign setup.codec st spec lease spawned
  | .remote =>
    match RemoteExecutor.assign setup.codec st spec lease with
    | .ok next => next
    | .error _ => st

def cancel (st : ExecutorState) (leaseId : String) : ExecutorState :=
  match setup.kind with
  | .loopback => LoopbackExecutor.cancel st leaseId
  | .remote => RemoteExecutor.cancel st leaseId

/-- A call of the scheduler thread. Lease ids are fresh: the scheduler numbers
its leases. -/
def call (st : ExecutorState) : ExecutorCall → Option ExecutorState
  | .assign spec lease spawned =>
    if st.assigned.any (·.leaseId == lease.leaseId) then none
    else some (st.assign setup spec lease spawned)
  | .cancel leaseId =>
    some { st.cancel setup leaseId with cancelRequested := leaseId :: st.cancelRequested }
  | .leaseExpired leaseId =>
    some { st.leaseExpired leaseId with cancelRequested := leaseId :: st.cancelRequested }
  | .stop => some st.stop

def step (st : ExecutorState) : ExecutorAction → Option ExecutorState
  | .call call =>
    -- one thread makes all the calls: the next one waits for the last one's write
    match st.outgoing with
    | some _ => none
    | none => st.call setup call
  | .callWrites ok =>
    match st.outgoing with
    | some (k, frame) => some { st.write k frame ok with outgoing := none }
    | none => none
  | .closeIdleSession =>
    match setup.kind with
    | .loopback => none
    | .remote => some (RemoteExecutor.closeIdleSession st)
  | .shutdownWritten k ok =>
    if k ∈ st.closing then
      some { st.write k makeShutdownFrame ok with closing := st.closing.erase k }
    else none
  | .session k input =>
    match st.sessions[k]? with
    | none => none
    | some session =>
      (session.step setup st.stopping input).map fun (next, events) =>
        { st.update k next with inbox := st.inbox ++ events }

end ExecutorState

def sessionExecutorSystem (setup : ExecutorSetup) : Lib.System ExecutorState where
  init st := st = {}
  step st next := ∃ action, st.step setup action = some next

end Svp.Exec

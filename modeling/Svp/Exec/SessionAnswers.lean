import Svp.Exec.SessionExecutor

/-!
# Every lease of a session-backed executor is answered once

A lease handed to a session is owed an answer: it is live in the session's
table, or its answer is in flight (the event the thread is about to deliver, an
orphaned lease it is about to report), or the inbox has it. `Session.Settles`
says that a step of a session moves an owed answer along and never doubles it;
only a cancellation before the session ended, or an executor that is stopping,
may drop one. `step_cases` reduces every action to one of four moves, and
`Accounted` is the invariant they keep.
-/

namespace Svp.Exec

open Lib (OrderedMap)

/-! ## What a session owes -/

/-- The answers a stage still has to deliver. -/
def SessionStage.inFlight (leaseId : String) : SessionStage → Nat
  | .delivering event => answerCount [event] leaseId
  | .reporting _ orphaned => orphaned.count leaseId
  | _ => 0

/-- No answer is in flight, and the session has not finished. -/
def SessionStage.idle : SessionStage → Bool
  | .delivering _ => false
  | .reporting _ _ => false
  | _ => true

theorem SessionStage.inFlight_idle {stage : SessionStage} (idle : stage.idle = true)
    (leaseId : String) : stage.inFlight leaseId = 0 := by
  cases stage <;> first | rfl | cases idle

namespace Session

def owes (s : Session) (leaseId : String) : Nat := s.leases.owed leaseId + s.stage.inFlight leaseId

/-- The session knows the lease, cancelled or not, or has its answer in flight. -/
def Mentions (s : Session) (leaseId : String) : Prop :=
  s.leases.contains leaseId = true ∨ s.stage.inFlight leaseId ≠ 0

theorem mentions_of_owes {s : Session} {leaseId : String} (owes : s.owes leaseId ≠ 0) :
    s.Mentions leaseId := by
  by_contra unknown
  obtain ⟨absent, quiet⟩ := not_or.mp unknown
  have gone : s.leases.find? leaseId = none := by
    simpa [OrderedMap.contains] using absent
  apply owes
  show s.leases.owed leaseId + s.stage.inFlight leaseId = 0
  rw [WorkerSessionLeases.owed_eq_zero gone, not_not.mp quiet]

/-- From `s` to `s'` with `events` delivered: no answer appears, and none is lost
but those of `excused` leases. -/
structure Settles (excused : String → Prop) (s s' : Session) (events : List InboxEvent) : Prop where
  atMost : ∀ id, answerCount events id + s'.owes id ≤ s.owes id
  atLeast : ∀ id, ¬ excused id → s.owes id ≤ answerCount events id + s'.owes id
  mentions : ∀ id, s'.Mentions id → s.Mentions id
  finished : s.finished = true → s'.finished = true
  emptied : (s.finished = true → s.leases = .empty) → s'.finished = true → s'.leases = .empty

theorem finished_idle {s : Session} (idle : s.stage.idle = true) : s.finished = false := by
  unfold finished
  cases stage : s.stage <;> first | rfl | (rw [stage] at idle; cases idle)

/-- A change of a running session that keeps what every lease is owed. -/
theorem Settles.running {excused : String → Prop} {s s' : Session} {events : List InboxEvent}
    (before : s.finished = false) (after : s'.finished = false)
    (balance : ∀ id, answerCount events id + s'.owes id = s.owes id)
    (mentions : ∀ id, s'.Mentions id → s.Mentions id) : Settles excused s s' events where
  atMost id := (balance id).le
  atLeast id _ := (balance id).ge
  mentions := mentions
  finished was := by rw [before] at was; cases was
  emptied _ now := by rw [after] at now; cases now

/-- A step between two stages without answers in flight that leaves the table. -/
theorem Settles.idle {excused : String → Prop} {s s' : Session} (leases : s'.leases = s.leases)
    (before : s.stage.idle = true) (after : s'.stage.idle = true) : Settles excused s s' [] := by
  have flight : ∀ id, s'.stage.inFlight id = s.stage.inFlight id := fun id => by
    rw [SessionStage.inFlight_idle before, SessionStage.inFlight_idle after]
  exact .running (finished_idle before) (finished_idle after)
    (fun id => by simp [owes, leases, flight]) fun id => by simp [Mentions, leases, flight]

/-- One round of the pump moves the claimed lease into flight. -/
theorem settles_pump {excused : String → Prop} (setup : ExecutorSetup) {s : Session}
    (item : StreamRead) (reading : s.stage = .reading) : Settles excused s (s.pump setup item) [] := by
  have account := pumpWorkerFrame_account setup.codec (endOfStreamReason setup.kind) s.leases item
  have idle : s.stage.idle = true := by rw [reading]; rfl
  have running := finished_idle idle
  unfold pump
  generalize pumpWorkerFrame setup.codec (endOfStreamReason setup.kind) s.leases item = round at account
  obtain ⟨round, leases⟩ := round
  have owes : ∀ id, s.owes id = s.leases.owed id := fun id => by
    rw [Session.owes, SessionStage.inFlight_idle idle, add_zero]
  cases round with
  | goesOn =>
    refine .running running (finished_idle idle) (fun id => ?_) fun id mentions => ?_
    · show 0 + (leases.owed id + s.stage.inFlight id) = s.owes id
      rw [owes, ← account.balance id, SessionStage.inFlight_idle idle]
      rfl
    · exact mentions.imp (account.kept id) fun flight => flight
  | delivers event =>
    have balance : ∀ id, answerCount [event] id + leases.owed id = s.leases.owed id := account.balance
    refine .running running rfl (fun id => ?_) fun id mentions => ?_
    · show 0 + (leases.owed id + answerCount [event] id) = s.owes id
      rw [owes, ← balance, zero_add, add_comm]
    · rcases mentions with known | flight
      · exact .inl (account.kept id known)
      · -- the delivered lease was live in the table before the round
        refine mentions_of_owes fun none => flight ?_
        rw [owes, ← balance] at none
        exact (Nat.add_eq_zero_iff.mp none).1
  | ends sessionEnd =>
    refine .running running rfl (fun id => ?_) fun id mentions => ?_
    · show 0 + (leases.owed id + 0) = s.owes id
      rw [owes, ← account.balance id]
      rfl
    · exact mentions.imp (account.kept id) fun flight => absurd rfl flight

/-- The end of a session puts every live lease into flight, unless the executor
is stopping. -/
theorem settles_finish {s : Session} {sessionEnd : WorkerSessionEnd} (stopping : Bool)
    (ending : s.stage = .ending sessionEnd) :
    Settles (fun _ => stopping = true) s (s.finish stopping sessionEnd) [] := by
  have idle : s.stage.idle = true := by rw [ending]; rfl
  have still := SessionStage.inFlight_idle idle
  have count : ∀ id, (if stopping then [] else s.leases.takeLive.1).count id =
      if stopping then 0 else s.leases.owed id := by
    intro id
    cases stopping with
    | true => rfl
    | false => exact s.leases.count_takeLive id
  have after : ∀ id, (s.finish stopping sessionEnd).owes id =
      if stopping then 0 else s.leases.owed id := by
    intro id
    show WorkerSessionLeases.owed .empty id + _ = _
    rw [WorkerSessionLeases.owed_empty, zero_add]
    exact count id
  refine ⟨fun id => ?_, fun id excused => ?_, fun id mentions => ?_, fun was => ?_, fun _ _ => rfl⟩
  · rw [after, answerCount_nil, zero_add, owes]
    split <;> omega
  · rw [after, if_neg excused, owes, still]
    simp
  · rcases mentions with known | flight
    · cases known
    · refine mentions_of_owes fun none => flight ?_
      have zero : s.leases.owed id = 0 := by
        rw [owes, still] at none
        exact none
      exact (count id).trans (by split <;> simp [zero])
  · rw [finished_idle idle] at was
    cases was

/-- A step of a session's thread. What it may lose, it loses at the end of a
session of an executor that is stopping. -/
theorem settles_step {setup : ExecutorSetup} {stopping : Bool} {s s' : Session}
    {input : SessionInput} {events : List InboxEvent}
    (stepped : s.step setup stopping input = some (s', events)) :
    Settles (fun _ => s.finished = false ∧ stopping = true) s s' events := by
  unfold step at stepped
  split at stepped <;> try cases stepped
  · next reason stage => -- a connection opens
    unfold adoptConnection
    split
    · exact .idle rfl (by rw [stage]; rfl) rfl
    · exact .idle rfl (by rw [stage]; rfl) rfl
  · next reason message giveUp stage => -- connecting fails
    cases giveUp with
    | true => exact .idle rfl (by rw [stage]; rfl) rfl
    | false => exact .idle rfl (by rw [stage]; rfl) rfl
  · next reason stage => -- the pause between attempts is over
    cases away : s.retiring || stopping with
    | true => exact .idle rfl (by rw [stage]; rfl) rfl
    | false => exact .idle rfl (by rw [stage]; rfl) rfl
  · next stage => exact .idle rfl (by rw [stage]; rfl) rfl -- the preamble is done
  · next message stage => exact .idle rfl (by rw [stage]; rfl) rfl -- the preamble fails
  · next stage => exact .idle rfl (by rw [stage]; rfl) rfl -- every queued ASSIGN is sent
  · next assign rest ok stage => -- a queued ASSIGN is written
    cases ok with
    | true => exact .idle rfl (by rw [stage]; rfl) rfl
    | false => exact .idle rfl (by rw [stage]; rfl) rfl
  · next item stage => exact settles_pump setup item stage
  · next event stage => -- an event is delivered
    have running : s.finished = false := by rw [finished, stage]
    refine .running running rfl (fun id => ?_) fun id mentions => ?_
    · rw [owes, owes, stage]
      simp only [SessionStage.inFlight]
      omega
    · exact mentions.imp (fun known => known) fun flight => absurd rfl flight
  · next sessionEnd stage =>
    have running : s.finished = false := by rw [finished, stage]
    have settles := settles_finish stopping stage
    exact { settles with atLeast := fun id excused => settles.atLeast id fun h => excused ⟨running, h⟩ }
  · next sessionEnd leaseId rest stage => -- an orphaned lease is reported
    have flight : ∀ id, s.stage.inFlight id =
        answerCount [.failed leaseId sessionEnd.failure sessionEnd.reason] id + rest.count id := by
      intro id
      rw [stage]
      show (leaseId :: rest).count id = _
      by_cases same : leaseId = id <;>
        simp [answerCount, InboxEvent.answers, same, add_comm]
    have balance : ∀ id, answerCount [.failed leaseId sessionEnd.failure sessionEnd.reason] id +
        (s.leases.owed id + rest.count id) = s.owes id := by
      intro id
      rw [owes, flight]
      omega
    refine ⟨fun id => (balance id).le, fun id _ => (balance id).ge, fun id mentions => ?_,
      fun _ => rfl, fun empty _ => empty ?_⟩
    · refine mentions.imp (fun known => known) fun count => ?_
      rw [flight]
      exact fun none => count (Nat.add_eq_zero_iff.mp none).2
    · unfold finished
      rw [stage]

end Session

/-! ## What one action does -/

/-- A step of the executor, as far as answers go: nothing happens, one session
moves, a lease enters the table of a running session, or it is refused because no
worker process starts. -/
inductive Move (st next : ExecutorState) : Prop
  | quiet (sessions : next.sessions = st.sessions) (inbox : next.inbox = st.inbox)
      (assigned : next.assigned = st.assigned)
  | session {k : Nat} {s s' : Session} {events : List InboxEvent}
      (held : st.sessions[k]? = some s)
      (settles : s.Settles (fun id => s.finished = false ∧
        (id ∈ next.cancelRequested ∨ st.stopping = true)) s' events)
      (sessions : next.sessions = st.sessions.set k s')
      (inbox : next.inbox = st.inbox ++ events) (assigned : next.assigned = st.assigned)
  | handed {k : Nat} {s s' : Session} {widened : List Session} {leaseId taskId : String} {attempt : Nat}
      (fresh : ∀ owner, ⟨leaseId, owner⟩ ∉ st.assigned)
      (opened : widened = st.sessions ∨
        widened = st.sessions ++ [s] ∧ k = st.sessions.length ∧ ∀ id, ¬ s.Mentions id)
      (held : widened[k]? = some s) (running : s.finished = false)
      (leases : s'.leases = s.leases.add leaseId taskId attempt) (stage : s'.stage = s.stage)
      (sessions : next.sessions = widened.set k s') (inbox : next.inbox = st.inbox)
      (assigned : next.assigned = st.assigned ++ [⟨leaseId, some k⟩])
  | refused {leaseId : String} {kind : AttemptFailureKind} {reason : String}
      (fresh : ∀ owner, ⟨leaseId, owner⟩ ∉ st.assigned)
      (sessions : next.sessions = st.sessions)
      (inbox : next.inbox = st.inbox ++ [.failed leaseId kind reason])
      (assigned : next.assigned = st.assigned ++ [⟨leaseId, none⟩])

namespace ExecutorState

/-- The session that takes a lease: the current one, still running, or the one
just opened. Nothing else changes. -/
theorem liveSession_eq_ok {st mid : ExecutorState} {opened : Except ExecError Session} {k : Nat}
    {s : Session} (live : st.liveSession opened = .ok (k, s, mid)) :
    mid = { st with sessions := mid.sessions } ∧ mid.sessions[k]? = some s ∧
      (mid.sessions = st.sessions ∧ s.finished = false ∨
        mid.sessions = st.sessions ++ [s] ∧ k = st.sessions.length ∧ opened = .ok s) := by
  have fresh : (do
        let session ← opened
        return (st.sessions.length, session, { st with sessions := st.sessions ++ [session] })) =
        (.ok (k, s, mid) : Except ExecError (Nat × Session × ExecutorState)) →
      mid = { st with sessions := mid.sessions } ∧ mid.sessions[k]? = some s ∧
        (mid.sessions = st.sessions ∧ s.finished = false ∨
          mid.sessions = st.sessions ++ [s] ∧ k = st.sessions.length ∧ opened = .ok s) := by
    intro ok
    obtain ⟨session, found, ok⟩ := bind_eq_ok.mp ok
    cases ok
    exact ⟨rfl, by simp, .inr ⟨rfl, rfl, found⟩⟩
  unfold liveSession at live
  simp only at live
  split at live
  · next current last =>
    split at live
    · next running =>
      cases live
      rw [Bool.and_eq_true, Bool.not_eq_true', Bool.not_eq_true'] at running
      rw [List.getLast?_eq_getElem?] at last
      exact ⟨rfl, last, .inl ⟨rfl, running.1⟩⟩
    · exact fresh live
  · exact fresh live

theorem sessionFor_eq_some {st : ExecutorState} {leaseId : String} {s : Session} {k : Nat}
    (found : st.sessionFor leaseId = some (s, k)) : st.sessions[k]? = some s :=
  List.mem_zipIdx_iff_getElem?.mp (List.mem_of_find?_eq_some found)

end ExecutorState

variable {setup : ExecutorSetup} {st next : ExecutorState}

/-- Setting a session to one with the same leases and stage. -/
theorem Move.same {k : Nat} {s s' : Session} (held : st.sessions[k]? = some s)
    (sessions : next.sessions = st.sessions.set k s') (leases : s'.leases = s.leases)
    (stage : s'.stage = s.stage) (inbox : next.inbox = st.inbox)
    (assigned : next.assigned = st.assigned) : Move st next := by
  have finished : s'.finished = s.finished := by
    unfold Session.finished
    rw [stage]
  have owes : ∀ id, s'.owes id = s.owes id := fun id => by
    rw [Session.owes, Session.owes, leases, stage]
  refine @Move.session st next k s s' [] held ⟨fun id => ?_, fun id _ => ?_, fun id mentions => ?_,
    fun was => ?_, fun empty now => ?_⟩ sessions (by simp [inbox]) assigned
  · simp [owes]
  · simp [owes]
  · rwa [Session.Mentions, leases, stage] at mentions
  · rw [finished, was]
  · rw [leases, empty (finished.symm.trans now)]

/-- Marking a lease of a running session, known to be cancelled from now on. -/
theorem Move.mark (leaseId : String) {k : Nat} {s s' : Session} (held : st.sessions[k]? = some s)
    (running : s.finished = false) (sessions : next.sessions = st.sessions.set k s')
    (leases : s'.leases = s.leases.markCancelled leaseId) (stage : s'.stage = s.stage)
    (cancelled : leaseId ∈ next.cancelRequested) (inbox : next.inbox = st.inbox)
    (assigned : next.assigned = st.assigned) : Move st next := by
  have after : s'.finished = false := by
    unfold Session.finished at running ⊢
    rwa [stage]
  have others : ∀ id, id ≠ leaseId → s'.owes id = s.owes id := fun id ne => by
    rw [Session.owes, Session.owes, leases, stage, WorkerSessionLeases.owed_markCancelled_ne _ ne]
  refine @Move.session st next k s s' [] held ⟨fun id => ?_, fun id excused => ?_, fun id mentions => ?_,
    fun was => ?_, fun _ now => ?_⟩ sessions (by simp [inbox]) assigned
  · by_cases same : id = leaseId
    · subst same
      rw [Session.owes, leases, stage, WorkerSessionLeases.owed_markCancelled, Session.owes]
      simp
    · simp [others id same]
  · by_cases same : id = leaseId
    · exact absurd ⟨running, .inl (same ▸ cancelled)⟩ excused
    · simp [others id same]
  · rw [Session.Mentions, leases, stage] at mentions
    exact mentions.imp WorkerSessionLeases.contains_markCancelled fun flight => flight
  · rw [running] at was
    cases was
  · rw [after] at now
    cases now

theorem Move.hand {mid : ExecutorState} {opened : Except ExecError Session}
    {k : Nat} {s s' : Session} {spec : TaskSpec} {lease : Lease}
    (fresh : st.assigned.any (·.leaseId == lease.leaseId) = false)
    (new : ∀ session, opened = .ok session → session.stage.idle = true ∧ session.leases = .empty)
    (live : st.liveSession opened = .ok (k, s, mid))
    (sessions : next.sessions = (mid.hand k s' spec lease).sessions) (leases : s'.leases = s.leases)
    (stage : s'.stage = s.stage) (inbox : next.inbox = (mid.hand k s' spec lease).inbox)
    (assigned : next.assigned = (mid.hand k s' spec lease).assigned) : Move st next := by
  obtain ⟨same, held, source⟩ := ExecutorState.liveSession_eq_ok live
  have unused : ∀ owner, (⟨lease.leaseId, owner⟩ : Assignment) ∉ st.assigned := by
    intro owner mem
    have := List.any_eq_false.mp fresh _ mem
    simp at this
  have unmentioned : opened = .ok s → ∀ id, ¬ s.Mentions id := by
    intro ok id mentions
    obtain ⟨idle, empty⟩ := new s ok
    rcases mentions with known | flight
    · rw [empty] at known
      cases known
    · exact flight (SessionStage.inFlight_idle idle id)
  have running : s.finished = false := by
    rcases source with ⟨-, running⟩ | ⟨-, -, ok⟩
    · exact running
    · exact Session.finished_idle (new s ok).1
  have added : s'.leases.add lease.leaseId spec.taskId lease.attempt =
      s.leases.add lease.leaseId spec.taskId lease.attempt := by rw [leases]
  let handed : Session := { s' with leases := s'.leases.add lease.leaseId spec.taskId lease.attempt }
  rw [same] at sessions inbox assigned
  exact @Move.handed st next k s handed mid.sessions lease.leaseId spec.taskId lease.attempt unused
    (source.imp (·.1) fun h => ⟨h.1, h.2.1, unmentioned h.2.2⟩) held running added stage sessions
    inbox assigned

namespace ExecutorState

theorem write_sessions (st : ExecutorState) (k : Nat) (frame : Frame) (ok : Bool)
    (outgoing : Option (Nat × Frame)) (closing : List Nat) :
    Move st { st.write k frame ok with outgoing := outgoing, closing := closing } := by
  unfold write
  split
  · next s held =>
    cases ok with
    | true => exact .same held rfl rfl rfl rfl rfl
    | false => exact .quiet rfl rfl rfl
  · exact .quiet rfl rfl rfl

theorem call_cases {call : ExecutorCall} (called : st.call setup call = some next) :
    Move st next := by
  cases call with
  | assign spec lease spawned =>
    simp only [ExecutorState.call] at called
    split at called
    · cases called
    · next fresh =>
      cases called
      have fresh := Bool.not_eq_true _ ▸ fresh
      unfold assign
      cases setup.kind with
      | loopback =>
        simp only [LoopbackExecutor.assign]
        split
        · next error _ =>
          refine .refused (fun owner mem => ?_) rfl rfl rfl
          simpa using List.any_eq_false.mp fresh _ mem
        · next k session mid live =>
          refine .hand fresh (fun session opened => ?_) live rfl rfl rfl rfl rfl
          cases spawned with
          | error error => cases opened
          | ok _ => cases opened; exact ⟨rfl, rfl⟩
      | remote =>
        simp only
        split
        · next result ok =>
          obtain ⟨frame, -, ok⟩ := bind_eq_ok.mp ok
          obtain ⟨⟨k, session, mid⟩, live, ok⟩ := bind_eq_ok.mp ok
          have new : ∀ session, (.ok RemoteExecutor.newSession : Except ExecError Session) =
              .ok session → session.stage.idle = true ∧ session.leases = .empty := by
            intro session opened
            cases opened
            exact ⟨rfl, rfl⟩
          simp only at ok
          split at ok
          · cases ok
            exact .hand fresh new live rfl rfl rfl rfl rfl
          · cases ok
            exact .hand fresh new live rfl rfl rfl rfl rfl
        · exact .quiet rfl rfl rfl
  | cancel leaseId =>
    cases called
    unfold cancel
    cases setup.kind with
    | loopback =>
      simp only [LoopbackExecutor.cancel]
      split
      · exact .quiet rfl rfl rfl
      · next session k found =>
        split
        · exact .quiet rfl rfl rfl
        · next running =>
          exact .mark leaseId (sessionFor_eq_some found) (Bool.not_eq_true _ ▸ running)
            rfl rfl rfl (by simp) rfl rfl
    | remote =>
      simp only [RemoteExecutor.cancel]
      split
      · exact .quiet rfl rfl rfl
      · next session k found =>
        split
        · exact .quiet rfl rfl rfl
        · next running =>
          split
          · exact .mark leaseId (sessionFor_eq_some found)
              (Bool.not_eq_true _ ▸ running) rfl rfl rfl (by simp) rfl rfl
          · exact .mark leaseId (sessionFor_eq_some found)
              (Bool.not_eq_true _ ▸ running) rfl rfl rfl (by simp) rfl rfl
  | leaseExpired leaseId =>
    cases called
    unfold leaseExpired
    split
    · exact .quiet rfl rfl rfl
    · next session k found =>
      split
      · exact .quiet rfl rfl rfl
      · next running =>
        exact .mark leaseId (sessionFor_eq_some found) (Bool.not_eq_true _ ▸ running)
          rfl rfl rfl (by simp) rfl rfl
  | stop =>
    cases called
    exact .quiet rfl rfl rfl

/-- Every action is one of the four moves. -/
theorem step_cases {action : ExecutorAction} (stepped : st.step setup action = some next) :
    Move st next := by
  cases action with
  | call call =>
    simp only [step] at stepped
    split at stepped
    · cases stepped
    · exact call_cases stepped
  | callWrites ok =>
    simp only [step] at stepped
    split at stepped
    · cases stepped
      exact write_sessions ..
    · cases stepped
  | closeIdleSession =>
    simp only [step] at stepped
    split at stepped
    · cases stepped
    · cases stepped
      unfold RemoteExecutor.closeIdleSession
      split
      · exact .quiet rfl rfl rfl
      · next session last =>
        rw [List.getLast?_eq_getElem?] at last
        split
        · exact .quiet rfl rfl rfl
        · simp only
          split
          · exact .same last rfl rfl rfl rfl rfl
          · exact .same last rfl rfl rfl rfl rfl
  | shutdownWritten k ok =>
    simp only [step] at stepped
    split at stepped
    · cases stepped
      exact write_sessions ..
    · cases stepped
  | session k input =>
    simp only [step] at stepped
    split at stepped
    · cases stepped
    · next s held =>
      obtain ⟨⟨s', events⟩, moved, rfl⟩ := Option.map_eq_some_iff.mp stepped
      have settles := Session.settles_step moved
      refine .session held { settles with atLeast := fun id excused => ?_ } rfl rfl rfl
      exact settles.atLeast id fun h => excused ⟨h.1, .inr h.2⟩

end ExecutorState

/-! ## The invariant -/

/-- The account of every lease handed over. -/
structure Accounted (st : ExecutorState) : Prop where
  unique : (st.assigned.map Assignment.leaseId).Nodup
  opened : ∀ id k, ⟨id, some k⟩ ∈ st.assigned → k < st.sessions.length
  owned : ∀ k (s : Session) id, st.sessions[k]? = some s → s.Mentions id → ⟨id, some k⟩ ∈ st.assigned
  known : ∀ id, st.answers id ≠ 0 → ∃ owner, ⟨id, owner⟩ ∈ st.assigned
  refused : ∀ id, ⟨id, none⟩ ∈ st.assigned → st.answers id = 1
  once : ∀ id k (s : Session), ⟨id, some k⟩ ∈ st.assigned → st.sessions[k]? = some s →
    st.answers id + s.owes id ≤ 1
  kept : ∀ id k (s : Session), ⟨id, some k⟩ ∈ st.assigned → st.sessions[k]? = some s →
    id ∉ st.cancelRequested → st.stopping = false → st.answers id + s.owes id = 1
  emptied : ∀ (k : Nat) (s : Session), st.sessions[k]? = some s → s.finished = true → s.leases = .empty

theorem not_stopping (onward : st.stopping = true → next.stopping = true)
    (running : next.stopping = false) : st.stopping = false := by
  cases flag : st.stopping with
  | false => rfl
  | true =>
    rw [onward flag] at running
    cases running

namespace Accounted

theorem start : Accounted {} where
  unique := List.nodup_nil
  opened _ _ mem := by cases mem
  owned _ _ _ held := by cases held
  known _ answered := absurd rfl answered
  refused _ mem := by cases mem
  once _ _ _ mem := by cases mem
  kept _ _ _ mem := by cases mem
  emptied _ _ held := by cases held

/-- A lease has one owner. -/
theorem owner_unique (h : Accounted st) {id : String} {a b : Option Nat}
    (ha : ⟨id, a⟩ ∈ st.assigned) (hb : ⟨id, b⟩ ∈ st.assigned) : a = b := by
  have same := List.inj_on_of_nodup_map h.unique ha hb rfl
  cases same
  rfl

/-- A session owes nothing to a lease another session, or none, was handed. -/
theorem owes_foreign (h : Accounted st) {id : String} {owner : Option Nat} {k : Nat} {s : Session}
    (mem : ⟨id, owner⟩ ∈ st.assigned) (held : st.sessions[k]? = some s) (other : owner ≠ some k) :
    s.owes id = 0 := by
  by_contra owes
  exact other (h.owner_unique mem (h.owned k s id held (Session.mentions_of_owes owes)))

/-- The move of one session keeps the account. -/
theorem session (h : Accounted st) {k : Nat} {s s' : Session} {events : List InboxEvent}
    (held : st.sessions[k]? = some s)
    (settles : s.Settles (fun id => s.finished = false ∧
      (id ∈ next.cancelRequested ∨ st.stopping = true)) s' events)
    (sessions : next.sessions = st.sessions.set k s') (inbox : next.inbox = st.inbox ++ events)
    (assigned : next.assigned = st.assigned)
    (cancelled : ∀ id ∈ st.cancelRequested, id ∈ next.cancelRequested)
    (stopping : st.stopping = true → next.stopping = true) : Accounted next := by
  have answers : ∀ id, next.answers id = st.answers id + answerCount events id := fun id => by
    rw [ExecutorState.answers, inbox, answerCount_append]
    rfl
  -- only the owner of a lease delivers answers to it
  have foreign : ∀ id owner, ⟨id, owner⟩ ∈ st.assigned → owner ≠ some k →
      answerCount events id = 0 := fun id owner mem other => by
    have none := h.owes_foreign mem held other
    have atMost := settles.atMost id
    omega
  have lookup : ∀ j t, next.sessions[j]? = some t → j = k ∧ t = s' ∨ j ≠ k ∧ st.sessions[j]? = some t := by
    intro j t at_
    rw [sessions, List.getElem?_set] at at_
    split at at_
    · next same =>
      split at at_
      · exact .inl ⟨same.symm, (Option.some.inj at_).symm⟩
      · cases at_
    · next other => exact .inr ⟨fun same => other same.symm, at_⟩
  refine ⟨assigned ▸ h.unique, fun id j mem => ?_, fun j t id at_ mentions => ?_,
    fun id answered => ?_, fun id mem => ?_, fun id j t mem at_ => ?_,
    fun id j t mem at_ uncancelled running => ?_, fun j t at_ finished => ?_⟩
  · rw [sessions, List.length_set]
    exact h.opened id j (assigned ▸ mem)
  · rw [assigned]
    rcases lookup j t at_ with ⟨rfl, rfl⟩ | ⟨-, old⟩
    · exact h.owned j s id held (settles.mentions id mentions)
    · exact h.owned j t id old mentions
  · rw [assigned]
    by_cases before : st.answers id = 0
    · rw [answers, before, zero_add] at answered
      have atMost := settles.atMost id
      exact ⟨_, h.owned k s id held (Session.mentions_of_owes (by omega))⟩
    · exact h.known id before
  · rw [assigned] at mem
    rw [answers, foreign id none mem (by simp), h.refused id mem]
  · rw [assigned] at mem
    rcases lookup j t at_ with ⟨rfl, rfl⟩ | ⟨other, old⟩
    · have once := h.once id j s mem held
      have atMost := settles.atMost id
      rw [answers]
      omega
    · rw [answers, foreign id _ mem (by simpa using other)]
      exact h.once id j t mem old
  · rw [assigned] at mem
    have before : id ∉ st.cancelRequested := fun requested => uncancelled (cancelled id requested)
    have was := not_stopping stopping running
    rcases lookup j t at_ with ⟨rfl, rfl⟩ | ⟨other, old⟩
    · have kept := h.kept id j s mem held before was
      have atMost := settles.atMost id
      have atLeast := settles.atLeast id fun excused =>
        excused.2.elim uncancelled fun flag => by rw [was] at flag; cases flag
      rw [answers]
      omega
    · rw [answers, foreign id _ mem (by simpa using other)]
      exact h.kept id j t mem old before was
  · rcases lookup j t at_ with ⟨rfl, rfl⟩ | ⟨-, old⟩
    · exact settles.emptied (h.emptied j s held) finished
    · exact h.emptied j t old finished

theorem unanswered (h : Accounted st) {leaseId : String}
    (fresh : ∀ owner, ⟨leaseId, owner⟩ ∉ st.assigned) : st.answers leaseId = 0 := by
  by_contra answered
  obtain ⟨owner, mem⟩ := h.known leaseId answered
  exact fresh owner mem

theorem unique_append (h : Accounted st) {leaseId : String} {owner : Option Nat}
    (fresh : ∀ owner, ⟨leaseId, owner⟩ ∉ st.assigned) :
    ((st.assigned ++ [(⟨leaseId, owner⟩ : Assignment)]).map Assignment.leaseId).Nodup := by
  rw [List.map_append]
  refine List.nodup_append.mpr ⟨h.unique, by simp, ?_⟩
  intro id old new mem same
  obtain ⟨a, amem, rfl⟩ := List.mem_map.mp old
  simp only [List.map_cons, List.map_nil, List.mem_singleton] at mem
  exact fresh a.session (by rw [← mem, ← same]; exact amem)

theorem mem_assigned_append {leaseId id : String} {owner owner' : Option Nat}
    (fresh : ∀ owner, ⟨leaseId, owner⟩ ∉ st.assigned)
    (mem : (⟨id, owner'⟩ : Assignment) ∈ st.assigned ++ [⟨leaseId, owner⟩]) :
    ⟨id, owner'⟩ ∈ st.assigned ∧ id ≠ leaseId ∨ id = leaseId ∧ owner' = owner := by
  rw [List.mem_append, List.mem_singleton] at mem
  rcases mem with old | new
  · exact .inl ⟨old, fun same => fresh owner' (same ▸ old)⟩
  · cases new
    exact .inr ⟨rfl, rfl⟩

/-- Opening a session that knows no lease keeps the account. -/
theorem openSession (h : Accounted st) {s : Session} (silent : ∀ id, ¬ s.Mentions id)
    (running : s.finished = false) : Accounted { st with sessions := st.sessions ++ [s] } := by
  have lookup : ∀ (j : Nat) (t : Session), (st.sessions ++ [s])[j]? = some t → st.sessions[j]? = some t ∨ t = s := by
    intro j t at_
    rcases List.mem_append.mp (List.mem_of_getElem? at_) with old | new
    · by_cases inside : j < st.sessions.length
      · rw [List.getElem?_append_left inside] at at_
        exact .inl at_
      · rw [List.getElem?_append_right (not_lt.mp inside)] at at_
        exact .inr (List.mem_singleton.mp (List.mem_of_getElem? at_))
    · exact .inr (List.mem_singleton.mp new)
  -- a lease already handed over belongs to one of the old sessions
  have old : ∀ id j (t : Session), ⟨id, some j⟩ ∈ st.assigned → (st.sessions ++ [s])[j]? = some t →
      st.sessions[j]? = some t := by
    intro id j t mem at_
    rwa [List.getElem?_append_left (h.opened id j mem)] at at_
  refine ⟨h.unique, fun id j mem => ?_, fun j t id at_ mentions => ?_, h.known, h.refused,
    fun id j t mem at_ => h.once id j t mem (old id j t mem at_),
    fun id j t mem at_ => h.kept id j t mem (old id j t mem at_), fun j t at_ finished => ?_⟩
  · exact (h.opened id j mem).trans_le (by simp)
  · rcases lookup j t at_ with before | rfl
    · exact h.owned j t id before mentions
    · exact absurd mentions (silent id)
  · rcases lookup j t at_ with before | rfl
    · exact h.emptied j t before finished
    · rw [running] at finished
      cases finished

/-- A lease that enters the table of a running session is owed one answer. -/
theorem handed (h : Accounted st) {k : Nat} {s s' : Session} {leaseId taskId : String}
    {attempt : Nat} (fresh : ∀ owner, ⟨leaseId, owner⟩ ∉ st.assigned)
    (held : st.sessions[k]? = some s) (running : s.finished = false)
    (leases : s'.leases = s.leases.add leaseId taskId attempt) (stage : s'.stage = s.stage)
    (sessions : next.sessions = st.sessions.set k s') (inbox : next.inbox = st.inbox)
    (assigned : next.assigned = st.assigned ++ [⟨leaseId, some k⟩])
    (cancelled : ∀ id ∈ st.cancelRequested, id ∈ next.cancelRequested)
    (stopping : st.stopping = true → next.stopping = true) : Accounted next := by
  have answers : ∀ id, next.answers id = st.answers id := fun id => by
    rw [ExecutorState.answers, inbox]
    rfl
  have unanswered := h.unanswered fresh
  have inside : k < st.sessions.length := (List.getElem?_eq_some_iff.mp held).1
  have lookup : ∀ j t, next.sessions[j]? = some t →
      j = k ∧ t = s' ∨ j ≠ k ∧ st.sessions[j]? = some t := by
    intro j t at_
    by_cases same : j = k
    · rw [sessions, same, List.getElem?_set_self inside] at at_
      exact .inl ⟨same, (Option.some.inj at_).symm⟩
    · rw [sessions, List.getElem?_set_ne (Ne.symm same)] at at_
      exact .inr ⟨same, at_⟩
  have owes : s'.owes leaseId = 1 := by
    have flight : s.stage.inFlight leaseId = 0 := by
      by_contra nonzero
      exact fresh _ (h.owned k s leaseId held (.inr nonzero))
    rw [Session.owes, leases, stage, WorkerSessionLeases.owed_add, flight]
  have owes_ne : ∀ id, id ≠ leaseId → s'.owes id = s.owes id := fun id ne => by
    rw [Session.owes, Session.owes, leases, stage, WorkerSessionLeases.owed_add_ne _ _ _ ne]
  have mentions_ne : ∀ id, id ≠ leaseId → s'.Mentions id → s.Mentions id := fun id ne mentions => by
    rw [Session.Mentions, leases, stage] at mentions
    refine mentions.imp (fun known => ?_) fun flight => flight
    rwa [OrderedMap.contains, WorkerSessionLeases.add, OrderedMap.find?_insert, if_neg ne] at known
  have known : ∀ id owner, ⟨id, owner⟩ ∈ next.assigned →
      ⟨id, owner⟩ ∈ st.assigned ∧ id ≠ leaseId ∨ id = leaseId ∧ owner = some k :=
    fun id owner mem => mem_assigned_append fresh (assigned ▸ mem)
  have old_mem : ∀ {a : Assignment}, a ∈ st.assigned → a ∈ next.assigned := fun mem => by
    rw [assigned]
    exact List.mem_append_left _ mem
  refine ⟨?_, fun id j mem => ?_, fun j t id at_ mentions => ?_, fun id answered => ?_,
    fun id mem => ?_, fun id j t mem at_ => ?_, fun id j t mem at_ uncancelled still => ?_,
    fun j t at_ finished => ?_⟩
  · exact assigned ▸ h.unique_append fresh
  · rw [sessions, List.length_set]
    rcases known id _ mem with ⟨old, -⟩ | ⟨-, new⟩
    · exact h.opened id j old
    · cases new
      exact inside
  · rcases lookup j t at_ with ⟨rfl, rfl⟩ | ⟨other, old⟩
    · by_cases same : id = leaseId
      · rw [same, assigned]
        simp
      · exact old_mem (h.owned j s id held (mentions_ne id same mentions))
    · exact old_mem (h.owned j t id old mentions)
  · rw [answers] at answered
    obtain ⟨owner, mem⟩ := h.known id answered
    exact ⟨owner, old_mem mem⟩
  · rcases known id _ mem with ⟨old, -⟩ | ⟨-, new⟩
    · rw [answers, h.refused id old]
    · cases new
  · rcases known id _ mem with ⟨old, ne⟩ | ⟨rfl, new⟩
    · rcases lookup j t at_ with ⟨rfl, rfl⟩ | ⟨other, before⟩
      · rw [answers, owes_ne id ne]
        exact h.once id j s old held
      · rw [answers]
        exact h.once id j t old before
    · cases new
      rcases lookup k t at_ with ⟨-, rfl⟩ | ⟨other, -⟩
      · rw [answers, unanswered, owes]
      · exact absurd rfl other
  · have before : id ∉ st.cancelRequested := fun requested => uncancelled (cancelled id requested)
    have was := not_stopping stopping still
    rcases known id _ mem with ⟨old, ne⟩ | ⟨rfl, new⟩
    · rcases lookup j t at_ with ⟨rfl, rfl⟩ | ⟨other, prior⟩
      · rw [answers, owes_ne id ne]
        exact h.kept id j s old held before was
      · rw [answers]
        exact h.kept id j t old prior before was
    · cases new
      rcases lookup k t at_ with ⟨-, rfl⟩ | ⟨other, -⟩
      · rw [answers, unanswered, owes]
      · exact absurd rfl other
  · rcases lookup j t at_ with ⟨rfl, rfl⟩ | ⟨other, prior⟩
    · unfold Session.finished at finished running
      rw [stage, running] at finished
      cases finished
    · exact h.emptied j t prior finished

/-- A lease no process could be started for is answered at once. -/
theorem refuse (h : Accounted st) {leaseId : String} {kind : AttemptFailureKind} {reason : String}
    (fresh : ∀ owner, ⟨leaseId, owner⟩ ∉ st.assigned) (sessions : next.sessions = st.sessions)
    (inbox : next.inbox = st.inbox ++ [.failed leaseId kind reason])
    (assigned : next.assigned = st.assigned ++ [⟨leaseId, none⟩])
    (cancelled : ∀ id ∈ st.cancelRequested, id ∈ next.cancelRequested)
    (stopping : st.stopping = true → next.stopping = true) : Accounted next := by
  have answers : ∀ id, next.answers id = st.answers id + if id = leaseId then 1 else 0 := fun id => by
    rw [ExecutorState.answers, inbox, answerCount_append]
    by_cases same : leaseId = id
    · simp [ExecutorState.answers, answerCount, InboxEvent.answers, same]
    · simp [ExecutorState.answers, answerCount, InboxEvent.answers, same, Ne.symm same]
  have unanswered := h.unanswered fresh
  have known : ∀ id owner, ⟨id, owner⟩ ∈ next.assigned →
      ⟨id, owner⟩ ∈ st.assigned ∧ id ≠ leaseId ∨ id = leaseId ∧ owner = none :=
    fun id owner mem => mem_assigned_append fresh (assigned ▸ mem)
  have old_mem : ∀ {a : Assignment}, a ∈ st.assigned → a ∈ next.assigned := fun mem => by
    rw [assigned]
    exact List.mem_append_left _ mem
  have old_some : ∀ id j, ⟨id, some j⟩ ∈ next.assigned →
      ⟨id, some j⟩ ∈ st.assigned ∧ next.answers id = st.answers id := by
    intro id j mem
    rcases known id _ mem with ⟨old, ne⟩ | ⟨-, new⟩
    · exact ⟨old, by rw [answers, if_neg ne, add_zero]⟩
    · cases new
  refine ⟨?_, fun id j mem => ?_, fun j t id at_ mentions => ?_, fun id answered => ?_,
    fun id mem => ?_, fun id j t mem at_ => ?_, fun id j t mem at_ uncancelled still => ?_,
    fun j t at_ finished => ?_⟩
  · exact assigned ▸ h.unique_append fresh
  · rw [sessions]
    exact h.opened id j (old_some id j mem).1
  · exact old_mem (h.owned j t id (sessions ▸ at_) mentions)
  · by_cases same : id = leaseId
    · exact ⟨none, by rw [same, assigned]; simp⟩
    · rw [answers, if_neg same] at answered
      obtain ⟨owner, mem⟩ := h.known id answered
      exact ⟨owner, old_mem mem⟩
  · rcases known id _ mem with ⟨old, ne⟩ | ⟨rfl, -⟩
    · rw [answers, if_neg ne, h.refused id old]
    · rw [answers, unanswered, if_pos rfl]
  · obtain ⟨old, same⟩ := old_some id j mem
    rw [same]
    exact h.once id j t old (sessions ▸ at_)
  · obtain ⟨old, same⟩ := old_some id j mem
    rw [same]
    exact h.kept id j t old (sessions ▸ at_) (fun requested => uncancelled (cancelled id requested))
      (not_stopping stopping still)
  · exact h.emptied j t (sessions ▸ at_) finished

end Accounted

/-! ## Every run -/

namespace ExecutorState

theorem liveSession_flags {mid : ExecutorState} {opened : Except ExecError Session} {k : Nat}
    {s : Session} (live : st.liveSession opened = .ok (k, s, mid)) :
    mid.cancelRequested = st.cancelRequested ∧ mid.stopping = st.stopping := by
  obtain ⟨same, -, -⟩ := liveSession_eq_ok live
  rw [same]
  exact ⟨rfl, rfl⟩

/-- Requests to cancel and to stop are never taken back. -/
structure Onward (st next : ExecutorState) : Prop where
  cancelled : ∀ id ∈ st.cancelRequested, id ∈ next.cancelRequested
  stopping : st.stopping = true → next.stopping = true

theorem Onward.same (cancelled : next.cancelRequested = st.cancelRequested)
    (stopping : next.stopping = st.stopping) : Onward st next :=
  ⟨fun _ mem => cancelled ▸ mem, fun flag => stopping.trans flag⟩

theorem onward_assign (st : ExecutorState) (spec : TaskSpec) (lease : Lease)
    (spawned : Except ExecError Unit) : Onward st (st.assign setup spec lease spawned) := by
  unfold assign
  cases setup.kind with
  | loopback =>
    simp only [LoopbackExecutor.assign]
    split
    · exact .same rfl rfl
    · next live => exact .same (liveSession_flags live).1 (liveSession_flags live).2
  | remote =>
    simp only
    split
    · next ok =>
      obtain ⟨frame, -, ok⟩ := bind_eq_ok.mp ok
      obtain ⟨⟨k, session, mid⟩, live, ok⟩ := bind_eq_ok.mp ok
      obtain ⟨cancelled, stopping⟩ := liveSession_flags live
      simp only at ok
      split at ok <;> cases ok <;> exact .same cancelled stopping
    · exact .same rfl rfl

theorem cancel_flags (st : ExecutorState) (leaseId : String) :
    (st.cancel setup leaseId).stopping = st.stopping := by
  unfold cancel
  cases setup.kind with
  | loopback =>
    simp only [LoopbackExecutor.cancel]
    split
    · rfl
    · split <;> rfl
  | remote =>
    simp only [RemoteExecutor.cancel]
    split
    · rfl
    · split
      · rfl
      · split <;> rfl

theorem leaseExpired_flags (st : ExecutorState) (leaseId : String) :
    (st.leaseExpired leaseId).stopping = st.stopping := by
  unfold leaseExpired
  split
  · rfl
  · split <;> rfl

theorem write_flags (st : ExecutorState) (k : Nat) (frame : Frame) (ok : Bool) :
    (st.write k frame ok).cancelRequested = st.cancelRequested ∧
      (st.write k frame ok).stopping = st.stopping := by
  unfold write
  split
  · cases ok <;> exact ⟨rfl, rfl⟩
  · exact ⟨rfl, rfl⟩

theorem onward_step {action : ExecutorAction} (stepped : st.step setup action = some next) :
    Onward st next := by
  cases action with
  | call call =>
    simp only [step] at stepped
    split at stepped
    · cases stepped
    · cases call with
      | assign spec lease spawned =>
        simp only [ExecutorState.call] at stepped
        split at stepped
        · cases stepped
        · cases stepped
          exact onward_assign st spec lease spawned
      | cancel leaseId =>
        cases stepped
        exact ⟨fun id mem => List.mem_cons_of_mem _ mem, fun flag => (cancel_flags st leaseId).trans flag⟩
      | leaseExpired leaseId =>
        cases stepped
        exact ⟨fun id mem => List.mem_cons_of_mem _ mem,
          fun flag => (leaseExpired_flags st leaseId).trans flag⟩
      | stop =>
        cases stepped
        exact ⟨fun id mem => mem, fun _ => rfl⟩
  | callWrites ok =>
    simp only [step] at stepped
    split at stepped
    · next k frame _ =>
      cases stepped
      exact .same (write_flags st k frame ok).1 (write_flags st k frame ok).2
    · cases stepped
  | closeIdleSession =>
    simp only [step] at stepped
    split at stepped
    · cases stepped
    · cases stepped
      unfold RemoteExecutor.closeIdleSession
      split
      · exact .same rfl rfl
      · split
        · exact .same rfl rfl
        · simp only
          split <;> exact .same rfl rfl
  | shutdownWritten k ok =>
    simp only [step] at stepped
    split at stepped
    · cases stepped
      exact .same (write_flags st k makeShutdownFrame ok).1 (write_flags st k makeShutdownFrame ok).2
    · cases stepped
  | session k input =>
    simp only [step] at stepped
    split at stepped
    · cases stepped
    · obtain ⟨moved, -, rfl⟩ := Option.map_eq_some_iff.mp stepped
      exact .same rfl rfl

end ExecutorState

/-- A step keeps the account. -/
theorem Accounted.step (h : Accounted st) {action : ExecutorAction}
    (stepped : st.step setup action = some next) : Accounted next := by
  obtain ⟨cancelled, stopping⟩ := ExecutorState.onward_step stepped
  cases ExecutorState.step_cases stepped with
  | quiet sessions inbox assigned =>
    have answers : ∀ id, next.answers id = st.answers id := fun id => by
      rw [ExecutorState.answers, inbox]
      rfl
    refine ⟨assigned ▸ h.unique, fun id j mem => ?_, fun j t id at_ mentions => ?_,
      fun id answered => ?_, fun id mem => ?_, fun id j t mem at_ => ?_,
      fun id j t mem at_ uncancelled still => ?_, fun j t at_ finished => ?_⟩
    · rw [sessions]
      exact h.opened id j (assigned ▸ mem)
    · rw [assigned]
      exact h.owned j t id (sessions ▸ at_) mentions
    · rw [assigned]
      exact h.known id (answers id ▸ answered)
    · rw [answers]
      exact h.refused id (assigned ▸ mem)
    · rw [answers]
      exact h.once id j t (assigned ▸ mem) (sessions ▸ at_)
    · rw [answers]
      exact h.kept id j t (assigned ▸ mem) (sessions ▸ at_)
        (fun requested => uncancelled (cancelled id requested)) (not_stopping stopping still)
    · exact h.emptied j t (sessions ▸ at_) finished
  | session held settles sessions inbox assigned =>
    exact h.session held settles sessions inbox assigned cancelled stopping
  | handed fresh opened held running leases stage sessions inbox assigned =>
    rcases opened with rfl | ⟨rfl, -, silent⟩
    · exact h.handed fresh held running leases stage sessions inbox assigned cancelled stopping
    · exact (h.openSession silent running).handed fresh held running leases stage sessions inbox
        assigned cancelled stopping
  | refused fresh sessions inbox assigned =>
    exact h.refuse fresh sessions inbox assigned cancelled stopping

theorem reachable_accounted (reachable : (sessionExecutorSystem setup).Reachable st) :
    Accounted st := by
  refine Lib.System.Reachable.invariant (P := Accounted) ?_ ?_ reachable
  · rintro s rfl
    exact Accounted.start
  · rintro s t - h ⟨action, stepped⟩
    exact h.step stepped

/-! ## After the end of a session -/

/-- Once a session has finished it takes no lease, and what its leases have been
answered and are still owed stays the same. -/
theorem Accounted.settled (h : Accounted st) {action : ExecutorAction}
    (stepped : st.step setup action = some next) {k : Nat} {s : Session}
    (held : st.sessions[k]? = some s) (finished : s.finished = true) :
    ∃ s', next.sessions[k]? = some s' ∧ s'.finished = true ∧
      (∀ id, ⟨id, some k⟩ ∈ next.assigned → ⟨id, some k⟩ ∈ st.assigned) ∧
      ∀ id, ⟨id, some k⟩ ∈ st.assigned → next.answers id + s'.owes id = st.answers id + s.owes id := by
  have inside : k < st.sessions.length := (List.getElem?_eq_some_iff.mp held).1
  cases ExecutorState.step_cases stepped with
  | quiet sessions inbox assigned =>
    refine ⟨s, sessions ▸ held, finished, fun id mem => assigned ▸ mem, fun id _ => ?_⟩
    rw [ExecutorState.answers, inbox]
    rfl
  | @session j t t' events heldj settles sessions inbox assigned =>
    have answers : ∀ id, next.answers id = st.answers id + answerCount events id := fun id => by
      rw [ExecutorState.answers, inbox, answerCount_append]
      rfl
    by_cases same : j = k
    · subst same
      obtain rfl : t = s := Option.some.inj (heldj.symm.trans held)
      refine ⟨t', by rw [sessions, List.getElem?_set_self inside], settles.finished finished,
        fun id mem => assigned ▸ mem, fun id _ => ?_⟩
      have atMost := settles.atMost id
      have atLeast := settles.atLeast id fun excused => by
        rw [finished] at excused
        exact absurd excused.1 (by simp)
      rw [answers]
      omega
    · refine ⟨s, by rw [sessions, List.getElem?_set_ne same, held], finished,
        fun id mem => assigned ▸ mem, fun id mem => ?_⟩
      have none := h.owes_foreign mem heldj fun owner => same (Option.some.inj owner).symm
      have atMost := settles.atMost id
      rw [answers]
      omega
  | @handed j t t' widened leaseId taskId attempt fresh opened heldj running leases stage sessions inbox
      assigned =>
    have other : j ≠ k := by
      rintro rfl
      rcases opened with rfl | ⟨-, rfl, -⟩
      · rw [Option.some.inj (held.symm.trans heldj), running] at finished
        cases finished
      · exact lt_irrefl _ inside
    have kept : widened[k]? = some s := by
      rcases opened with rfl | ⟨rfl, -, -⟩
      · exact held
      · rw [List.getElem?_append_left inside, held]
    refine ⟨s, by rw [sessions, List.getElem?_set_ne other, kept], finished, fun id mem => ?_,
      fun id _ => ?_⟩
    · rcases Accounted.mem_assigned_append fresh (assigned ▸ mem) with ⟨old, -⟩ | ⟨-, new⟩
      · exact old
      · exact absurd (Option.some.inj new).symm other
    · rw [ExecutorState.answers, inbox]
      rfl
  | @refused leaseId kind reason fresh sessions inbox assigned =>
    refine ⟨s, sessions ▸ held, finished, fun id mem => ?_, fun id mem => ?_⟩
    · rcases Accounted.mem_assigned_append fresh (assigned ▸ mem) with ⟨old, -⟩ | ⟨-, new⟩
      · exact old
      · cases new
    · have ne : leaseId ≠ id := fun same => fresh _ (same ▸ mem)
      rw [ExecutorState.answers, inbox, answerCount_append]
      simp [ExecutorState.answers, answerCount, InboxEvent.answers, ne]

/-- What a session's thread owes when it is done: nothing. -/
theorem owes_done (h : Accounted st) {k : Nat} {s : Session} (held : st.sessions[k]? = some s)
    (done : s.done = true) (id : String) : s.owes id = 0 := by
  obtain ⟨sessionEnd, stage⟩ : ∃ e, s.stage = .reporting e [] := by
    unfold Session.done at done
    split at done
    · next e stage => exact ⟨e, stage⟩
    · cases done
  have finished : s.finished = true := by rw [Session.finished, stage]
  rw [Session.owes, h.emptied k s held finished, stage]
  rfl

/-- From a state in which a session has finished on, the run keeps the session's
leases and what each of them has been answered and is still owed. -/
theorem settled_run {v w : ExecutorState} (reachable : (sessionExecutorSystem setup).Reachable v)
    (run : (sessionExecutorSystem setup).Leads v w) {k : Nat} {s : Session}
    (held : v.sessions[k]? = some s) (finished : s.finished = true) :
    ∃ t, w.sessions[k]? = some t ∧ t.finished = true ∧
      (∀ id, ⟨id, some k⟩ ∈ w.assigned → ⟨id, some k⟩ ∈ v.assigned) ∧
      ∀ id, ⟨id, some k⟩ ∈ w.assigned → w.answers id + t.owes id = v.answers id + s.owes id := by
  refine Lib.System.Leads.preserves_reachable (P := fun w => ∃ t, w.sessions[k]? = some t ∧
    t.finished = true ∧ (∀ id, ⟨id, some k⟩ ∈ w.assigned → ⟨id, some k⟩ ∈ v.assigned) ∧
    ∀ id, ⟨id, some k⟩ ∈ w.assigned → w.answers id + t.owes id = v.answers id + s.owes id)
    ?_ reachable run ⟨s, held, finished, fun _ mem => mem, fun _ _ => rfl⟩
  rintro x y reachable ⟨t, heldx, finishedx, closed, account⟩ ⟨action, stepped⟩
  obtain ⟨t', heldy, finishedy, closedy, accounty⟩ :=
    (reachable_accounted reachable).settled stepped heldx finishedx
  refine ⟨t', heldy, finishedy, fun id mem => closed id (closedy id mem), fun id mem => ?_⟩
  rw [accounty id (closedy id mem), account id (closedy id mem)]

/-- Every lease handed to a session-backed executor is answered exactly once:
never twice and never unasked; at once where no worker process starts; and, once
the thread of its session is done, if neither a cancel or an expiry of the lease
nor a stop of the executor came before the session finished. -/
structure AnswersOnce (setup : ExecutorSetup) : Prop where
  atMostOnce : ∀ st, (sessionExecutorSystem setup).Reachable st → ∀ id, st.answers id ≤ 1
  assignedOnly : ∀ st, (sessionExecutorSystem setup).Reachable st → ∀ id,
    (∀ a ∈ st.assigned, a.leaseId ≠ id) → st.answers id = 0
  refused : ∀ st, (sessionExecutorSystem setup).Reachable st → ∀ id,
    ⟨id, none⟩ ∈ st.assigned → st.answers id = 1
  exactlyOnce : ∀ (v w : ExecutorState) (k : Nat) (ended final : Session) (id : String),
    (sessionExecutorSystem setup).Reachable v → (sessionExecutorSystem setup).Leads v w →
    v.sessions[k]? = some ended → ended.finished = true →
    w.sessions[k]? = some final → final.done = true →
    ⟨id, some k⟩ ∈ w.assigned → id ∉ v.cancelRequested → v.stopping = false →
    w.answers id = 1

theorem executor_answersOnce (setup : ExecutorSetup) : AnswersOnce setup where
  atMostOnce st reachable id := by
    have h := reachable_accounted reachable
    by_cases answered : st.answers id = 0
    · rw [answered]
      exact zero_le_one
    · obtain ⟨owner, mem⟩ := h.known id answered
      cases owner with
      | none => exact (h.refused id mem).le
      | some k =>
        have held := List.getElem?_eq_getElem (h.opened id k mem)
        exact (Nat.le_add_right _ _).trans (h.once id k _ mem held)
  assignedOnly st reachable id unassigned := by
    by_contra answered
    obtain ⟨owner, mem⟩ := (reachable_accounted reachable).known id answered
    exact unassigned _ mem rfl
  refused st reachable id mem := (reachable_accounted reachable).refused id mem
  exactlyOnce v w k ended final id reachable run held finished heldw done mem uncancelled unstopped := by
    obtain ⟨t, heldt, -, closed, account⟩ := settled_run reachable run held finished
    obtain rfl : t = final := Option.some.inj (heldt.symm.trans heldw)
    have kept := (reachable_accounted reachable).kept id k ended (closed id mem) held uncancelled unstopped
    rw [← kept, ← account id mem, owes_done (reachable_accounted (reachable.run run)) heldw done,
      add_zero]

/-- A worker process that dies with a lease: the lease is reported lost, once. -/
example :
    let lease : Lease := { leaseId := "lease-1", attempt := 1, duration := 30000, heartbeatInterval := 5000 }
    let spec : TaskSpec := { buildSessionId := "b", taskId := "t", taskType := "x" }
    let actions : List ExecutorAction := [.call (.assign spec lease (.ok ())), .session 0 (.read .endOfStream),
      .session 0 .advance, .session 0 .advance]
    (actions.foldlM
      (fun (st : ExecutorState) action =>
        st.step { codec := sampleCodec, kind := .loopback } action) {}).map (fun st => st.answers "lease-1") = some 1 := by
  decide

end Svp.Exec

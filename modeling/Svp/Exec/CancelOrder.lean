import Svp.Exec.SessionAnswers
import Svp.Exec.TaskRecords
import Svp.Exec.WorkerLoop

/-!
# A CANCEL and its ASSIGN

A remote session that becomes ready takes its queued ASSIGNs under the lock and
writes them after releasing it. A lease cancelled meanwhile is out of the queue
that `cancel` clears, the session counts as ready, and the CANCEL can be written
before the ASSIGN (`cancel_overtakes`); the worker does not know the lease yet
and leaves it running.

`ExecutorState.Flushed` says that the CANCEL about to be written is not of such a
lease. In the runs that write every CANCEL so, an ASSIGN precedes the CANCEL of
its lease on the connection, and no lease the worker was told to cancel is left
running (`cancel_follows_assign`).
-/

namespace Svp.Exec

/-- The ASSIGNs the session's thread took over and has yet to write. -/
def SessionStage.queued : SessionStage → List PendingAssign
  | .sending queued => queued
  | _ => []

/-- The frame to be written is no CANCEL of a lease whose ASSIGN the session's
thread has yet to write. -/
def ExecutorState.Flushed (st : ExecutorState) : Prop :=
  ∀ k frame s, st.outgoing = some (k, frame) → st.sessions[k]? = some s →
    ∀ assign ∈ s.stage.queued, ¬ frame.Cancels assign.leaseId

/-- The runs of a remote executor that write no CANCEL before the ASSIGNs of a
session that became ready. -/
def flushedSystem (codec : Codec) : Lib.System ExecutorState where
  init st := st = {}
  step st next := ∃ action, st.step ⟨codec, .remote⟩ action = some next ∧
    (action = .callWrites true → st.Flushed)

variable {codec : Codec} {st next : ExecutorState}

theorem reachable_of_flushed (reach : (flushedSystem codec).Reachable st) :
    (sessionExecutorSystem ⟨codec, .remote⟩).Reachable st := by
  refine reach.invariant (S := flushedSystem codec)
    (P := fun st => (sessionExecutorSystem ⟨codec, .remote⟩).Reachable st) ?_ ?_
  · exact fun st init => .start init
  · rintro st next - reach ⟨action, stepped, -⟩
    exact reach.next ⟨action, stepped⟩

/-! ## One session -/

namespace Session

def unsent (s : Session) : List PendingAssign := s.pending ++ s.stage.queued

/-- The frames of a session: what it has written is in order, and the ASSIGNs it
has yet to write are not too late. -/
structure Sends (codec : Codec) (handed : String → Prop) (s : Session) : Prop where
  ordered : InOrder codec s.sent
  written : ∀ frame ∈ s.sent, ∀ id, frame.Assigns codec id ∨ frame.Cancels id → handed id
  assigns : ∀ assign ∈ s.unsent, assign.frame.type = .assign ∧
    ∀ id, assign.frame.Assigns codec id → id = assign.leaseId
  unsent : ∀ assign ∈ s.unsent, handed assign.leaseId ∧
    ∀ frame ∈ s.sent, ¬ frame.Cancels assign.leaseId
  taken : s.ready = true → s.pending = []

variable {handed : String → Prop} {s s' : Session}

/-- Nothing is written, and no ASSIGN is queued. -/
theorem Sends.keep (h : s.Sends codec handed) (sent : s'.sent = s.sent)
    (unsent : s'.unsent ⊆ s.unsent) (taken : s'.ready = true → s'.pending = []) :
    s'.Sends codec handed where
  ordered := sent ▸ h.ordered
  written := sent ▸ h.written
  assigns assign mem := h.assigns assign (unsent mem)
  unsent assign mem := sent ▸ h.unsent assign (unsent mem)
  taken := taken

/-- A frame is written that no ASSIGN should precede. -/
theorem Sends.write (h : s.Sends codec handed) {frame : Frame} (sent : s'.sent = s.sent ++ [frame])
    (unsent : s'.unsent ⊆ s.unsent) (taken : s'.ready = true → s'.pending = [])
    (inTime : ∀ id, frame.Assigns codec id → handed id ∧ ∀ earlier ∈ s.sent, ¬ earlier.Cancels id)
    (known : ∀ id, frame.Cancels id → handed id ∧ ∀ assign ∈ s'.unsent, assign.leaseId ≠ id) :
    s'.Sends codec handed where
  ordered := by
    rw [sent]
    refine List.pairwise_append.mpr ⟨h.ordered, List.pairwise_singleton _ _, ?_⟩
    intro earlier before last isLast id cancels assigns
    rw [List.mem_singleton.mp isLast] at assigns
    exact (inTime id assigns).2 earlier before cancels
  written written mem id names := by
    rw [sent] at mem
    rcases List.mem_append.mp mem with before | last
    · exact h.written written before id names
    · rw [List.mem_singleton.mp last] at names
      exact names.elim (fun assigns => (inTime id assigns).1) fun cancels => (known id cancels).1
  assigns assign mem := h.assigns assign (unsent mem)
  unsent assign mem := by
    obtain ⟨isHanded, notCancelled⟩ := h.unsent assign (unsent mem)
    refine ⟨isHanded, fun earlier inSent cancels => ?_⟩
    rw [sent] at inSent
    rcases List.mem_append.mp inSent with before | last
    · exact notCancelled earlier before cancels
    · rw [List.mem_singleton.mp last] at cancels
      exact (known _ cancels).2 assign mem rfl
  taken := taken

theorem Sends.mono {handed' : String → Prop} (h : s.Sends codec handed)
    (more : ∀ id, handed id → handed' id) : s.Sends codec handed' where
  ordered := h.ordered
  written frame mem id names := more id (h.written frame mem id names)
  assigns := h.assigns
  unsent assign mem := ⟨more _ (h.unsent assign mem).1, (h.unsent assign mem).2⟩
  taken := h.taken

/-- An ASSIGN is queued until the session is ready. -/
theorem Sends.queue (h : s.Sends codec handed) {assign : PendingAssign} (sent : s'.sent = s.sent)
    (pending : s'.pending = s.pending ++ [assign]) (stage : s'.stage = s.stage)
    (unready : s'.ready = false) (type : assign.frame.type = .assign)
    (names : ∀ id, assign.frame.Assigns codec id → id = assign.leaseId)
    (isHanded : handed assign.leaseId) (inTime : ∀ frame ∈ s.sent, ¬ frame.Cancels assign.leaseId) :
    s'.Sends codec handed := by
  have queued : ∀ a ∈ s'.unsent, a ∈ s.unsent ∨ a = assign := by
    intro a mem
    rw [Session.unsent, pending, stage] at mem
    rcases List.mem_append.mp mem with mem | mem
    · rcases List.mem_append.mp mem with mem | mem
      · exact .inl (List.mem_append_left _ mem)
      · exact .inr (List.mem_singleton.mp mem)
    · exact .inl (List.mem_append_right _ mem)
  refine ⟨sent ▸ h.ordered, sent ▸ h.written, fun a mem => ?_, fun a mem => ?_, fun ready => ?_⟩
  · rcases queued a mem with before | rfl
    · exact h.assigns a before
    · exact ⟨type, names⟩
  · rw [sent]
    rcases queued a mem with before | rfl
    · exact h.unsent a before
    · exact ⟨isHanded, inTime⟩
  · rw [unready] at ready
    cases ready

/-- A session that has written nothing and has nothing queued. -/
theorem sends_newSession : RemoteExecutor.newSession.Sends codec handed where
  ordered := List.Pairwise.nil
  written := List.forall_mem_nil _
  assigns := List.forall_mem_nil _
  unsent := List.forall_mem_nil _
  taken := fun impossible => by cases impossible

/-- No CANCEL is written, and what was ready stays ready. -/
structure Assigning (s s' : Session) : Prop where
  sent : ∀ frame ∈ s'.sent, frame ∈ s.sent ∨ frame.type ≠ .cancel
  ready : s.ready = true → s'.ready = true

theorem Assigning.same (sent : s'.sent = s.sent) (ready : s'.ready = s.ready) : Assigning s s' :=
  ⟨fun _ mem => .inl (sent ▸ mem), fun was => ready.trans was⟩

/-- What a step of the session's thread writes. -/
theorem sends_step {setup : ExecutorSetup} {stopping : Bool} {input : SessionInput}
    {events : List InboxEvent} (h : s.Sends codec handed)
    (stepped : s.step setup stopping input = some (s', events)) :
    s'.Sends codec handed ∧ Assigning s s' := by
  -- steps that write nothing and leave the queue as it is
  have quiet : ∀ next : Session, next.sent = s.sent → next.ready = s.ready →
      next.pending = s.pending → next.stage.queued = [] →
      next.Sends codec handed ∧ Assigning s next := by
    intro next sent ready pending queued
    refine ⟨h.keep sent ?_ fun isReady => ?_, .same sent ready⟩
    · rw [Session.unsent, queued, pending, List.append_nil]
      exact List.subset_append_left _ _
    · rw [pending]
      exact h.taken (ready ▸ isReady)
  unfold Session.step at stepped
  split at stepped
  · cases stepped
    unfold adoptConnection
    split
    · exact quiet _ rfl rfl rfl rfl
    · exact quiet _ rfl rfl rfl rfl
  · cases stepped
    refine quiet _ rfl rfl rfl ?_
    simp only
    split <;> rfl
  · cases stepped
    refine quiet _ rfl rfl rfl ?_
    simp only
    split <;> rfl
  · next stage =>
    -- the queue passes to the thread
    cases stepped
    refine ⟨h.keep rfl ?_ fun _ => rfl, ⟨fun _ mem => .inl mem, fun _ => rfl⟩⟩
    rw [Session.unsent, Session.unsent, stage]
    simp [markReady, SessionStage.queued]
  · cases stepped
    exact quiet _ rfl rfl rfl rfl
  · cases stepped
    exact quiet _ rfl rfl rfl rfl
  · next assign rest ok stage =>
    have isQueued : assign ∈ s.unsent := by
      rw [Session.unsent, stage]
      exact List.mem_append_right _ List.mem_cons_self
    obtain ⟨type, names⟩ := h.assigns assign isQueued
    obtain ⟨isHanded, notCancelled⟩ := h.unsent assign isQueued
    cases ok with
    | false =>
      cases stepped
      exact quiet _ rfl rfl rfl rfl
    | true =>
      cases stepped
      refine ⟨h.write rfl ?_ h.taken (fun id assigns => ?_) fun id cancels => ?_, ?_⟩
      · rw [Session.unsent, Session.unsent, stage]
        exact List.append_subset.mpr ⟨List.subset_append_left _ _,
          fun x mem => List.mem_append_right _ (List.mem_cons_of_mem _ mem)⟩
      · rw [names id assigns]
        exact ⟨isHanded, notCancelled⟩
      · have isCancel := cancels.type
        rw [type] at isCancel
        cases isCancel
      · refine ⟨fun frame mem => ?_, fun was => was⟩
        rcases List.mem_append.mp mem with before | last
        · exact .inl before
        · rw [List.mem_singleton.mp last, type]
          exact .inr fun impossible => by cases impossible
  · next item stage =>
    cases stepped
    unfold pump
    split
    · refine quiet _ rfl rfl rfl ?_
      show s.stage.queued = []
      rw [stage]
      rfl
    · exact quiet _ rfl rfl rfl rfl
    · exact quiet _ rfl rfl rfl rfl
  · cases stepped
    exact quiet _ rfl rfl rfl rfl
  · cases stepped
    refine ⟨h.keep rfl ?_ fun _ => rfl, .same rfl rfl⟩
    exact List.nil_subset _
  · cases stepped
    exact quiet _ rfl rfl rfl rfl
  · cases stepped

end Session

/-! ## The executor -/

namespace ExecutorState

/-- The lease went to session `k`. -/
def Handed (st : ExecutorState) (k : Nat) (id : String) : Prop := ⟨id, some k⟩ ∈ st.assigned

/-- The frame about to be written is an ASSIGN that comes in time, or a CANCEL of
a lease that is not queued in a session. -/
inductive Outgoing (codec : Codec) (st : ExecutorState) (k : Nat) (frame : Frame) : Prop
  | assign (id : String) (type : frame.type = .assign)
      (names : ∀ other, frame.Assigns codec other → other = id) (handed : st.Handed k id)
      (inTime : ∀ s : Session, st.sessions[k]? = some s → ∀ earlier ∈ s.sent, ¬ earlier.Cancels id)
  | cancel (id : String) (cancels : frame.Cancels id) (handed : st.Handed k id)
      (ready : ∀ s : Session, st.sessions[k]? = some s → s.ready = true)

structure Orderly (codec : Codec) (st : ExecutorState) : Prop where
  sends : ∀ k (s : Session), st.sessions[k]? = some s → s.Sends codec (st.Handed k)
  outgoing : ∀ k frame, st.outgoing = some (k, frame) → st.Outgoing codec k frame

theorem orderly_start : Orderly codec {} :=
  ⟨fun k s impossible => by simp at impossible, fun k frame impossible => by simp at impossible⟩

theorem getElem?_set_cases {sessions : List Session} {k j : Nat} {s s' t : Session}
    (held : sessions[k]? = some s) (at_ : (sessions.set k s')[j]? = some t) :
    j = k ∧ t = s' ∨ j ≠ k ∧ sessions[j]? = some t := by
  obtain ⟨lt, -⟩ := List.getElem?_eq_some_iff.mp held
  rw [List.getElem?_set, if_pos lt] at at_
  split at at_
  · next same =>
    exact .inl ⟨same.symm, (Option.some.inj at_).symm⟩
  · next other => exact .inr ⟨fun same => other same.symm, at_⟩

theorem Orderly.sends_set (h : st.Orderly codec) {k : Nat} {s s' : Session}
    (held : st.sessions[k]? = some s) (sends : s'.Sends codec (st.Handed k)) (j : Nat) (t : Session)
    (at_ : (st.sessions.set k s')[j]? = some t) : t.Sends codec (st.Handed j) := by
  rcases getElem?_set_cases held at_ with ⟨rfl, rfl⟩ | ⟨-, at_⟩
  · exact sends
  · exact h.sends j t at_

/-- One session takes a step that writes no CANCEL. -/
theorem Orderly.session (h : st.Orderly codec) {k : Nat} {s s' : Session}
    (held : st.sessions[k]? = some s) (sends : s'.Sends codec (st.Handed k))
    (assigning : Session.Assigning s s') (sessions : next.sessions = st.sessions.set k s')
    (assigned : next.assigned = st.assigned)
    (outgoing : next.outgoing = st.outgoing ∨ next.outgoing = none) : next.Orderly codec := by
  have handed : ∀ j, next.Handed j = st.Handed j := fun j => by
    funext id
    rw [Handed, Handed, assigned]
  constructor
  · intro j t at_
    rw [handed]
    exact h.sends_set held sends j t (sessions ▸ at_)
  · intro j frame written
    rcases outgoing with same | none
    · rw [same] at written
      cases h.outgoing j frame written with
      | assign id type names isHanded inTime =>
        refine .assign id type names (handed j ▸ isHanded) fun t at_ earlier mem cancels => ?_
        rw [sessions] at at_
        rcases getElem?_set_cases held at_ with ⟨rfl, rfl⟩ | ⟨-, at_⟩
        · rcases assigning.sent earlier mem with before | other
          · exact inTime s held earlier before cancels
          · exact other cancels.type
        · exact inTime t at_ earlier mem cancels
      | cancel id cancels isHanded ready =>
        refine .cancel id cancels (handed j ▸ isHanded) fun t at_ => ?_
        rw [sessions] at at_
        rcases getElem?_set_cases held at_ with ⟨rfl, rfl⟩ | ⟨-, at_⟩
        · exact assigning.ready (ready s held)
        · exact ready t at_
    · rw [none] at written
      cases written

/-- Nothing is written and no lease is handed over. -/
theorem Orderly.same (h : st.Orderly codec) (sessions : next.sessions = st.sessions)
    (assigned : next.assigned = st.assigned)
    (outgoing : next.outgoing = st.outgoing ∨ next.outgoing = none) : next.Orderly codec := by
  have handed : ∀ j, next.Handed j = st.Handed j := fun j => by
    funext id
    rw [Handed, Handed, assigned]
  refine ⟨fun j t at_ => ?_, fun j frame written => ?_⟩
  · rw [handed]
    exact h.sends j t (sessions ▸ at_)
  · rcases outgoing with same | none
    · cases h.outgoing j frame (same ▸ written) with
      | assign id type names isHanded inTime =>
        exact .assign id type names (handed j ▸ isHanded) fun t at_ => inTime t (sessions ▸ at_)
      | cancel id cancels isHanded ready =>
        exact .cancel id cancels (handed j ▸ isHanded) fun t at_ => ready t (sessions ▸ at_)
    · rw [none] at written
      cases written

/-- A lease is handed to a session, and its ASSIGN is queued or about to be
written. -/
theorem Orderly.hand (h : st.Orderly codec) {spec : TaskSpec} {lease : Lease}
    (fresh : ∀ owner, ⟨lease.leaseId, owner⟩ ∉ st.assigned)
    (assigned : RemoteExecutor.assign codec st spec lease = .ok next) (idle : st.outgoing = none) :
    next.Orderly codec := by
  obtain ⟨frame, made, assigned⟩ := bind_eq_ok.mp assigned
  obtain ⟨⟨k, s, mid⟩, live, assigned⟩ := bind_eq_ok.mp assigned
  obtain ⟨type, names⟩ := assigns_of_make made
  obtain ⟨same, held, source⟩ := liveSession_eq_ok live
  have unchanged : mid.assigned = st.assigned ∧ mid.outgoing = st.outgoing := by
    rw [same]
    exact ⟨rfl, rfl⟩
  have more : ∀ j id, st.Handed j id → (⟨id, some j⟩ : Assignment) ∈
      mid.assigned ++ [⟨lease.leaseId, some k⟩] := fun j id isHanded =>
    List.mem_append_left _ (unchanged.1 ▸ isHanded)
  -- the session is as orderly as before it was chosen, and so are the others
  have sends : ∀ j (t : Session), mid.sessions[j]? = some t → t.Sends codec (st.Handed j) := by
    intro j t at_
    rcases source with ⟨sessions, -⟩ | ⟨sessions, isNew, opened⟩
    · exact h.sends j t (sessions ▸ at_)
    · rw [sessions] at at_
      rcases lt_or_ge j st.sessions.length with lt | ge
      · rw [List.getElem?_append_left lt] at at_
        exact h.sends j t at_
      · rw [List.getElem?_append_right ge, List.getElem?_singleton] at at_
        split at at_
        · cases at_
          cases opened
          exact Session.sends_newSession
        · cases at_
  have notCancelled : ∀ earlier ∈ s.sent, ¬ earlier.Cancels lease.leaseId := fun earlier mem cancels =>
    fresh _ ((sends k s held).written earlier mem _ (.inr cancels))
  simp only at assigned
  split at assigned
  · -- the session is ready: the ASSIGN is about to be written
    next ready =>
    cases assigned
    refine ⟨fun j t at_ => ?_, fun j f written => ?_⟩
    · rcases getElem?_set_cases held at_ with ⟨rfl, rfl⟩ | ⟨-, at_⟩
      · refine Session.Sends.mono (h := (sends j s held).keep rfl ?_ ?_) (more j)
        · exact List.Subset.refl _
        · exact (sends j s held).taken
      · exact (sends j t at_).mono (more j)
    · cases written
      refine .assign lease.leaseId type names ?_ fun t at_ earlier mem => ?_
      · exact List.mem_append_right _ List.mem_cons_self
      · rcases getElem?_set_cases held at_ with ⟨-, rfl⟩ | ⟨other, -⟩
        · exact notCancelled earlier mem
        · exact absurd rfl other
  · next unready =>
    cases assigned
    refine ⟨fun j t at_ => ?_, fun j f written => ?_⟩
    · rcases getElem?_set_cases held at_ with ⟨rfl, rfl⟩ | ⟨-, at_⟩
      · exact Session.Sends.queue ((sends j s held).mono (more j)) rfl rfl rfl
          (Bool.eq_false_iff.mpr unready) type names
          (List.mem_append_right _ List.mem_cons_self) notCancelled
      · exact (sends j t at_).mono (more j)
    · have none : mid.outgoing = none := unchanged.2.trans idle
      have written : mid.outgoing = some (j, f) := written
      rw [none] at written
      cases written

/-- A CANCEL is made for a lease of a session that is ready; otherwise its ASSIGN
leaves the queue. -/
theorem Orderly.cancel (h : st.Orderly codec) (accounted : Accounted st) (leaseId : String) :
    (RemoteExecutor.cancel st leaseId).Orderly codec := by
  unfold RemoteExecutor.cancel
  cases found : st.sessionFor leaseId with
  | none => exact h
  | some entry =>
    obtain ⟨s, k⟩ := entry
    have held := sessionFor_eq_some found
    have known : s.leases.contains leaseId = true :=
      List.find?_some (p := fun entry : Session × Nat => entry.1.leases.contains leaseId) found
    have isHanded : st.Handed k leaseId := accounted.owned k s leaseId held (.inl known)
    simp only
    split
    · exact h
    · split
      · next ready =>
        let marked : Session := { s with leases := s.leases.markCancelled leaseId }
        have sends : marked.Sends codec (st.Handed k) :=
          (h.sends k s held).keep rfl (List.Subset.refl _) (h.sends k s held).taken
        have after : (st.update k marked).Orderly codec :=
          h.session held sends (.same rfl rfl) rfl rfl (.inl rfl)
        refine ⟨after.sends, fun j f written => ?_⟩
        cases made : makeCancelFrame leaseId with
        | error error =>
          simp only [made] at written
          cases written
        | ok frame =>
          simp only [made] at written
          cases written
          refine .cancel leaseId (cancels_of_make made).2 isHanded fun t at_ => ?_
          rcases getElem?_set_cases held at_ with ⟨-, rfl⟩ | ⟨other, -⟩
          · exact ready
          · exact absurd rfl other
      · next unready =>
        let marked : Session :=
          { s with
            leases := s.leases.markCancelled leaseId
            pending := s.pending.filter (·.leaseId != leaseId) }
        have sends : marked.Sends codec (st.Handed k) := by
          refine (h.sends k s held).keep rfl ?_ fun ready => absurd ready unready
          exact List.append_subset.mpr ⟨fun a mem => List.mem_append_left _ (List.mem_of_mem_filter mem),
            List.subset_append_right _ _⟩
        exact h.session held sends (.same rfl rfl) rfl rfl (.inl rfl)

theorem Orderly.call (h : st.Orderly codec) (accounted : Accounted st) (idle : st.outgoing = none)
    {call : ExecutorCall} (called : st.call ⟨codec, .remote⟩ call = some next) :
    next.Orderly codec := by
  cases call with
  | assign spec lease spawned =>
    simp only [ExecutorState.call] at called
    split at called
    · cases called
    · next unused =>
      cases called
      have fresh : ∀ owner, ⟨lease.leaseId, owner⟩ ∉ st.assigned := fun owner mem =>
        unused (List.any_eq_true.mpr ⟨_, mem, beq_self_eq_true lease.leaseId⟩)
      simp only [ExecutorState.assign]
      split
      · next assigned => exact h.hand fresh assigned idle
      · exact h
  | cancel leaseId =>
    cases called
    have after := h.cancel accounted leaseId
    exact after.same rfl rfl (.inl rfl)
  | leaseExpired leaseId =>
    cases called
    have after : (st.leaseExpired leaseId).Orderly codec := by
      unfold leaseExpired
      split
      · exact h
      · next s k found =>
        split
        · exact h
        · have held := sessionFor_eq_some found
          have before := h.sends k s held
          let retired : Session :=
            { s with leases := s.leases.markCancelled leaseId, retiring := true }
          have sends : retired.Sends codec (st.Handed k) :=
            before.keep rfl (List.Subset.refl _) before.taken
          exact h.session held sends (.same rfl rfl) rfl rfl (.inl rfl)
    exact after.same rfl rfl (.inl rfl)
  | stop =>
    cases called
    exact h.same rfl rfl (.inl rfl)

/-- The frame of a call is written, after the ASSIGNs the session took over. -/
theorem Orderly.callWrites (h : st.Orderly codec) {k : Nat} {frame : Frame} {ok : Bool}
    (outgoing : st.outgoing = some (k, frame)) (flushed : ok = true → st.Flushed) :
    ({ st.write k frame ok with outgoing := none } : ExecutorState).Orderly codec := by
  unfold ExecutorState.write
  split
  · next s held =>
    cases ok with
    | false => exact h.same rfl rfl (.inr rfl)
    | true =>
      have sends := h.sends k s held
      let s' : Session := { s with sent := s.sent ++ [frame] }
      have written : s'.Sends codec (st.Handed k) := by
        cases h.outgoing k frame outgoing with
        | assign id type names isHanded inTime =>
          refine sends.write rfl (List.Subset.refl _) sends.taken (fun other assigns => ?_)
            fun other cancels => ?_
          · rw [names other assigns]
            exact ⟨isHanded, inTime s held⟩
          · have isCancel := cancels.type
            rw [type] at isCancel
            cases isCancel
        | cancel id cancels isHanded ready =>
          refine sends.write rfl (List.Subset.refl _) sends.taken
            (fun other assigns => absurd assigns (cancels.not_assigns other)) fun other alsoCancels => ?_
          have same : other = id := Except.ok.inj (alsoCancels.symm.trans cancels)
          rw [same]
          refine ⟨isHanded, fun assign mem isSame => ?_⟩
          -- a ready session queues nothing, and the thread is done with this one
          have pending : s.pending = [] := sends.taken (ready s held)
          have queued : assign ∈ s.stage.queued := by
            have mem : assign ∈ s.pending ++ s.stage.queued := mem
            rw [pending] at mem
            exact mem
          exact flushed rfl k frame s outgoing held assign queued (isSame ▸ cancels)
      exact ⟨h.sends_set held written, fun j f impossible => by cases impossible⟩
  · exact h.same rfl rfl (.inr rfl)

theorem Orderly.closeIdleSession (h : st.Orderly codec) :
    (RemoteExecutor.closeIdleSession st).Orderly codec := by
  unfold RemoteExecutor.closeIdleSession
  split
  · exact h
  · next s last =>
    rw [List.getLast?_eq_getElem?] at last
    have before := h.sends _ s last
    let retired : Session := { s with retiring := true }
    have sends : retired.Sends codec (st.Handed (st.sessions.length - 1)) :=
      before.keep rfl (List.Subset.refl _) before.taken
    split
    · exact h
    · simp only
      split
      · exact h.session last sends (.same rfl rfl) rfl rfl (.inl rfl)
      · exact h.session last sends (.same rfl rfl) rfl rfl (.inl rfl)

theorem Orderly.shutdownWritten (h : st.Orderly codec) (k : Nat) (ok : Bool) :
    ({ st.write k makeShutdownFrame ok with closing := st.closing.erase k } :
      ExecutorState).Orderly codec := by
  unfold ExecutorState.write
  split
  · next s held =>
    cases ok with
    | false => exact h.same rfl rfl (.inl rfl)
    | true =>
      have before := h.sends k s held
      let told : Session := { s with sent := s.sent ++ [makeShutdownFrame] }
      have sends : told.Sends codec (st.Handed k) := by
        refine before.write rfl (List.Subset.refl _) before.taken (fun id assigns => ?_)
          fun id cancels => ?_
        · cases assigns.type
        · cases cancels.type
      refine h.session held sends ⟨fun frame mem => ?_, fun ready => ready⟩ rfl rfl (.inl rfl)
      rcases List.mem_append.mp mem with before | last
      · exact .inl before
      · rw [List.mem_singleton.mp last]
        exact .inr fun impossible => by cases impossible
  · exact h.same rfl rfl (.inl rfl)

/-- A step that writes no CANCEL before the ASSIGNs a session took over keeps the
order. -/
theorem Orderly.step (h : st.Orderly codec) (accounted : Accounted st) {action : ExecutorAction}
    (stepped : st.step ⟨codec, .remote⟩ action = some next)
    (flushed : action = .callWrites true → st.Flushed) : next.Orderly codec := by
  cases action with
  | call call =>
    simp only [ExecutorState.step] at stepped
    split at stepped
    · cases stepped
    · next idle => exact h.call accounted idle stepped
  | callWrites ok =>
    simp only [ExecutorState.step] at stepped
    split at stepped
    · next k frame outgoing =>
      cases stepped
      exact h.callWrites outgoing fun isOk => flushed (isOk ▸ rfl)
    · cases stepped
  | closeIdleSession =>
    cases stepped
    exact h.closeIdleSession
  | shutdownWritten k ok =>
    simp only [ExecutorState.step] at stepped
    split at stepped
    · cases stepped
      exact h.shutdownWritten k ok
    · cases stepped
  | session k input =>
    simp only [ExecutorState.step] at stepped
    split at stepped
    · cases stepped
    · next s held =>
      obtain ⟨⟨s', events⟩, moved, rfl⟩ := Option.map_eq_some_iff.mp stepped
      obtain ⟨sends, assigning⟩ := Session.sends_step (h.sends k s held) moved
      exact h.session held sends assigning rfl rfl (.inl rfl)

end ExecutorState

/-! ## Runs -/

theorem reachable_orderly (reach : (flushedSystem codec).Reachable st) : st.Orderly codec := by
  refine reach.invariant (S := flushedSystem codec) (P := fun st => st.Orderly codec) ?_ ?_
  · rintro st rfl
    exact ExecutorState.orderly_start
  · rintro st next reach h ⟨action, stepped, flushed⟩
    exact h.step (reachable_accounted (reachable_of_flushed reach)) stepped flushed

/-- What holds of the frames a remote executor has written. -/
structure CancelFollows (codec : Codec) (st : ExecutorState) : Prop where
  /-- Both frames of a lease are written to one connection. -/
  oneConnection : ∀ (k : Nat) (s : Session) (k' : Nat) (s' : Session) (id : String), st.sessions[k]? = some s → st.sessions[k']? = some s' →
    (∃ frame ∈ s.sent, Frame.Assigns codec frame id) →
    (∃ frame ∈ s'.sent, Frame.Cancels frame id) → k = k'
  assignFirst : ∀ (k : Nat) (s : Session) (id : String) (i j : Nat) (assign cancel : Frame),
    st.sessions[k]? = some s → s.sent[i]? = some assign → s.sent[j]? = some cancel →
    assign.Assigns codec id → cancel.Cancels id → i < j
  /-- However far the worker has read and whichever tasks have finished. -/
  dropped : ∀ (k : Nat) (s : Session) (id : String) (events : List WorkerEvent),
    st.sessions[k]? = some s → WorkerLoop.framesRead events <+: s.sent →
    (∃ frame ∈ WorkerLoop.framesRead events, frame.Cancels id) →
    ¬ (WorkerLoop.run codec events).LeftRunning id

theorem InOrder.assign_first {frames : List Frame} (ordered : InOrder codec frames) {i j : Nat}
    {assign cancel : Frame} {id : String} (isAssign : frames[i]? = some assign)
    (isCancel : frames[j]? = some cancel) (assigns : assign.Assigns codec id)
    (cancels : cancel.Cancels id) : i < j := by
  obtain ⟨iLt, rfl⟩ := List.getElem?_eq_some_iff.mp isAssign
  obtain ⟨jLt, rfl⟩ := List.getElem?_eq_some_iff.mp isCancel
  rcases lt_trichotomy i j with before | rfl | after
  · exact before
  · exact absurd assigns (cancels.not_assigns id)
  · exact absurd assigns (List.pairwise_iff_getElem.mp ordered j i jLt iLt after id cancels)

theorem ExecutorState.Orderly.cancelFollows (h : st.Orderly codec) (accounted : Accounted st) :
    CancelFollows codec st where
  oneConnection := by
    rintro k s k' s' id held held' ⟨assign, inSent, assigns⟩ ⟨cancel, inSent', cancels⟩
    have isHanded := (h.sends k s held).written assign inSent id (.inl assigns)
    have isHanded' := (h.sends k' s' held').written cancel inSent' id (.inr cancels)
    exact Option.some.inj (accounted.owner_unique isHanded isHanded')
  assignFirst k s id i j assign cancel held := (h.sends k s held).ordered.assign_first
  dropped := by
    rintro k s id events held read ⟨frame, mem, cancels⟩
    exact WorkerLoop.run_not_leftRunning ((h.sends k s held).ordered.sublist read.sublist) mem cancels

/-- What the runs that write every CANCEL after the ASSIGNs a session took over
keep. -/
structure CancelOrder (codec : Codec) : Prop where
  follows : ∀ st, (flushedSystem codec).Reachable st → CancelFollows codec st

theorem cancel_follows_assign (codec : Codec) : CancelOrder codec where
  follows _ reach :=
    (reachable_orderly reach).cancelFollows (reachable_accounted (reachable_of_flushed reach))

/-! ## A cancel between ready and the flush -/

/-- BLAKE3 of the text of an object without members. -/
def emptyParametersDigest : Blake3Digest :=
  ⟨[0x6E, 0x46, 0xDD, 0x10, 0xDE, 0xFC, 0x9B, 0x56, 0xC2, 0x9A, 0x6E, 0xC5, 0x6B, 0x50, 0x8C, 0x21,
    0xF5, 0x4C, 0x08, 0x19, 0x21, 0x94, 0xE4, 0xDF, 0x25, 0xBF, 0x36, 0xF0, 0xC9, 0xC3, 0xC2, 0x79],
    rfl⟩

/-- Agrees with BLAKE3 on the one text hashed below. -/
def emptyParametersCodec : Codec := { sampleCodec with blake3 := fun _ => emptyParametersDigest }

def overtakenAssignment : LeasedAssignment where
  spec :=
    { buildSessionId := "session"
      taskId := "task"
      taskType := "probe"
      parametersBlake3 := emptyParametersDigest
      resources := { estCpuThreads := 1 } }
  lease := { leaseId := "lease_1", attempt := 1, duration := 30000, heartbeatInterval := 5000 }

theorem overtakenAssignment_valid : overtakenAssignment.Valid emptyParametersCodec where
  spec := by
    have session : isRecordIdentifier "session" = true := by decide
    have task : isRecordIdentifier "task" = true := by decide
    have probe : isLowerIdentifier "probe" = true := by decide
    refine check_bind_eq_ok.mpr ⟨require_eq_ok.mpr session, ?_⟩
    refine check_bind_eq_ok.mpr ⟨require_eq_ok.mpr task, ?_⟩
    refine check_bind_eq_ok.mpr ⟨rfl, ?_⟩
    refine check_bind_eq_ok.mpr ⟨require_eq_ok.mpr probe, ?_⟩
    refine check_bind_eq_ok.mpr ⟨rfl, ?_⟩
    refine check_bind_eq_ok.mpr ⟨rfl, ?_⟩
    refine check_bind_eq_ok.mpr ⟨rfl, ?_⟩
    refine check_bind_eq_ok.mpr ⟨rfl, ?_⟩
    refine check_bind_eq_ok.mpr ⟨rfl, ?_⟩
    have hashed : computeParametersBlake3 emptyParametersCodec (.object []) =
        .ok emptyParametersDigest := by
      rw [computeParametersBlake3]
      rfl
    exact bind_eq_ok.mpr ⟨_, hashed, require_eq_ok.mpr (decide_eq_true rfl)⟩
  attempt := by decide
  leaseId := by decide
  duration := by decide
  heartbeatInterval := by decide

def overtakenAssign : Frame := leasedAssignFrame overtakenAssignment

def overtakenCancel : Frame :=
  { type := .cancel, body := .object [("lease_id", .string "lease_1")], payloads := [] }

theorem make_overtakenCancel : makeCancelFrame "lease_1" = .ok overtakenCancel := by
  have valid : checkedLeaseId "lease_1" = .ok "lease_1" :=
    checkedLeaseId_isOk.mpr (by decide)
  rw [makeCancelFrame, leaseIdFrame, valid]
  rfl

/-- The session with the CANCEL and then the ASSIGN written. -/
def overtakenSession : Session where
  leases := (WorkerSessionLeases.add .empty "lease_1" "task" 1).markCancelled "lease_1"
  connected := true
  ready := true
  stage := .sending []
  sent := [overtakenCancel, overtakenAssign]

def overtakenState : ExecutorState where
  sessions := [overtakenSession]
  assigned := [⟨"lease_1", some 0⟩]
  cancelRequested := ["lease_1"]

theorem overtaken_reachable :
    (sessionExecutorSystem ⟨emptyParametersCodec, .remote⟩).Reachable overtakenState := by
  let leases : WorkerSessionLeases := .add .empty "lease_1" "task" 1
  let queue : List PendingAssign := [⟨"lease_1", overtakenAssign⟩]
  let assigned : List Assignment := [⟨"lease_1", some 0⟩]
  let connecting : Session := { RemoteExecutor.newSession with leases := leases, pending := queue }
  let flushing : Session :=
    { leases := leases, connected := true, ready := true, stage := .sending queue }
  let marked : Session := { flushing with leases := leases.markCancelled "lease_1" }
  let taken : ExecutorState := { sessions := [flushing], assigned := assigned }
  let asked : ExecutorState :=
    { sessions := [marked]
      assigned := assigned
      cancelRequested := ["lease_1"]
      outgoing := some (0, overtakenCancel) }
  have made := makeLeasedAssignFrame_isOk emptyParametersCodec overtakenAssignment_valid
  have start : (sessionExecutorSystem ⟨emptyParametersCodec, .remote⟩).Reachable {} := .start rfl
  have queued := start.next (t := { sessions := [connecting], assigned := assigned })
    ⟨.call (.assign overtakenAssignment.spec overtakenAssignment.lease (.ok ())), by
      simp only [ExecutorState.step, ExecutorState.call, ExecutorState.assign,
        RemoteExecutor.assign, made]
      rfl⟩
  have connected := queued.next ⟨.session 0 .connected, rfl⟩
  have ready := connected.next (t := taken) ⟨.session 0 .preambleDone, rfl⟩
  have found : taken.sessionFor "lease_1" = some (flushing, 0) := by
    have known : leases.contains "lease_1" = true := by decide
    simp [ExecutorState.sessionFor, taken, flushing, known]
  have cancelled := ready.next (t := asked) ⟨.call (.cancel "lease_1"), by
    simp only [ExecutorState.step, ExecutorState.call, ExecutorState.cancel, RemoteExecutor.cancel,
      found, make_overtakenCancel]
    rfl⟩
  have written := cancelled.next ⟨.callWrites true, rfl⟩
  exact written.next ⟨.session 0 (.written true), rfl⟩

/-- The CANCEL is written before the ASSIGN of its lease, and the worker that
reads both leaves the lease running. -/
theorem cancel_overtakes :
    (sessionExecutorSystem ⟨emptyParametersCodec, .remote⟩).Reachable overtakenState ∧
      overtakenState.sessions[0]?.map Session.sent = some [overtakenCancel, overtakenAssign] ∧
      overtakenCancel.Cancels "lease_1" ∧ overtakenAssign.Assigns emptyParametersCodec "lease_1" ∧
      (WorkerLoop.run emptyParametersCodec [.read (.frame overtakenCancel),
        .read (.frame overtakenAssign)]).LeftRunning "lease_1" := by
  have assigns : leasedAssignmentFromFrame emptyParametersCodec overtakenAssign =
      .ok overtakenAssignment := leasedAssignmentFromFrame_make _ overtakenAssignment_valid
  have cancels : overtakenCancel.Cancels "lease_1" := (cancels_of_make make_overtakenCancel).2
  refine ⟨overtaken_reachable, rfl, cancels, ⟨_, assigns, rfl⟩, {}, ?_, rfl⟩
  have unknown : WorkerLoop.step emptyParametersCodec {} (.read (.frame overtakenCancel)) = {} := by
    simp only [WorkerLoop.step, WorkerLoop.readFrame]
    rw [show leaseIdFromCancelFrame overtakenCancel = .ok "lease_1" from cancels]
    rfl
  rw [WorkerLoop.run, List.foldl_cons, unknown]
  simp only [List.foldl_cons, List.foldl_nil, WorkerLoop.step, WorkerLoop.readFrame]
  rw [assigns]
  rfl

end Svp.Exec

import Svp.Worker.Admission

/-!
# The time a type holds the others back

A run of the ledger with, for each task type, an account of the waits it made since a
lease of it was last admitted. A wait ended by the idle window is followed by no rest, so
the account is right only in runs where the type stays away as long as a rest would last.

1. `Kept.tryAdmit`: one request keeps every account.
2. `memoryTurns_fair`: in a run whose requests are `Rested`, a waiting type has held the
   others back at most half of the time before its wait; nobody yields in a circle, the
   type with the lowest ticket yields to none, and a type that does not run is not held back.
   `lapsed_wait_returns`: a type that asks just past the idle window waits at once again.
-/

namespace Svp.Worker

open Lib (OrderedMap)

/-- The waits of a type since a lease of it was last admitted. -/
structure Share where
  /-- When the first of them began. -/
  first : Option Int := none
  /-- How long those that ended held the others back. -/
  waited : Int := 0
  /-- When a rest after the last of them would end, if it lapsed. -/
  lapsedUntil : Option Int := none

namespace Share

def begin (share : Share) (now : Int) : Share :=
  { share with first := share.first.or (some now), lapsedUntil := none }

/-- The wait stood until `now`, and the source makes the type rest. -/
def fruitless (share : Share) (wait : Wait) (now : Int) : Share :=
  { share with waited := share.waited + (now - wait.since), lapsedUntil := none }

/-- The wait stood until its idle window was over. -/
def lapse (share : Share) (policy : MemoryTurnPolicy) (wait : Wait) : Share :=
  let stood := wait.lastAsked + policy.idleWindow - wait.since
  { share with
    waited := share.waited + stood
    lapsedUntil := some (wait.lastAsked + policy.idleWindow + stood) }

/-- What a reading of the clock makes of an account. -/
def expire (share : Share) (policy : MemoryTurnPolicy) (wait : Option Wait) (now : Int) : Share :=
  match wait with
  | none => share
  | some wait =>
    if MemoryTurns.Lapsed policy now wait then share.lapse policy wait
    else if MemoryTurns.Overdue policy now wait then share.fruitless wait now
    else share

/-- What a request of the type makes of its account: the waits before and after it. -/
def asked (share : Share) (admitted : Bool) (before after : Option Wait) (now : Int) : Share :=
  if admitted then {}
  else
    match before, after with
    | none, some _ => share.begin now
    | some wait, none => share.fruitless wait now
    | _, _ => share

end Share

/-- A request to a ledger, with what the worker reads meanwhile. -/
structure TurnRequest where
  lease : LeaseAdmission
  memory : MemorySnapshot
  inUse : SessionInUse

structure TurnRun where
  ledger : AdmissionLedger
  /-- The last reading of the clock. -/
  clock : Int
  shares : String → Share

namespace TurnRun

/-- The wait of a type. -/
def wait? (run : TurnRun) (taskType : String) : Option Wait := run.ledger.turns.waits.find? taskType

/-- The ledger and the accounts after a reading of the clock. -/
def expire (run : TurnRun) (now : Int) : TurnRun where
  ledger := run.ledger.expire now
  clock := now
  shares t := (run.shares t).expire run.ledger.turns.policy (run.wait? t) now

def decision (run : TurnRun) (request : TurnRequest) (now : Int) : AdmissionDecision :=
  (run.ledger.tryAdmit request.lease request.memory request.inUse now).2

def tryAdmit (run : TurnRun) (request : TurnRequest) (now : Int) : TurnRun where
  ledger := (run.ledger.tryAdmit request.lease request.memory request.inUse now).1
  clock := now
  shares t :=
    let share := (run.expire now).shares t
    if t = request.lease.taskType then
      share.asked (run.decision request now).admitted ((run.expire now).wait? t)
        ((run.ledger.tryAdmit request.lease request.memory request.inUse now).1.turns.waits.find? t)
        now
    else share

/-- The request is not held back and does not fit, and leases of other types run. -/
def TurnedAway (run : TurnRun) (request : TurnRequest) (now : Int) : Prop :=
  (run.ledger.expire now).heldBackFor request.lease.taskType = none ∧
    (run.ledger.decideMemory request.lease request.memory request.inUse).code =
      kRejectInsufficientMemory ∧
    run.ledger.otherTypesRunning request.lease.taskType ≠ []

/-- Where its last wait lapsed, the type has stayed away as long as that wait stood. -/
def Rested (run : TurnRun) (request : TurnRequest) (now : Int) : Prop :=
  run.TurnedAway request now → ∀ due,
    ((run.expire now).shares request.lease.taskType).lapsedUntil = some due → due ≤ now

end TurnRun

/-- One call to a ledger, at times that do not go back. Requests are those `allowed`. -/
inductive TurnStep (allowed : TurnRun → TurnRequest → Int → Prop) : TurnRun → TurnRun → Prop
  | tryAdmit {run : TurnRun} {request : TurnRequest} {now : Int} :
      run.clock ≤ now → allowed run request now → TurnStep allowed run (run.tryAdmit request now)
  | release (run : TurnRun) (session leaseId : String) :
      TurnStep allowed run { run with ledger := run.ledger.release session leaseId }
  | releaseSession (run : TurnRun) (session : String) :
      TurnStep allowed run { run with ledger := run.ledger.releaseSession session }

/-- The runs of a ledger whose requests are those `allowed`. -/
def turnSystem (allowed : TurnRun → TurnRequest → Int → Prop) : Lib.System TurnRun where
  init run := (∃ policy physicalMemoryBytes turns,
    run.ledger = .create policy physicalMemoryBytes turns) ∧ run.shares = fun _ => {}
  step := TurnStep allowed

/-! ## Accounts -/

/-- The account of a type that waits: the ended waits stood at most half of the time since
the first one began. -/
def Share.Even (share : Share) (since : Int) : Prop :=
  ∃ first, share.first = some first ∧ 2 * share.waited ≤ since - first

/-- A type that does not wait may wait evenly again from a time that has passed, or at
which its rest ends, or would. -/
def Share.Due (share : Share) (rest : Option Int) (clock : Int) : Prop :=
  ∃ due, (∀ first, share.first = some first → 2 * share.waited ≤ due - first) ∧
    (share.first = none → share.waited = 0) ∧
    (due ≤ clock ∨ rest = some due ∨ share.lapsedUntil = some due)

/-- An account is right for the wait and the rest of its type. -/
structure Share.Right (share : Share) (wait : Option Wait) (rest : Option Int) (clock : Int) :
    Prop where
  even : ∀ standing, wait = some standing → share.Even standing.since
  due : wait = none → share.Due rest clock

namespace TurnRun

/-- The accounts of a run are right. -/
def Kept (run : TurnRun) : Prop :=
  ∀ t, (run.shares t).Right (run.wait? t) (run.ledger.turns.rests.find? t) run.clock

theorem Kept.expire {run : TurnRun} (kept : run.Kept) {now : Int} (later : run.clock ≤ now) :
    (run.expire now).Kept := by
  intro t
  obtain ⟨even, due⟩ := kept t
  show Share.Right ((run.shares t).expire _ (run.wait? t) now)
    ((run.ledger.turns.expire now).waits.find? t) ((run.ledger.turns.expire now).rests.find? t) now
  rw [MemoryTurns.find?_expire, MemoryTurns.find?_rests_expire]
  cases found : run.wait? t with
  | none =>
    rw [show run.ledger.turns.waits.find? t = none from found]
    refine ⟨fun _ impossible => absurd impossible (by simp), fun _ => ?_⟩
    obtain ⟨stop, owed, fresh, past | resting | lapsed⟩ := due found
    · exact ⟨stop, owed, fresh, .inl (past.trans later)⟩
    · rcases le_or_gt stop now with over_ | ahead
      · exact ⟨stop, owed, fresh, .inl over_⟩
      · refine ⟨stop, owed, fresh, .inr (.inl ?_)⟩
        rw [Option.filter_none, resting, Option.filter_some, if_pos (by simpa using ahead)]
    · exact ⟨stop, owed, fresh, .inr (.inr lapsed)⟩
  | some wait =>
    rw [show run.ledger.turns.waits.find? t = some wait from found, Option.filter_some,
      Option.filter_some]
    obtain ⟨first, began, half⟩ := even wait found
    have started : (run.shares t).first ≠ none := by simp [began]
    by_cases lapsed : MemoryTurns.Lapsed run.ledger.turns.policy now wait
    · have share : (run.shares t).expire run.ledger.turns.policy (some wait) now =
          (run.shares t).lapse run.ledger.turns.policy wait := if_pos lapsed
      rw [share]
      refine ⟨fun _ impossible => by simp [lapsed] at impossible, fun _ => ?_⟩
      refine ⟨_, fun first' began' => ?_, fun none => absurd none started, .inr (.inr rfl)⟩
      cases began.symm.trans began'
      simp only [Share.lapse]
      linarith
    · by_cases due : MemoryTurns.Overdue run.ledger.turns.policy now wait
      · have share : (run.shares t).expire run.ledger.turns.policy (some wait) now =
            (run.shares t).fruitless wait now := (if_neg lapsed).trans (if_pos due)
        rw [share]
        refine ⟨fun _ impossible => by simp [due] at impossible, fun _ => ?_⟩
        refine ⟨now + (now - wait.since), fun first' began' => ?_,
          fun none => absurd none started, ?_⟩
        · cases began.symm.trans began'
          simp only [Share.fruitless]
          linarith
        · rcases le_or_gt (now + (now - wait.since)) now with past | ahead
          · exact .inl past
          · exact .inr (.inl (by simpa [due] using ahead))
      · have share : (run.shares t).expire run.ledger.turns.policy (some wait) now =
            run.shares t := (if_neg lapsed).trans (if_neg due)
        rw [share]
        refine ⟨fun same standing => ?_, fun impossible => by simp [lapsed, due] at impossible⟩
        have same : wait = same := by simpa [lapsed, due] using standing
        exact same ▸ ⟨first, began, half⟩

end TurnRun

namespace AdmissionLedger

/-- A request leaves the waits and rests of the other types as the clock left them. -/
theorem turns_tryAdmit_other (ledger : AdmissionLedger) (lease : LeaseAdmission)
    (memory : MemorySnapshot) (inUse : SessionInUse) (now : Int) {t : String}
    (other : t ≠ lease.taskType) :
    (ledger.tryAdmit lease memory inUse now).1.turns.waits.find? t =
        (ledger.expire now).turns.waits.find? t ∧
      (ledger.tryAdmit lease memory inUse now).1.turns.rests.find? t =
        (ledger.expire now).turns.rests.find? t := by
  rcases ledger.tryAdmit_cases lease memory inUse now with ⟨waiting, _, next⟩ | ⟨_, next⟩
  · rw [next]
    exact ⟨rfl, rfl⟩
  · rw [next, admitByMemory]
    split
    · exact ⟨by rw [MemoryTurns.admitted, OrderedMap.find?_erase, if_neg other], rfl⟩
    · split
      · exact MemoryTurns.refused_other other _ now
      · exact ⟨rfl, rfl⟩

/-- What a request makes of the wait of its type, which `waits` and `rests` hold before. -/
inductive Asked (ledger : AdmissionLedger) (lease : LeaseAdmission) (now : Int)
    (after : AdmissionLedger × AdmissionDecision) : Prop
  | admitted : after.2.admitted = true → after.1.turns.waits.find? lease.taskType = none →
      Asked ledger lease now after
  | kept : after.2.admitted = false →
      after.1.turns.waits.find? lease.taskType = ledger.turns.waits.find? lease.taskType →
      after.1.turns.rests.find? lease.taskType = ledger.turns.rests.find? lease.taskType →
      Asked ledger lease now after
  | waiting {before wait : Wait} : after.2.admitted = false →
      ledger.turns.waits.find? lease.taskType = some before →
      after.1.turns.waits.find? lease.taskType = some wait → wait.since = before.since →
      Asked ledger lease now after
  | fruitless {wait : Wait} : after.2.admitted = false →
      ledger.turns.waits.find? lease.taskType = some wait →
      after.1.turns.waits.find? lease.taskType = none →
      after.1.turns.rests.find? lease.taskType = some (now + (now - wait.since)) →
      Asked ledger lease now after
  | begins {wait : Wait} : after.2.admitted = false → after.2.code = kRejectInsufficientMemory →
      ledger.heldBackFor lease.taskType = none → ledger.otherTypesRunning lease.taskType ≠ [] →
      ledger.turns.resting lease.taskType now = false →
      ledger.turns.waits.find? lease.taskType = none →
      after.1.turns.waits.find? lease.taskType = some wait → wait.since = now →
      Asked ledger lease now after

theorem asked_tryAdmit (ledger : AdmissionLedger) (lease : LeaseAdmission)
    (memory : MemorySnapshot) (inUse : SessionInUse) (now : Int) :
    (ledger.expire now).Asked lease now (ledger.tryAdmit lease memory inUse now) := by
  rcases ledger.tryAdmit_cases lease memory inUse now with ⟨waiting, _, next⟩ | ⟨free, next⟩
  · rw [next]
    exact .kept rfl rfl rfl
  · rw [next]
    set expired := ledger.expire now
    rw [admitByMemory]
    split
    · next fits =>
      exact .admitted fits (by rw [MemoryTurns.admitted, OrderedMap.find?_erase, if_pos rfl])
    · next refused =>
      rw [Bool.not_eq_true] at refused
      split
      · next short =>
        cases found : expired.turns.waits.find? lease.taskType with
        | some wait =>
          rcases MemoryTurns.refused_waiting found (expired.otherTypesRunning lease.taskType) now with
            ⟨after, standing, since⟩ | ⟨ended, rest⟩
          · exact .waiting refused found standing since
          · exact .fruitless refused found ended rest
        | none =>
          rcases MemoryTurns.refused_idle found (expired.otherTypesRunning lease.taskType) now with
            same | ⟨others, awake, wait, begun, since⟩
          · refine .kept refused ?_ ?_
            · exact congrArg (fun turns => turns.waits.find? lease.taskType) same
            · exact congrArg (fun turns => turns.rests.find? lease.taskType) same
          · exact .begins refused short free others awake found begun since
      · exact .kept refused rfl rfl

end AdmissionLedger

namespace TurnRun

/-- The account of the type that asks stays right, when it has rested. -/
theorem right_own {run : TurnRun} (kept : run.Kept) {now : Int} (later : run.clock ≤ now)
    {request : TurnRequest} (rested : run.Rested request now) :
    ((run.tryAdmit request now).shares request.lease.taskType).Right
      ((run.tryAdmit request now).wait? request.lease.taskType)
      ((run.tryAdmit request now).ledger.turns.rests.find? request.lease.taskType) now := by
  obtain ⟨even, due⟩ := kept.expire later request.lease.taskType
  have share : (run.tryAdmit request now).shares request.lease.taskType =
      ((run.expire now).shares request.lease.taskType).asked (run.decision request now).admitted
        ((run.expire now).wait? request.lease.taskType)
        ((run.tryAdmit request now).wait? request.lease.taskType) now := if_pos rfl
  rw [share, decision]
  rcases run.ledger.asked_tryAdmit request.lease request.memory request.inUse now with
    ⟨admitted, ended⟩ | ⟨refused, wait, rest⟩ | ⟨refused, stood, stands, since⟩ |
      ⟨refused, stood, ended, rest⟩ | ⟨refused, short, free, others, awake, idle, begun, since⟩
  · rw [show (run.tryAdmit request now).wait? _ = none from ended, admitted]
    refine ⟨fun _ impossible => absurd impossible (by simp), fun _ => ⟨now, ?_, ?_, .inl le_rfl⟩⟩
    · intro first impossible
      cases impossible
    · exact fun _ => rfl
  · rw [show (run.tryAdmit request now).wait? _ = (run.expire now).wait? _ from wait,
      show (run.tryAdmit request now).ledger.turns.rests.find? _ =
        (run.expire now).ledger.turns.rests.find? _ from rest, refused]
    have same : ((run.expire now).shares request.lease.taskType).asked false
        ((run.expire now).wait? request.lease.taskType)
        ((run.expire now).wait? request.lease.taskType) now =
          (run.expire now).shares request.lease.taskType := by
      cases (run.expire now).wait? request.lease.taskType <;> rfl
    rw [same]
    exact ⟨even, due⟩
  · rw [show (run.tryAdmit request now).wait? _ = some _ from stands,
      show (run.expire now).wait? _ = some _ from stood, refused]
    refine ⟨fun standing same => ?_, fun impossible => absurd impossible (by simp)⟩
    cases same
    exact since ▸ even _ stood
  · rw [show (run.tryAdmit request now).wait? _ = none from ended,
      show (run.expire now).wait? _ = some _ from stood, refused,
      show (run.tryAdmit request now).ledger.turns.rests.find? _ = some _ from rest]
    obtain ⟨first, began, half⟩ := even _ stood
    refine ⟨fun _ impossible => absurd impossible (by simp), fun _ => ?_⟩
    refine ⟨_, fun first' began' => ?_, fun impossible => ?_, .inr (.inl rfl)⟩
    · cases began.symm.trans began'
      simp only [Share.asked, Share.fruitless, Bool.false_eq_true, if_false]
      linarith
    · cases began.symm.trans impossible
  · rw [show (run.tryAdmit request now).wait? _ = some _ from begun,
      show (run.expire now).wait? _ = none from idle, refused]
    refine ⟨fun standing same => ?_, fun impossible => absurd impossible (by simp)⟩
    cases same
    obtain ⟨stop, owed, fresh, ends⟩ := due idle
    have past : stop ≤ now := by
      rcases ends with past | resting | lapsed
      · exact past
      · have awake : ¬ stop > now := by
          rw [MemoryTurns.resting] at awake
          rw [show (run.ledger.expire now).turns.rests.find? _ = some stop from resting] at awake
          exact of_decide_eq_false awake
        exact not_lt.mp awake
      · refine rested ⟨free, ?_, others⟩ stop lapsed
        rcases run.ledger.tryAdmit_cases request.lease request.memory request.inUse now with
          ⟨waiting, held, _⟩ | ⟨_, next⟩
        · cases free.symm.trans held
        · rw [next, AdmissionLedger.admitByMemory_decision] at short
          exact short
    rw [since]
    show Share.Even (Share.begin _ now) now
    cases began : ((run.expire now).shares request.lease.taskType).first with
    | none =>
      refine ⟨now, by rw [Share.begin, began]; rfl, ?_⟩
      rw [show ∀ share : Share, (share.begin now).waited = share.waited from fun _ => rfl,
        fresh began, sub_self, mul_zero]
    | some first =>
      refine ⟨first, by rw [Share.begin, began]; rfl, ?_⟩
      exact (owed first began).trans (by linarith)

theorem Kept.tryAdmit {run : TurnRun} (kept : run.Kept) {now : Int} (later : run.clock ≤ now)
    {request : TurnRequest} (rested : run.Rested request now) :
    (run.tryAdmit request now).Kept := by
  intro t
  by_cases own : t = request.lease.taskType
  · exact own ▸ right_own kept later rested
  · have share : (run.tryAdmit request now).shares t = (run.expire now).shares t := if_neg own
    obtain ⟨wait, rest⟩ := run.ledger.turns_tryAdmit_other request.lease request.memory
      request.inUse now own
    rw [share]
    show Share.Right _ (OrderedMap.find? _ t) (OrderedMap.find? _ t) now
    exact wait ▸ rest ▸ kept.expire later t

theorem reachable_kept {run : TurnRun} (reachable : (turnSystem Rested).Reachable run) :
    run.Kept := by
  refine reachable.invariant ?_ ?_
  · rintro run ⟨⟨policy, physicalMemoryBytes, turns, created⟩, fresh⟩ t
    rw [fresh, wait?, created]
    refine ⟨fun _ impossible => absurd impossible (by simp [AdmissionLedger.create,
      MemoryTurns.create]), fun _ => ⟨run.clock, ?_, fun _ => rfl, .inl le_rfl⟩⟩
    intro first impossible
    cases impossible
  · rintro run _ _ kept (⟨later, rested⟩ | _ | _)
    · exact kept.tryAdmit later rested
    · exact kept
    · exact kept

/-! ## Fairness -/

/-- A lease of type `t` is refused at `now` in favour of the waiting type `u`. -/
def HeldBack (run : TurnRun) (now : Int) (t u : String) : Prop :=
  (run.ledger.expire now).heldBackFor t = some u

/-- What the turns allow at `now`. -/
structure Fair (run : TurnRun) (now : Int) : Prop where
  acyclic : ∀ t, ¬ Relation.TransGen (run.HeldBack now) t t
  /-- The waiting type with the lowest ticket yields to none. -/
  lowest : ∀ t wait, (run.expire now).wait? t = some wait →
    (∀ u other, (run.expire now).wait? u = some other → wait.ticket ≤ other.ticket) →
    ∀ u, ¬ run.HeldBack now t u
  /-- A type with no running lease is not held back. -/
  idle : ∀ t, run.ledger.typeRunning t = false → ∀ u, ¬ run.HeldBack now t u
  /-- The waits of a type before this one held the others back at most half of the time
  since the first of them. -/
  share : ∀ t wait, (run.expire now).wait? t = some wait →
    ∃ first, ((run.expire now).shares t).first = some first ∧
      2 * ((run.expire now).shares t).waited ≤ wait.since - first
  /-- And this one has not reached the max wait. -/
  bounded : ∀ t wait, (run.expire now).wait? t = some wait →
    now - wait.since < run.ledger.turns.policy.maxWait

theorem heldBack_yields {run : TurnRun} {now : Int} {t u : String} (held : run.HeldBack now t u) :
    (run.ledger.expire now).turns.Yields t u := by
  rw [HeldBack, AdmissionLedger.heldBackFor] at held
  split at held
  · exact held
  · cases held

end TurnRun

open TurnRun in
/-- In every run in which a type whose wait lapsed stays away as long as that wait stood, the
turns are fair. -/
theorem memoryTurns_fair {run : TurnRun} (reachable : (turnSystem Rested).Reachable run)
    {now : Int} (later : run.clock ≤ now) : run.Fair now := by
  refine ⟨?_, ?_, ?_, ?_, ?_⟩
  · intro t circle
    exact MemoryTurns.yields_acyclic _ t
      (Relation.TransGen.mono (fun _ _ => heldBack_yields) _ _ circle)
  · intro t wait found lowest u held
    have none := MemoryTurns.first_yields_to_none found lowest
    cases none.symm.trans (heldBack_yields held)
  · intro t idle u held
    rw [HeldBack, AdmissionLedger.heldBackFor, show (run.ledger.expire now).typeRunning t = false
      from idle] at held
    cases held
  · intro t wait found
    exact ((reachable_kept reachable).expire later t).even wait found
  · intro t wait found
    rw [show (run.expire now).wait? t = _ from MemoryTurns.find?_expire run.ledger.turns now t,
      Option.filter_eq_some_iff] at found
    obtain ⟨-, stands⟩ := found
    have stands := of_decide_eq_true stands
    rw [not_or] at stands
    exact not_le.mp fun long => stands.2 ⟨not_lt.mp stands.1, long⟩

/-- A request of one session for `bytes` bytes, on a worker with 8 GiB to hand out. -/
def turnRequest (leaseId taskType : String) (bytes : Nat) : TurnRequest where
  lease := { session := "s", leaseId := leaseId, taskType := taskType, requiredBytes := bytes }
  memory := { availableBytes := 8 * 1024 ^ 3, pressure := .normal }
  inUse _ := none

/-- A worker on which nothing runs. -/
def idleTurns : TurnRun where
  ledger := .create {} (16 * 1024 ^ 3) {}
  clock := 0
  shares _ := {}

/-- An `"ocr"` lease runs, and an `"asr"` lease that never fits is refused beside it. -/
def crowded : TurnRun :=
  (idleTurns.tryAdmit (turnRequest "1" "ocr" 1) 0).tryAdmit
    (turnRequest "2" "asr" (64 * 1024 ^ 3)) 0

theorem crowded_reachable {allowed : TurnRun → TurnRequest → Int → Prop}
    (first : allowed idleTurns (turnRequest "1" "ocr" 1) 0)
    (second : allowed (idleTurns.tryAdmit (turnRequest "1" "ocr" 1) 0)
      (turnRequest "2" "asr" (64 * 1024 ^ 3)) 0) :
    (turnSystem allowed).Reachable crowded :=
  .next (.next (.start ⟨⟨_, _, _, rfl⟩, rfl⟩) (.tryAdmit le_rfl first)) (.tryAdmit le_rfl second)

theorem memoryTurns_fair_crowded : crowded.Fair (2 * 10 ^ 9) :=
  memoryTurns_fair
    (crowded_reachable (fun _ due lapsed => by cases lapsed) fun _ due lapsed => by cases lapsed)
    (by decide)

/-- The `"asr"` type asks again a millisecond after its idle window. -/
def returned : TurnRun :=
  crowded.tryAdmit (turnRequest "2" "asr" (64 * 1024 ^ 3)) (10001 * 10 ^ 6)

/-- Its wait of ten seconds is over, and the next one begins at once. -/
theorem lapsed_wait_returns :
    ∃ run : TurnRun, (turnSystem fun _ _ _ => True).Reachable run ∧ ¬ run.Fair run.clock := by
  refine ⟨returned, .next (crowded_reachable trivial trivial) (.tryAdmit (by decide) trivial),
    fun fair => ?_⟩
  obtain ⟨first, began, half⟩ := fair.share "asr"
    { ticket := 1, since := 10001 * 10 ^ 6, lastAsked := 10001 * 10 ^ 6,
      waitingFor := [leaseKey "s" "1"] } (by decide)
  have start : ((returned.expire returned.clock).shares "asr").first = some 0 := by decide
  have waited : ((returned.expire returned.clock).shares "asr").waited = 10 * 10 ^ 9 := by decide
  cases began.symm.trans start
  rw [waited] at half
  exact absurd half (by decide)

end Svp.Worker

import Svp.Worker.MemoryTurns

/-!
# Memory admission

`AdmissionLedger` admits a lease when the memory the worker has left covers its
estimate. Every sum of estimates is counted in 64 bits; a session passes on the estimate
of a task spec, which is in MiB, in bytes.

1. `pendingTotal_eq`: what the ledger counts as pending, against the sum over sessions.
2. `tryAdmit_cases`: the three ways a request is decided.
3. `assign_exact`: in every run whose requests are bounded, a lease is admitted only on
   memory that covers it; `Bounded` is exactly what keeps the sums from wrapping.
   `assign_wraps`: an estimate of 2^44 MiB is admitted as one of nothing.
-/

namespace Svp.Worker

open Lib (OrderedMap)

/-! ## The program -/

inductive MemoryPressure
  | normal
  | warning
  | critical
deriving DecidableEq

def MemoryPressure.level : MemoryPressure → Nat
  | normal => 0
  | warning => 1
  | critical => 2

def memoryPressureName : MemoryPressure → String
  | .normal => "normal"
  | .warning => "warning"
  | .critical => "critical"

structure MemorySnapshot where
  availableBytes : Nat
  pressure : MemoryPressure

def kRejectInsufficientMemory : String := "insufficient_memory"

def kRejectMemoryPressure : String := "memory_pressure"

structure AdmissionPolicy where
  reserveFloorBytes : Nat := 2 * 1024 * 1024 * 1024
  reservePhysicalDivisor : Nat := 8
  refuseAt : MemoryPressure := .warning

def AdmissionPolicy.reserveBytes (policy : AdmissionPolicy) (physicalMemoryBytes : Nat) : Nat :=
  let fraction :=
    if policy.reservePhysicalDivisor = 0 then 0
    else physicalMemoryBytes / policy.reservePhysicalDivisor
  max policy.reserveFloorBytes fraction

def mib (bytes : Nat) : String := toString (bytes / (1024 * 1024)) ++ " MiB"

/-- Whether the memory left after `spokenFor` covers `requiredBytes`. -/
def fitsMemory (availableBytes spokenFor requiredBytes : Nat) : Bool :=
  let freeForTask := if availableBytes > spokenFor then availableBytes - spokenFor else 0
  if requiredBytes = 0 then availableBytes > spokenFor else freeForTask ≥ requiredBytes

def decideAdmission (policy : AdmissionPolicy) (physicalMemoryBytes : Nat)
    (memory : MemorySnapshot) (pending requiredBytes : Nat) : AdmissionDecision :=
  if memory.pressure.level ≥ policy.refuseAt.level then
    { admitted := false
      code := kRejectMemoryPressure
      message := "the worker is under " ++ memoryPressureName memory.pressure ++
        " memory pressure" }
  else
    let reserve := policy.reserveBytes physicalMemoryBytes
    let spokenFor := (reserve + pending) % 2 ^ 64
    if fitsMemory memory.availableBytes spokenFor requiredBytes then accepted
    else
      { admitted := false
        code := kRejectInsufficientMemory
        message := "task needs " ++ mib requiredBytes ++ " but the worker has " ++
          mib memory.availableBytes ++ " available, keeps a " ++ mib reserve ++
          " reserve, and expects " ++ mib pending ++
          " more for running tasks than they already use" }

def pendingBytes (estimatedBytes : Nat) (inUse : Option Nat) : Nat :=
  match inUse with
  | none => estimatedBytes
  | some inUse => if estimatedBytes > inUse then estimatedBytes - inUse else 0

structure Admitted where
  taskType : String
  bytes : Nat
deriving DecidableEq

structure LeaseAdmission where
  session : String
  leaseId : String
  taskType : String
  /-- The task's estimated peak RSS (0: none). -/
  requiredBytes : Nat

/-- Memory a session's process uses now, or none when unknown. -/
abbrev SessionInUse := String → Option Nat

structure AdmissionLedger where
  policy : AdmissionPolicy
  physicalMemoryBytes : Nat
  turns : MemoryTurns
  admitted : OrderedMap LeaseKey Admitted

namespace AdmissionLedger

def create (policy : AdmissionPolicy) (physicalMemoryBytes : Nat) (turns : MemoryTurnPolicy) :
    AdmissionLedger where
  policy := policy
  physicalMemoryBytes := physicalMemoryBytes
  turns := .create turns
  admitted := .empty

def typeRunning (ledger : AdmissionLedger) (taskType : String) : Bool :=
  ledger.admitted.values.any fun admitted => admitted.taskType = taskType

def otherTypesRunning (ledger : AdmissionLedger) (taskType : String) : List LeaseKey :=
  (ledger.admitted.entries.filter fun entry => entry.2.taskType ≠ taskType).map Prod.fst

/-- `estimated_by_session[key.first] += admitted.bytes`. -/
def addEstimate (sums : OrderedMap String Nat) (entry : LeaseKey × Admitted) :
    OrderedMap String Nat :=
  let session := sessionOf entry.1
  sums.insert session (((sums.find? session).getD 0 + entry.2.bytes) % 2 ^ 64)

def estimatedBySession (ledger : AdmissionLedger) : OrderedMap String Nat :=
  ledger.admitted.entries.foldl addEstimate .empty

/-- The sum of `pending_bytes` over the sessions. -/
def pending (ledger : AdmissionLedger) (inUse : SessionInUse) : Nat :=
  ledger.estimatedBySession.entries.foldl
    (fun pending entry => (pending + pendingBytes entry.2 (inUse entry.1)) % 2 ^ 64) 0

def turnKept (waiting : String) : AdmissionDecision where
  admitted := false
  code := kRejectInsufficientMemory
  message := "memory this worker frees goes to " ++ waiting ++
    " leases first, which were refused for memory and are waiting for it"

/-- What the memory decides on a lease. -/
def decideMemory (ledger : AdmissionLedger) (lease : LeaseAdmission) (memory : MemorySnapshot)
    (inUse : SessionInUse) : AdmissionDecision :=
  decideAdmission ledger.policy ledger.physicalMemoryBytes memory (ledger.pending inUse)
    lease.requiredBytes

/-- The end of `try_admit`: the decision by memory and what it records. -/
def admitByMemory (ledger : AdmissionLedger) (lease : LeaseAdmission) (memory : MemorySnapshot)
    (inUse : SessionInUse) (now : Int) : AdmissionLedger × AdmissionDecision :=
  let decision := ledger.decideMemory lease memory inUse
  if decision.admitted then
    ({ ledger with
        admitted := ledger.admitted.insert (leaseKey lease.session lease.leaseId)
          { taskType := lease.taskType, bytes := lease.requiredBytes }
        turns := ledger.turns.admitted lease.taskType }, decision)
  else if decision.code = kRejectInsufficientMemory then
    ({ ledger with
        turns := ledger.turns.refused lease.taskType
          (ledger.otherTypesRunning lease.taskType) now }, decision)
  else (ledger, decision)

/-- The waiting type a lease is held back for, if any: asked only for types that run. -/
def heldBackFor (ledger : AdmissionLedger) (taskType : String) : Option String :=
  if ledger.typeRunning taskType then ledger.turns.yieldsTo taskType else none

def expire (ledger : AdmissionLedger) (now : Int) : AdmissionLedger :=
  { ledger with turns := ledger.turns.expire now }

def tryAdmit (ledger : AdmissionLedger) (lease : LeaseAdmission) (memory : MemorySnapshot)
    (inUse : SessionInUse) (now : Int) : AdmissionLedger × AdmissionDecision :=
  let ledger := ledger.expire now
  match ledger.heldBackFor lease.taskType with
  | some waiting => (ledger, turnKept waiting)
  | none => ledger.admitByMemory lease memory inUse now

def release (ledger : AdmissionLedger) (session leaseId : String) : AdmissionLedger :=
  { ledger with admitted := ledger.admitted.erase (leaseKey session leaseId) }

def releaseSession (ledger : AdmissionLedger) (session : String) : AdmissionLedger :=
  { ledger with admitted := ledger.admitted.filter fun key _ => sessionOf key ≠ session }

end AdmissionLedger

def kBytesPerMiB : Nat := 1024 * 1024

/-- `required` of `assign`: the estimate of the task spec in bytes. -/
def requiredBytes (estPeakRssMb : Nat) : Nat := estPeakRssMb * kBytesPerMiB % 2 ^ 64

/-! ## What counts as pending -/

/-- The estimates of the leases running here, in bytes and without a bound. -/
abbrev Estimates := OrderedMap LeaseKey Nat

namespace Estimates

def ofSession (estimates : Estimates) (session : String) : Nat :=
  ((estimates.entries.filter fun entry => sessionOf entry.1 = session).map Prod.snd).sum

def sessions (estimates : Estimates) : List String :=
  (estimates.entries.map fun entry => sessionOf entry.1).dedup

/-- What the running leases are still expected to take. -/
def pendingTotal (estimates : Estimates) (inUse : SessionInUse) : Nat :=
  (estimates.sessions.map fun session =>
    pendingBytes (estimates.ofSession session) (inUse session)).sum

end Estimates

/-- The bytes a ledger keeps for its leases. -/
def AdmissionLedger.bytes (ledger : AdmissionLedger) : Estimates :=
  ledger.admitted.map fun _ admitted => admitted.bytes

theorem find?_foldl_addEstimate (entries : List (LeaseKey × Admitted))
    (sums : OrderedMap String Nat) (session : String) :
    (entries.foldl AdmissionLedger.addEstimate sums).find? session =
      if session ∈ entries.map (fun entry => sessionOf entry.1) then
        some (((sums.find? session).getD 0 +
          ((entries.filter fun entry => sessionOf entry.1 = session).map fun entry =>
            entry.2.bytes).sum) % 2 ^ 64)
      else sums.find? session := by
  induction entries generalizing sums with
  | nil => rfl
  | cons entry rest ih =>
    rw [List.foldl_cons, ih, AdmissionLedger.addEstimate, OrderedMap.find?_insert, List.map_cons]
    by_cases own : session = sessionOf entry.1
    · subst own
      rw [if_pos List.mem_cons_self, if_pos rfl, Option.getD_some, List.filter_cons_of_pos (by simp),
        List.map_cons, List.sum_cons, ← Nat.add_assoc]
      split
      · rw [Nat.mod_add_mod]
      · next absent =>
        have none : rest.filter (fun e => sessionOf e.1 = sessionOf entry.1) = [] := by
          refine List.filter_eq_nil_iff.mpr fun e mem same => absent ?_
          exact List.mem_map.mpr ⟨e, mem, of_decide_eq_true same⟩
        rw [none]
        rfl
    · rw [if_neg own,
        List.filter_cons_of_neg (by simpa using Ne.symm own)]
      simp only [List.mem_cons, own, false_or]

theorem foldl_addMod {α : Type*} (f : α → Nat) (entries : List α) (total : Nat) :
    (entries.foldl (fun total entry => (total + f entry) % 2 ^ 64) total) % 2 ^ 64 =
      (total + (entries.map f).sum) % 2 ^ 64 := by
  induction entries generalizing total with
  | nil => rfl
  | cons entry rest ih =>
    rw [List.foldl_cons, ih, Nat.mod_add_mod, List.map_cons, List.sum_cons, Nat.add_assoc]

theorem foldl_addMod_lt {α : Type*} (f : α → Nat) (entries : List α) {total : Nat}
    (bound : total < 2 ^ 64) :
    entries.foldl (fun total entry => (total + f entry) % 2 ^ 64) total < 2 ^ 64 := by
  induction entries generalizing total with
  | nil => exact bound
  | cons entry rest ih => exact ih (Nat.mod_lt _ (by decide))

namespace AdmissionLedger

variable {ledger : AdmissionLedger}

theorem find?_estimatedBySession (session : String) :
    ledger.estimatedBySession.find? session =
      if session ∈ ledger.bytes.sessions then some (ledger.bytes.ofSession session % 2 ^ 64)
      else none := by
  have keys : session ∈ ledger.bytes.sessions ↔
      session ∈ ledger.admitted.entries.map fun entry => sessionOf entry.1 := by
    rw [Estimates.sessions, List.mem_dedup]
    simp [bytes, OrderedMap.map]
  have total : ledger.bytes.ofSession session =
      ((ledger.admitted.entries.filter fun entry => sessionOf entry.1 = session).map
        fun entry => entry.2.bytes).sum := by
    simp only [Estimates.ofSession, bytes, OrderedMap.map, List.filter_map, List.map_map]
    rfl
  rw [estimatedBySession, find?_foldl_addEstimate, OrderedMap.find?_empty, Option.getD_none,
    Nat.zero_add, total]
  simp only [keys]

/-- Where no session's estimates reach 2^64 the ledger's map has their sums. -/
theorem estimatedBySession_perm (narrow : ∀ session, ledger.bytes.ofSession session < 2 ^ 64) :
    ledger.estimatedBySession.entries.Perm
      (ledger.bytes.sessions.map fun session => (session, ledger.bytes.ofSession session)) := by
  refine (List.perm_ext_iff_of_nodup (OrderedMap.entries_nodup _) ?_).mpr ?_
  · exact (List.nodup_dedup _).map fun a b same => congrArg Prod.fst same
  · rintro ⟨session, sum⟩
    rw [← OrderedMap.find?_eq_some, find?_estimatedBySession, List.mem_map]
    by_cases present : session ∈ ledger.bytes.sessions
    · rw [if_pos present, Nat.mod_eq_of_lt (narrow session)]
      constructor
      · intro same
        exact ⟨session, present, by rw [Option.some.inj same]⟩
      · rintro ⟨_, _, same⟩
        obtain ⟨rfl, rfl⟩ := Prod.mk.inj same
        rfl
    · rw [if_neg present]
      refine iff_of_false (by simp) ?_
      rintro ⟨_, mem, same⟩
      exact present ((Prod.mk.inj same).1 ▸ mem)

theorem pending_eq (narrow : ∀ session, ledger.bytes.ofSession session < 2 ^ 64)
    (inUse : SessionInUse) (counted : ledger.bytes.pendingTotal inUse < 2 ^ 64) :
    ledger.pending inUse = ledger.bytes.pendingTotal inUse := by
  have perm := (estimatedBySession_perm narrow).map fun entry =>
    pendingBytes entry.2 (inUse entry.1)
  have total : (ledger.estimatedBySession.entries.map fun entry =>
      pendingBytes entry.2 (inUse entry.1)).sum = ledger.bytes.pendingTotal inUse := by
    rw [perm.sum_eq, List.map_map]
    rfl
  have folded := foldl_addMod (fun entry => pendingBytes entry.2 (inUse entry.1))
    ledger.estimatedBySession.entries 0
  have below := foldl_addMod_lt (fun entry : String × Nat => pendingBytes entry.2 (inUse entry.1))
    ledger.estimatedBySession.entries (show 0 < 2 ^ 64 by decide)
  rw [Nat.mod_eq_of_lt below, Nat.zero_add, total, Nat.mod_eq_of_lt counted] at folded
  exact folded

end AdmissionLedger

/-! ## Runs -/

/-- One request to a ledger: a leased assignment with what the worker reads meanwhile. -/
structure AssignRequest where
  session : String
  leaseId : String
  taskType : String
  estPeakRssMb : Nat
  memory : MemorySnapshot
  inUse : SessionInUse
  now : Int

namespace AssignRequest

def lease (request : AssignRequest) : LeaseAdmission where
  session := request.session
  leaseId := request.leaseId
  taskType := request.taskType
  requiredBytes := requiredBytes request.estPeakRssMb

/-- The estimate in bytes, without a bound. -/
def needed (request : AssignRequest) : Nat := request.estPeakRssMb * kBytesPerMiB

end AssignRequest

/-- A ledger in a run. `estimates` is not in the source: the estimates of the leases
admitted and not yet released, in unbounded integers. -/
structure LedgerRun where
  ledger : AdmissionLedger
  estimates : Estimates

namespace LedgerRun

/-- Whether a request is admitted. -/
def admits (run : LedgerRun) (request : AssignRequest) : Bool :=
  (run.ledger.tryAdmit request.lease request.memory request.inUse request.now).2.admitted

def assign (run : LedgerRun) (request : AssignRequest) : LedgerRun where
  ledger := (run.ledger.tryAdmit request.lease request.memory request.inUse request.now).1
  estimates :=
    if run.admits request then
      run.estimates.insert (leaseKey request.session request.leaseId) request.needed
    else run.estimates

def release (run : LedgerRun) (session leaseId : String) : LedgerRun where
  ledger := run.ledger.release session leaseId
  estimates := run.estimates.erase (leaseKey session leaseId)

def releaseSession (run : LedgerRun) (session : String) : LedgerRun where
  ledger := run.ledger.releaseSession session
  estimates := run.estimates.filter fun key _ => sessionOf key ≠ session

def reserve (run : LedgerRun) : Nat :=
  run.ledger.policy.reserveBytes run.ledger.physicalMemoryBytes

/-- The estimates stay within 64 bits: the task's in bytes, every session's together, and
what is expected beyond the memory in use together with the reserve. -/
structure Bounded (run : LedgerRun) (request : AssignRequest) : Prop where
  estimate : request.estPeakRssMb < 2 ^ 44
  sessions : ∀ session, run.estimates.ofSession session < 2 ^ 64
  spokenFor : run.reserve + run.estimates.pendingTotal request.inUse < 2 ^ 64

/-- The memory covers an admitted lease, and nothing wraps on the way. -/
structure Exact (run : LedgerRun) (request : AssignRequest) : Prop where
  covered : run.admits request = true →
    (request.needed : Int) ≤ request.memory.availableBytes - run.reserve -
      run.estimates.pendingTotal request.inUse
  product : request.needed < 2 ^ 64
  sessions : ∀ session, run.estimates.ofSession session < 2 ^ 64
  spokenFor : run.reserve + run.estimates.pendingTotal request.inUse < 2 ^ 64

end LedgerRun

/-- One call to a ledger. Requests are those `allowed`. -/
inductive LedgerStep (allowed : LedgerRun → AssignRequest → Prop) : LedgerRun → LedgerRun → Prop
  | assign {run : LedgerRun} {request : AssignRequest} :
      allowed run request → LedgerStep allowed run (run.assign request)
  | release (run : LedgerRun) (session leaseId : String) :
      LedgerStep allowed run (run.release session leaseId)
  | releaseSession (run : LedgerRun) (session : String) :
      LedgerStep allowed run (run.releaseSession session)

/-- The runs of a ledger whose requests are those `allowed`. -/
def ledgerSystem (allowed : LedgerRun → AssignRequest → Prop) : Lib.System LedgerRun where
  init run := ∃ policy physicalMemoryBytes turns,
    run = { ledger := .create policy physicalMemoryBytes turns, estimates := .empty }
  step := LedgerStep allowed

namespace AdmissionLedger

/-- A request is held back, or decided by memory and recorded when admitted. -/
theorem tryAdmit_cases (ledger : AdmissionLedger) (lease : LeaseAdmission) (memory : MemorySnapshot)
    (inUse : SessionInUse) (now : Int) :
    (∃ waiting, (ledger.expire now).heldBackFor lease.taskType = some waiting ∧
        ledger.tryAdmit lease memory inUse now = (ledger.expire now, turnKept waiting)) ∨
      ((ledger.expire now).heldBackFor lease.taskType = none ∧
        ledger.tryAdmit lease memory inUse now =
          (ledger.expire now).admitByMemory lease memory inUse now) := by
  rw [tryAdmit]
  cases (ledger.expire now).heldBackFor lease.taskType with
  | some waiting => exact .inl ⟨waiting, rfl, rfl⟩
  | none => exact .inr ⟨rfl, rfl⟩

theorem admitByMemory_decision (ledger : AdmissionLedger) (lease : LeaseAdmission)
    (memory : MemorySnapshot) (inUse : SessionInUse) (now : Int) :
    (ledger.admitByMemory lease memory inUse now).2 = ledger.decideMemory lease memory inUse := by
  rw [admitByMemory]
  split
  · rfl
  · split <;> rfl

/-- An admitted lease was decided by memory. -/
theorem decideMemory_of_admitted {ledger : AdmissionLedger} {lease : LeaseAdmission}
    {memory : MemorySnapshot} {inUse : SessionInUse} {now : Int}
    (admitted : (ledger.tryAdmit lease memory inUse now).2.admitted = true) :
    (ledger.decideMemory lease memory inUse).admitted = true := by
  rcases ledger.tryAdmit_cases lease memory inUse now with ⟨waiting, _, same⟩ | ⟨_, same⟩
  · rw [same] at admitted
    cases admitted
  · rw [same, admitByMemory_decision] at admitted
    exact admitted

theorem admitted_admitByMemory (ledger : AdmissionLedger) (lease : LeaseAdmission)
    (memory : MemorySnapshot) (inUse : SessionInUse) (now : Int) :
    (ledger.admitByMemory lease memory inUse now).1.admitted =
      if (ledger.admitByMemory lease memory inUse now).2.admitted then
        ledger.admitted.insert (leaseKey lease.session lease.leaseId)
          { taskType := lease.taskType, bytes := lease.requiredBytes }
      else ledger.admitted := by
  rw [admitByMemory_decision, admitByMemory]
  split
  · rfl
  · split <;> rfl

/-- An admitted lease is added to the ledger, a refused one leaves it as it is. -/
theorem admitted_tryAdmit (ledger : AdmissionLedger) (lease : LeaseAdmission)
    (memory : MemorySnapshot) (inUse : SessionInUse) (now : Int) :
    (ledger.tryAdmit lease memory inUse now).1.admitted =
      if (ledger.tryAdmit lease memory inUse now).2.admitted then
        ledger.admitted.insert (leaseKey lease.session lease.leaseId)
          { taskType := lease.taskType, bytes := lease.requiredBytes }
      else ledger.admitted := by
  rcases ledger.tryAdmit_cases lease memory inUse now with ⟨waiting, _, same⟩ | ⟨_, same⟩
  · rw [same]
    rfl
  · rw [same, admitted_admitByMemory]
    rfl

end AdmissionLedger

/-- What is left after `spokenFor` covers what fits. -/
theorem le_of_fitsMemory {available spokenFor required : Nat}
    (fits : fitsMemory available spokenFor required = true) :
    spokenFor + required ≤ available := by
  rw [fitsMemory] at fits
  split at fits
  · next none =>
    have less := of_decide_eq_true fits
    rw [none]
    exact less.le
  · next some =>
    have enough := of_decide_eq_true fits
    split at enough
    · next less => exact Nat.add_le_of_le_sub' less.le enough
    · exact absurd (Nat.le_zero.mp enough) some

theorem fitsMemory_of_admitted {policy : AdmissionPolicy} {physicalMemoryBytes : Nat}
    {memory : MemorySnapshot} {pending required : Nat}
    (admitted : (decideAdmission policy physicalMemoryBytes memory pending required).admitted =
      true) :
    fitsMemory memory.availableBytes
      ((policy.reserveBytes physicalMemoryBytes + pending) % 2 ^ 64) required = true := by
  rw [decideAdmission] at admitted
  split at admitted
  · cases admitted
  · simp only [] at admitted
    split at admitted
    · next fits => exact fits
    · cases admitted

namespace LedgerRun

/-- The bytes the ledger keeps are the estimates. -/
def Agrees (run : LedgerRun) : Prop := run.ledger.bytes = run.estimates

theorem requiredBytes_eq {request : AssignRequest} (small : request.estPeakRssMb < 2 ^ 44) :
    requiredBytes request.estPeakRssMb = request.needed := by
  refine Nat.mod_eq_of_lt ?_
  calc request.estPeakRssMb * kBytesPerMiB
      < 2 ^ 44 * kBytesPerMiB := Nat.mul_lt_mul_of_pos_right small (by decide)
    _ = 2 ^ 64 := by decide

theorem Agrees.assign {run : LedgerRun} (agrees : run.Agrees) {request : AssignRequest}
    (bounded : run.Bounded request) : (run.assign request).Agrees := by
  show ((run.ledger.tryAdmit ..).1.admitted.map _) =
    if run.admits request then run.estimates.insert _ request.needed else run.estimates
  rw [AdmissionLedger.admitted_tryAdmit, ← agrees]
  show OrderedMap.map (if run.admits request then _ else _) _ = _
  split
  · rw [OrderedMap.map_insert]
    show OrderedMap.insert _ _ (requiredBytes request.estPeakRssMb) = _
    rw [requiredBytes_eq bounded.estimate]
    rfl
  · rfl

theorem reachable_agrees {run : LedgerRun} (reachable : (ledgerSystem Bounded).Reachable run) :
    run.Agrees := by
  refine reachable.invariant ?_ ?_
  · rintro run ⟨policy, physicalMemoryBytes, turns, rfl⟩
    rfl
  · rintro run _ _ agrees (bounded | ⟨session, leaseId⟩ | session)
    · exact agrees.assign bounded
    · show (run.ledger.admitted.erase _).map _ = run.estimates.erase _
      rw [OrderedMap.map_erase, ← agrees]
      rfl
    · have kept := OrderedMap.map_filter_keys run.ledger.admitted
        (fun _ admitted => admitted.bytes) fun key => decide (sessionOf key ≠ session)
      exact kept.trans (congrArg (OrderedMap.filter · _) agrees)

end LedgerRun

open LedgerRun in
/-- In every run whose requests are bounded, a lease is admitted only on memory that covers
its estimate, and nothing wraps; a request that is not bounded makes something wrap. -/
theorem assign_exact {run : LedgerRun} (reachable : (ledgerSystem Bounded).Reachable run)
    (request : AssignRequest) : run.Exact request ↔ run.Bounded request := by
  constructor
  · rintro ⟨_, product, sessions, spokenFor⟩
    refine ⟨?_, sessions, spokenFor⟩
    refine Nat.lt_of_mul_lt_mul_right (a := kBytesPerMiB) ?_
    calc request.estPeakRssMb * kBytesPerMiB < 2 ^ 64 := product
      _ = 2 ^ 44 * kBytesPerMiB := by decide
  · intro bounded
    have needed := requiredBytes_eq bounded.estimate
    refine ⟨fun admitted => ?_, ?_, bounded.sessions, bounded.spokenFor⟩
    · have agrees := reachable_agrees reachable
      have pending : run.ledger.pending request.inUse =
          run.estimates.pendingTotal request.inUse := by
        have counted : run.ledger.bytes.pendingTotal request.inUse < 2 ^ 64 := by
          rw [agrees]
          exact (Nat.le_add_left _ _).trans_lt bounded.spokenFor
        rw [AdmissionLedger.pending_eq (by rw [agrees]; exact bounded.sessions) _ counted, agrees]
      have fits := fitsMemory_of_admitted (AdmissionLedger.decideMemory_of_admitted admitted)
      rw [pending, Nat.mod_eq_of_lt (show run.ledger.policy.reserveBytes
        run.ledger.physicalMemoryBytes + _ < 2 ^ 64 from bounded.spokenFor)] at fits
      have enough : run.reserve + run.estimates.pendingTotal request.inUse + request.needed ≤
          request.memory.availableBytes := needed ▸ le_of_fitsMemory fits
      have enough := Int.ofNat_le.mpr enough
      push_cast at enough
      linarith
    · rw [← needed]
      exact Nat.mod_lt _ (by decide)

/-- An idle worker with 8 GiB to hand out. -/
def idleWorker : LedgerRun where
  ledger := .create {} (16 * 1024 ^ 3) {}
  estimates := .empty

/-- A request of one session of an idle worker for `estPeakRssMb` MiB. -/
def soleRequest (estPeakRssMb : Nat) : AssignRequest where
  session := "s"
  leaseId := "1"
  taskType := "ocr"
  estPeakRssMb := estPeakRssMb
  memory := { availableBytes := 8 * 1024 ^ 3, pressure := .normal }
  inUse _ := none
  now := 0

theorem idleWorker_reachable (allowed : LedgerRun → AssignRequest → Prop) :
    (ledgerSystem allowed).Reachable idleWorker :=
  .start ⟨_, _, _, rfl⟩

theorem assign_exact_gibibyte : idleWorker.Exact (soleRequest 1024) :=
  (assign_exact (idleWorker_reachable _) (soleRequest 1024)).mpr
    ⟨by decide, fun _ => (show 0 < 2 ^ 64 by decide), by decide⟩

/-- An estimate of 2^44 MiB, 2^64 bytes, is admitted on 8 GiB. -/
theorem assign_wraps : ∃ run, (ledgerSystem fun _ _ => True).Reachable run ∧
    ∃ request : AssignRequest, request.estPeakRssMb < 2 ^ 64 ∧ run.admits request = true ∧
      ¬ (request.needed : Int) ≤ request.memory.availableBytes - run.reserve -
        run.estimates.pendingTotal request.inUse :=
  ⟨idleWorker, idleWorker_reachable _, soleRequest (2 ^ 44), by decide, by decide, by decide⟩

end Svp.Worker

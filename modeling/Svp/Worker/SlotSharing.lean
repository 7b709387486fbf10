import Svp.Lib.System
import Svp.Lib.OrderedMap

/-!
# Slot sharing across coordinators

`SlotSharing` shares the slots a worker has for a task type among the coordinators it
serves. Times are readings of the steady clock, counted from any origin.

1. `reachable_agrees`: the waits, dropped lazily, are those the coordinators' own
   requests make.
2. `tryTake_fair`: a contended request that declares slots is admitted only within them
   and never ahead of a waiting coordinator that comes first; the waiter that comes
   first is admitted on asking, and there always is one; a coordinator alone is always
   admitted. `undeclared_overcommits`: a request that declares no slots is outside this.
3. `first_unique`: no two waiters are first, in a run of at most 2^64 tickets.
-/

namespace Svp.Worker

open Lib (OrderedMap)

/-! ## The program -/

structure AdmissionDecision where
  admitted : Bool
  /-- Empty when admitted; otherwise a REJECT code. -/
  code : String
  message : String
deriving DecidableEq, Repr

def accepted : AdmissionDecision := { admitted := true, code := "", message := "" }

def kRejectInsufficientSlots : String := "insufficient_slots"

/-- `(session, lease_id)`. -/
abbrev LeaseKey := String ×ₗ String

def leaseKey (session leaseId : String) : LeaseKey := toLex (session, leaseId)

/-- `key.first`. -/
def sessionOf (key : LeaseKey) : String := (ofLex key).1

/-- Running task counts per task type. -/
abbrev TaskTypeCounts := OrderedMap String Nat

structure SlotRequest where
  coordinator : String
  session : String
  leaseId : String
  taskType : String
  /-- The session's declared slots for the task type; 0 when it declared none. -/
  declaredSlots : Nat

structure Held where
  coordinator : String
  taskType : String
deriving DecidableEq

structure Waiting where
  ticket : Nat
  lastAsked : Int
deriving DecidableEq

structure SlotSharing where
  contentionWindow : Int
  held : OrderedMap LeaseKey Held
  waiting : OrderedMap String (OrderedMap String Waiting)
  /-- The tickets issued so far; the source counts them in 64 bits, see `wait`. -/
  nextTicket : Nat

namespace SlotSharing

def create (contentionWindow : Int) : SlotSharing where
  contentionWindow := contentionWindow
  held := .empty
  waiting := .empty
  nextTicket := 0

def heldBy (sharing : SlotSharing) (coordinator taskType : String) : Nat :=
  sharing.held.values.countP fun holder =>
    holder.coordinator = coordinator ∧ holder.taskType = taskType

def heldByOthers (sharing : SlotSharing) (coordinator taskType : String) : Nat :=
  sharing.held.values.countP fun holder =>
    holder.coordinator ≠ coordinator ∧ holder.taskType = taskType

def heldOf (sharing : SlotSharing) (taskType : String) : Nat :=
  sharing.held.values.countP fun holder => holder.taskType = taskType

/-- The coordinators waiting for `taskType`: none when the type has no entry. -/
def waitingFor (sharing : SlotSharing) (taskType : String) : OrderedMap String Waiting :=
  (sharing.waiting.find? taskType).getD .empty

def expireWaiting (sharing : SlotSharing) (now : Int) : SlotSharing :=
  let left := sharing.waiting.map fun _ type =>
    type.filter fun _ entry => ¬ now - entry.lastAsked > sharing.contentionWindow
  { sharing with waiting := left.filter fun _ type => !type.isEmpty }

def wait (sharing : SlotSharing) (request : SlotRequest) (now : Int) : SlotSharing :=
  let waiting := sharing.waitingFor request.taskType
  let inserted := !waiting.contains request.coordinator
  let entry := (waiting.find? request.coordinator).getD
    { ticket := sharing.nextTicket % 2 ^ 64, lastAsked := now }
  { sharing with
    waiting := sharing.waiting.insert request.taskType
      (waiting.insert request.coordinator { entry with lastAsked := now })
    nextTicket := if inserted then sharing.nextTicket + 1 else sharing.nextTicket }

/-- The lambda `record` of `try_take`, without the decision it returns. -/
def record (sharing : SlotSharing) (request : SlotRequest) : SlotSharing :=
  let held := sharing.held.insert (leaseKey request.session request.leaseId)
    { coordinator := request.coordinator, taskType := request.taskType }
  match sharing.waiting.find? request.taskType with
  | none => { sharing with held := held }
  | some type =>
    let type := type.erase request.coordinator
    { sharing with
      held := held
      waiting :=
        if type.isEmpty then sharing.waiting.erase request.taskType
        else sharing.waiting.insert request.taskType type }

def othersWaiting (sharing : SlotSharing) (request : SlotRequest) : Bool :=
  (sharing.waitingFor request.taskType).entries.any fun entry => entry.1 ≠ request.coordinator

/-- `own_ticket`: the largest 64-bit value for a coordinator that does not wait. -/
def ownTicket (sharing : SlotSharing) (request : SlotRequest) : Nat :=
  match (sharing.waitingFor request.taskType).find? request.coordinator with
  | some entry => entry.ticket
  | none => 2 ^ 64 - 1

/-- `own_key`. -/
def ownKey (sharing : SlotSharing) (request : SlotRequest) : Nat ×ₗ Nat :=
  toLex (sharing.heldBy request.coordinator request.taskType, sharing.ownTicket request)

/-- The key of a waiting coordinator. -/
def waiterKey (sharing : SlotSharing) (taskType coordinator : String) (entry : Waiting) :
    Nat ×ₗ Nat :=
  toLex (sharing.heldBy coordinator taskType, entry.ticket)

/-- Whether another waiting coordinator comes before the requester. -/
def keptForAnother (sharing : SlotSharing) (request : SlotRequest) : Bool :=
  (sharing.waitingFor request.taskType).entries.any fun entry =>
    entry.1 ≠ request.coordinator ∧
      sharing.waiterKey request.taskType entry.1 entry.2 < sharing.ownKey request

/-- `local.find(task_type)`, 0 when the local build runs none. -/
def runningLocally (load : TaskTypeCounts) (taskType : String) : Nat :=
  (load.find? taskType).getD 0

/-- `running`, summed in 64 bits. -/
def running (sharing : SlotSharing) (load : TaskTypeCounts) (request : SlotRequest) : Nat :=
  (sharing.heldBy request.coordinator request.taskType +
    sharing.heldByOthers request.coordinator request.taskType +
    runningLocally load request.taskType) % 2 ^ 64

def slotsInUse (sharing : SlotSharing) (load : TaskTypeCounts) (request : SlotRequest) :
    AdmissionDecision where
  admitted := false
  code := kRejectInsufficientSlots
  message := "all " ++ toString request.declaredSlots ++ " " ++ request.taskType ++
    " slot(s) of this worker are in use (" ++
    toString (sharing.heldByOthers request.coordinator request.taskType) ++
    " by other coordinators, " ++ toString (runningLocally load request.taskType) ++
    " by this Mac's own build)"

def slotKept (request : SlotRequest) : AdmissionDecision where
  admitted := false
  code := kRejectInsufficientSlots
  message := "the free " ++ request.taskType ++
    " slot of this worker is kept for a coordinator that has been waiting for one"

/-- Nobody but the requester holds or waits for the type. -/
def uncontended (sharing : SlotSharing) (load : TaskTypeCounts) (request : SlotRequest) : Bool :=
  sharing.heldByOthers request.coordinator request.taskType = 0 ∧
    runningLocally load request.taskType = 0 ∧ !sharing.othersWaiting request

/-- The body of `try_take` after `expire_waiting`. -/
def takeUnexpired (sharing : SlotSharing) (load : TaskTypeCounts) (request : SlotRequest) (now : Int) :
    SlotSharing × AdmissionDecision :=
  if request.declaredSlots = 0 then (sharing.record request, accepted)
  else if sharing.uncontended load request then (sharing.record request, accepted)
  else if sharing.running load request ≥ request.declaredSlots then
    (sharing.wait request now, sharing.slotsInUse load request)
  else if sharing.othersWaiting request && sharing.keptForAnother request then
    (sharing.wait request now, slotKept request)
  else (sharing.record request, accepted)

/-- `load` is what `local_load_` reads, `now` the clock. -/
def tryTake (sharing : SlotSharing) (load : TaskTypeCounts) (request : SlotRequest) (now : Int) :
    SlotSharing × AdmissionDecision :=
  (sharing.expireWaiting now).takeUnexpired load request now

def release (sharing : SlotSharing) (session leaseId : String) : SlotSharing :=
  { sharing with held := sharing.held.erase (leaseKey session leaseId) }

def releaseSession (sharing : SlotSharing) (session : String) : SlotSharing :=
  { sharing with held := sharing.held.filter fun key _ => sessionOf key ≠ session }

end SlotSharing

/-! ## Waiting -/

namespace SlotSharing

/-- `coordinator` waits for `taskType` under `entry`, and the wait has not expired. -/
def WaitsAt (sharing : SlotSharing) (now : Int) (taskType coordinator : String) (entry : Waiting) :
    Prop :=
  (sharing.waitingFor taskType).find? coordinator = some entry ∧
    now - entry.lastAsked ≤ sharing.contentionWindow

@[simp] theorem heldBy_expireWaiting (sharing : SlotSharing) (now : Int) (c t : String) :
    (sharing.expireWaiting now).heldBy c t = sharing.heldBy c t := rfl

@[simp] theorem heldByOthers_expireWaiting (sharing : SlotSharing) (now : Int) (c t : String) :
    (sharing.expireWaiting now).heldByOthers c t = sharing.heldByOthers c t := rfl

@[simp] theorem waiterKey_expireWaiting (sharing : SlotSharing) (now : Int) (t c : String)
    (entry : Waiting) :
    (sharing.expireWaiting now).waiterKey t c entry = sharing.waiterKey t c entry := rfl

theorem heldOf_eq (sharing : SlotSharing) (c t : String) :
    sharing.heldOf t = sharing.heldBy c t + sharing.heldByOthers c t := by
  unfold heldOf heldBy heldByOthers
  induction sharing.held.values with
  | nil => rfl
  | cons holder rest ih =>
    simp only [List.countP_cons, ih]
    by_cases same : holder.coordinator = c <;> by_cases type : holder.taskType = t <;>
      simp [same, type] <;> omega

/-- A type without waiters reads as one that is not there. -/
theorem getD_nonempty (type : Option (OrderedMap String Waiting)) :
    (type.filter fun type => !type.isEmpty).getD .empty = type.getD .empty := by
  cases type with
  | none => rfl
  | some type =>
    rw [Option.filter_some]
    split
    · rfl
    · next empty =>
      rw [Bool.not_eq_true, Bool.not_eq_false', Lib.OrderedMap.isEmpty_iff] at empty
      exact (Lib.OrderedMap.ext_entries empty).symm

/-- The waiters left are those whose wait has not expired. -/
theorem find?_expireWaiting (sharing : SlotSharing) (now : Int) (t c : String) :
    ((sharing.expireWaiting now).waitingFor t).find? c =
      ((sharing.waitingFor t).find? c).filter fun entry =>
        ¬ now - entry.lastAsked > sharing.contentionWindow := by
  unfold waitingFor expireWaiting
  rw [Lib.OrderedMap.find?_filter, getD_nonempty, Lib.OrderedMap.find?_map]
  cases sharing.waiting.find? t with
  | none => rfl
  | some type => rw [Option.map_some, Option.getD_some, Lib.OrderedMap.find?_filter, Option.getD_some]

theorem find?_expireWaiting_eq_some {sharing : SlotSharing} {now : Int} {t c : String}
    {entry : Waiting} :
    ((sharing.expireWaiting now).waitingFor t).find? c = some entry ↔
      sharing.WaitsAt now t c entry := by
  rw [find?_expireWaiting, Option.filter_eq_some_iff, WaitsAt]
  simp

theorem mem_expireWaiting {sharing : SlotSharing} {now : Int} {t : String}
    {entry : String × Waiting} :
    entry ∈ ((sharing.expireWaiting now).waitingFor t).entries ↔
      sharing.WaitsAt now t entry.1 entry.2 := by
  rw [← find?_expireWaiting_eq_some, Lib.OrderedMap.find?_eq_some]

/-- The entry of the requester after its wait is recorded. -/
def waited (sharing : SlotSharing) (request : SlotRequest) (now : Int) : Waiting where
  ticket := (((sharing.waitingFor request.taskType).find? request.coordinator).map
    Waiting.ticket).getD (sharing.nextTicket % 2 ^ 64)
  lastAsked := now

theorem find?_wait (sharing : SlotSharing) (request : SlotRequest) (now : Int) (t c : String) :
    ((sharing.wait request now).waitingFor t).find? c =
      if t = request.taskType ∧ c = request.coordinator then some (sharing.waited request now)
      else (sharing.waitingFor t).find? c := by
  unfold wait waitingFor
  rw [Lib.OrderedMap.find?_insert]
  by_cases type : t = request.taskType
  · subst type
    rw [if_pos rfl, Option.getD_some, Lib.OrderedMap.find?_insert]
    by_cases same : c = request.coordinator
    · rw [if_pos same, if_pos ⟨rfl, same⟩, waited, waitingFor]
      cases ((sharing.waiting.find? request.taskType).getD .empty).find? request.coordinator <;> rfl
    · rw [if_neg same, if_neg fun both => same both.2]
  · rw [if_neg type, if_neg fun both => type both.1]

theorem find?_record (sharing : SlotSharing) (request : SlotRequest) (t c : String) :
    ((sharing.record request).waitingFor t).find? c =
      if t = request.taskType ∧ c = request.coordinator then none
      else (sharing.waitingFor t).find? c := by
  have erased : (sharing.record request).waitingFor t =
      if t = request.taskType then (sharing.waitingFor t).erase request.coordinator
      else sharing.waitingFor t := by
    unfold record waitingFor
    by_cases type : t = request.taskType
    · subst type
      rw [if_pos rfl]
      cases found : sharing.waiting.find? request.taskType with
      | none => exact (congrArg (Option.getD · .empty) found).trans rfl
      | some type =>
        simp only [Option.getD_some]
        split
        · next empty =>
          rw [Lib.OrderedMap.find?_erase, if_pos rfl]
          exact (Lib.OrderedMap.ext_entries (Lib.OrderedMap.isEmpty_iff.mp empty)).symm
        · rw [Lib.OrderedMap.find?_insert, if_pos rfl, Option.getD_some]
    · rw [if_neg type]
      cases sharing.waiting.find? request.taskType with
      | none => rfl
      | some kind =>
        simp only []
        split
        · rw [Lib.OrderedMap.find?_erase, if_neg type]
        · rw [Lib.OrderedMap.find?_insert, if_neg type]
  rw [erased]
  by_cases type : t = request.taskType
  · rw [if_pos type, Lib.OrderedMap.find?_erase]
    by_cases same : c = request.coordinator
    · rw [if_pos same, if_pos ⟨type, same⟩]
    · rw [if_neg same, if_neg fun both => same both.2]
  · rw [if_neg type, if_neg fun both => type both.1]

/-! ## What a request is admitted on -/

theorem othersWaiting_iff {sharing : SlotSharing} {now : Int} {request : SlotRequest} :
    (sharing.expireWaiting now).othersWaiting request = true ↔
      ∃ c entry, c ≠ request.coordinator ∧ sharing.WaitsAt now request.taskType c entry := by
  rw [othersWaiting, List.any_eq_true]
  constructor
  · rintro ⟨entry, mem, other⟩
    exact ⟨entry.1, entry.2, of_decide_eq_true other, mem_expireWaiting.mp mem⟩
  · rintro ⟨c, entry, other, waits⟩
    exact ⟨(c, entry), mem_expireWaiting.mpr waits, decide_eq_true other⟩

theorem keptForAnother_iff {sharing : SlotSharing} {now : Int} {request : SlotRequest} :
    (sharing.expireWaiting now).keptForAnother request = true ↔
      ∃ c entry, c ≠ request.coordinator ∧ sharing.WaitsAt now request.taskType c entry ∧
        sharing.waiterKey request.taskType c entry <
          (sharing.expireWaiting now).ownKey request := by
  rw [keptForAnother, List.any_eq_true]
  constructor
  · rintro ⟨entry, mem, before⟩
    obtain ⟨other, less⟩ := of_decide_eq_true before
    exact ⟨entry.1, entry.2, other, mem_expireWaiting.mp mem, less⟩
  · rintro ⟨c, entry, other, waits, less⟩
    exact ⟨(c, entry), mem_expireWaiting.mpr waits, decide_eq_true ⟨other, less⟩⟩

theorem takeUnexpired_admitted {sharing : SlotSharing} {load : TaskTypeCounts}
    {request : SlotRequest} {now : Int} :
    (sharing.takeUnexpired load request now).2.admitted = true ↔
      request.declaredSlots = 0 ∨ sharing.uncontended load request = true ∨
        (sharing.running load request < request.declaredSlots ∧
          ¬ sharing.keptForAnother request = true) := by
  have others : sharing.keptForAnother request = true → sharing.othersWaiting request = true := by
    intro kept
    obtain ⟨entry, mem, before⟩ := List.any_eq_true.mp kept
    exact List.any_eq_true.mpr ⟨entry, mem, decide_eq_true (of_decide_eq_true before).1⟩
  unfold takeUnexpired
  split
  · next none => simp [none, accepted]
  · next declares =>
    split
    · next alone => simp [alone, accepted]
    · next contended =>
      split
      · next full => simp [slotsInUse, declares, contended, Nat.not_lt.mpr full]
      · next free =>
        split
        · next kept =>
          simp [slotKept, declares, contended, (Bool.and_eq_true_iff.mp kept).2]
        · next first =>
          have unkept : ¬ sharing.keptForAnother request = true :=
            fun kept => first (Bool.and_eq_true_iff.mpr ⟨others kept, kept⟩)
          simp [accepted, unkept, Nat.not_le.mp free]

/-- An admitted request is recorded, a refused one waits. -/
theorem takeUnexpired_cases (sharing : SlotSharing) (load : TaskTypeCounts)
    (request : SlotRequest) (now : Int) :
    ((sharing.takeUnexpired load request now).2.admitted = true ∧
        (sharing.takeUnexpired load request now).1 = sharing.record request) ∨
      ((sharing.takeUnexpired load request now).2.admitted = false ∧
        (sharing.takeUnexpired load request now).1 = sharing.wait request now) := by
  unfold takeUnexpired
  split_ifs
  · exact .inl ⟨rfl, rfl⟩
  · exact .inl ⟨rfl, rfl⟩
  · exact .inr ⟨rfl, rfl⟩
  · exact .inr ⟨rfl, rfl⟩
  · exact .inl ⟨rfl, rfl⟩

@[simp] theorem contentionWindow_wait (sharing : SlotSharing) (request : SlotRequest) (now : Int) :
    (sharing.wait request now).contentionWindow = sharing.contentionWindow := rfl

@[simp] theorem contentionWindow_record (sharing : SlotSharing) (request : SlotRequest) :
    (sharing.record request).contentionWindow = sharing.contentionWindow := by
  unfold record
  split <;> rfl

theorem held_record (sharing : SlotSharing) (request : SlotRequest) :
    (sharing.record request).held = sharing.held.insert (leaseKey request.session request.leaseId)
      { coordinator := request.coordinator, taskType := request.taskType } := by
  unfold record
  split <;> rfl

/-- An admitted lease is added to those held, a refused one leaves them as they are. -/
theorem held_tryTake (sharing : SlotSharing) (load : TaskTypeCounts) (request : SlotRequest)
    (now : Int) :
    (sharing.tryTake load request now).1.held =
      if (sharing.tryTake load request now).2.admitted then
        sharing.held.insert (leaseKey request.session request.leaseId)
          { coordinator := request.coordinator, taskType := request.taskType }
      else sharing.held := by
  rw [tryTake]
  rcases (sharing.expireWaiting now).takeUnexpired_cases load request now with
    ⟨admitted, next⟩ | ⟨refused, next⟩
  · rw [admitted, next, held_record, if_pos rfl]
    rfl
  · rw [refused, next, if_neg Bool.false_ne_true]
    rfl

theorem contentionWindow_tryTake (sharing : SlotSharing) (load : TaskTypeCounts)
    (request : SlotRequest) (now : Int) :
    (sharing.tryTake load request now).1.contentionWindow = sharing.contentionWindow := by
  rw [tryTake]
  rcases (sharing.expireWaiting now).takeUnexpired_cases load request now with
    ⟨_, same⟩ | ⟨_, same⟩ <;> rw [same]
  · exact contentionWindow_record ..
  · rfl

end SlotSharing

/-! ## Runs -/

/-- A state of a run. `waits` is not in the source: it is the wait each coordinator's own
requests for a type make, whatever anyone else asks or the clock reads in between. -/
structure SlotRun where
  sharing : SlotSharing
  /-- The last reading of the clock. -/
  clock : Int
  waits : String → String → Option Waiting

namespace SlotRun

/-- `coordinator` waits for `taskType` at `now` and its wait has not expired. -/
def WaitsAt (run : SlotRun) (now : Int) (taskType coordinator : String) (entry : Waiting) : Prop :=
  run.waits taskType coordinator = some entry ∧
    now - entry.lastAsked ≤ run.sharing.contentionWindow

/-- The wait of a coordinator at `now`, none when it expired. -/
def unexpired (run : SlotRun) (now : Int) (taskType coordinator : String) : Option Waiting :=
  (run.waits taskType coordinator).filter fun entry =>
    now - entry.lastAsked ≤ run.sharing.contentionWindow

/-- The wait of a coordinator that asked at `now`: over when it was admitted, otherwise
the one it had, or a new one under the ticket `fresh`. -/
def asked (run : SlotRun) (request : SlotRequest) (now : Int) (admitted : Bool) : Option Waiting :=
  if admitted then none
  else some
    { ticket := ((run.unexpired now request.taskType request.coordinator).map
        Waiting.ticket).getD (run.sharing.nextTicket % 2 ^ 64)
      lastAsked := now }

def tryTake (run : SlotRun) (load : TaskTypeCounts) (request : SlotRequest) (now : Int) :
    SlotRun where
  sharing := (run.sharing.tryTake load request now).1
  clock := now
  waits t c :=
    if t = request.taskType ∧ c = request.coordinator then
      run.asked request now (run.sharing.tryTake load request now).2.admitted
    else run.waits t c

end SlotRun

/-- One call, with any local load; the clock never goes back. -/
inductive SlotStep : SlotRun → SlotRun → Prop
  | tryTake {run : SlotRun} {now : Int} (load : TaskTypeCounts) (request : SlotRequest) :
      run.clock ≤ now → SlotStep run (run.tryTake load request now)
  | release (run : SlotRun) (session leaseId : String) :
      SlotStep run { run with sharing := run.sharing.release session leaseId }
  | releaseSession (run : SlotRun) (session : String) :
      SlotStep run { run with sharing := run.sharing.releaseSession session }

/-- The runs of a `SlotSharing` with the given contention window. -/
def slotSystem (contentionWindow : Int) : Lib.System SlotRun where
  init run := run.sharing = .create contentionWindow ∧ run.waits = fun _ _ => none
  step := SlotStep

namespace SlotRun

/-- The waiters kept lazily are, at every later time, those the coordinators' own requests
make. -/
def Agrees (run : SlotRun) : Prop :=
  ∀ now, run.clock ≤ now → ∀ t c entry,
    run.sharing.WaitsAt now t c entry ↔ run.WaitsAt now t c entry

theorem Agrees.unexpired {run : SlotRun} (agrees : run.Agrees) {now : Int}
    (later : run.clock ≤ now) (t c : String) :
    ((run.sharing.expireWaiting now).waitingFor t).find? c = run.unexpired now t c := by
  ext entry
  rw [SlotSharing.find?_expireWaiting_eq_some, agrees now later, SlotRun.unexpired,
    Option.filter_eq_some_iff, WaitsAt, decide_eq_true_iff]

theorem Agrees.tryTake {run : SlotRun} (agrees : run.Agrees) {now : Int}
    (later : run.clock ≤ now) (load : TaskTypeCounts) (request : SlotRequest) :
    (run.tryTake load request now).Agrees := by
  intro reading after t c entry
  have window : (run.tryTake load request now).sharing.contentionWindow =
      run.sharing.contentionWindow := SlotSharing.contentionWindow_tryTake ..
  rw [SlotSharing.WaitsAt, WaitsAt, window]
  refine and_congr_left fun fresh => ?_
  have kept : ((run.sharing.expireWaiting now).waitingFor t).find? c = some entry ↔
      run.waits t c = some entry := by
    rw [SlotSharing.find?_expireWaiting_eq_some, agrees now later, WaitsAt]
    have earlier : now ≤ reading := after
    exact and_iff_left (by omega)
  have own := agrees.unexpired later request.taskType request.coordinator
  show ((((run.sharing.expireWaiting now).takeUnexpired load request now).1).waitingFor t).find? c =
    some entry ↔ (if t = request.taskType ∧ c = request.coordinator then _ else _) = some entry
  rw [show (run.sharing.tryTake load request now).2 =
    ((run.sharing.expireWaiting now).takeUnexpired load request now).2 from rfl]
  rcases (run.sharing.expireWaiting now).takeUnexpired_cases load request now with
    ⟨admitted, next⟩ | ⟨refused, next⟩
  · rw [next, SlotSharing.find?_record, admitted, asked, if_pos rfl]
    split
    · exact Iff.rfl
    · exact kept
  · rw [next, SlotSharing.find?_wait, refused, asked, if_neg Bool.false_ne_true]
    split
    · rw [SlotSharing.waited, own]
      exact Iff.rfl
    · exact kept

theorem reachable_agrees {window : Int} {run : SlotRun}
    (reachable : (slotSystem window).Reachable run) : run.Agrees := by
  refine reachable.invariant ?_ ?_
  · rintro run ⟨created, none⟩ now _ t c entry
    simp [SlotSharing.WaitsAt, WaitsAt, created, none, SlotSharing.create,
      SlotSharing.waitingFor]
  · rintro run _ _ agrees (⟨load, request, later⟩ | _ | _)
    · exact agrees.tryTake later load request
    · exact agrees
    · exact agrees

/-! ## Fairness -/

/-- The leases of a type that run here, this Mac's own included. -/
def running (run : SlotRun) (load : TaskTypeCounts) (taskType : String) : Nat :=
  run.sharing.heldOf taskType + SlotSharing.runningLocally load taskType

/-- Somebody else holds or waits for the type. -/
def Contended (run : SlotRun) (load : TaskTypeCounts) (now : Int) (taskType coordinator : String) :
    Prop :=
  (∃ key holder, (key, holder) ∈ run.sharing.held.entries ∧ holder.taskType = taskType ∧
      holder.coordinator ≠ coordinator) ∨
    0 < SlotSharing.runningLocally load taskType ∨
    ∃ c entry, c ≠ coordinator ∧ run.WaitsAt now taskType c entry

/-- `(held, ticket)`: a coordinator that does not wait counts with the last ticket. -/
def key (run : SlotRun) (now : Int) (taskType coordinator : String) : Nat ×ₗ Nat :=
  toLex (run.sharing.heldBy coordinator taskType,
    ((run.unexpired now taskType coordinator).map Waiting.ticket).getD (2 ^ 64 - 1))

/-- A waiting coordinator no other one comes before. -/
def First (run : SlotRun) (now : Int) (taskType coordinator : String) : Prop :=
  (∃ entry, run.WaitsAt now taskType coordinator entry) ∧
    ∀ c entry, run.WaitsAt now taskType c entry →
      ¬ run.key now taskType c < run.key now taskType coordinator

/-- What the requests for a type meet at `now`. -/
structure Fair (run : SlotRun) (load : TaskTypeCounts) (now : Int) (taskType : String) : Prop where
  /-- A contended request that declares slots is admitted within them and in its turn. -/
  turn : ∀ request : SlotRequest, request.taskType = taskType → 0 < request.declaredSlots →
    run.Contended load now taskType request.coordinator →
    (run.sharing.tryTake load request now).2.admitted = true →
      run.running load taskType < request.declaredSlots ∧
        ∀ c entry, c ≠ request.coordinator → run.WaitsAt now taskType c entry →
          ¬ run.key now taskType c < run.key now taskType request.coordinator
  /-- The first waiter is admitted while fewer leases run than the slots it declares. -/
  served : ∀ request : SlotRequest, request.taskType = taskType →
    run.First now taskType request.coordinator →
    run.running load taskType < request.declaredSlots →
      (run.sharing.tryTake load request now).2.admitted = true
  /-- Where anyone waits, somebody is first. -/
  unblocked : (∃ c entry, run.WaitsAt now taskType c entry) → ∃ c, run.First now taskType c
  /-- A coordinator alone is admitted. -/
  alone : ∀ request : SlotRequest, request.taskType = taskType →
    ¬ run.Contended load now taskType request.coordinator →
      (run.sharing.tryTake load request now).2.admitted = true

theorem waitsAt_iff_unexpired {run : SlotRun} {now : Int} {t c : String} {entry : Waiting} :
    run.WaitsAt now t c entry ↔ run.unexpired now t c = some entry := by
  rw [unexpired, Option.filter_eq_some_iff, WaitsAt, decide_eq_true_iff]

theorem key_waiter {run : SlotRun} {now : Int} {t c : String} {entry : Waiting} (waits : run.WaitsAt now t c entry) :
    run.sharing.waiterKey t c entry = run.key now t c := by
  rw [key, waitsAt_iff_unexpired.mp waits]
  rfl

section

variable {run : SlotRun} {now : Int} (agrees : run.Agrees) (later : run.clock ≤ now)
include agrees later

theorem key_own (request : SlotRequest) :
    (run.sharing.expireWaiting now).ownKey request =
      run.key now request.taskType request.coordinator := by
  rw [SlotSharing.ownKey, SlotSharing.ownTicket, agrees.unexpired later, key]
  cases run.unexpired now request.taskType request.coordinator <;> rfl

theorem uncontended_iff (load : TaskTypeCounts) (request : SlotRequest) :
    (run.sharing.expireWaiting now).uncontended load request = true ↔
      ¬ run.Contended load now request.taskType request.coordinator := by
  have holds : run.sharing.heldByOthers request.coordinator request.taskType = 0 ↔
      ¬ ∃ key holder, (key, holder) ∈ run.sharing.held.entries ∧
        holder.taskType = request.taskType ∧ holder.coordinator ≠ request.coordinator := by
    rw [SlotSharing.heldByOthers, List.countP_eq_zero]
    constructor
    · rintro none ⟨key, holder, mem, type, other⟩
      exact none holder (List.mem_map_of_mem mem) (decide_eq_true ⟨other, type⟩)
    · intro none holder mem held
      obtain ⟨⟨key, _⟩, entry, rfl⟩ := List.mem_map.mp mem
      obtain ⟨other, type⟩ := of_decide_eq_true held
      exact none ⟨key, _, entry, type, other⟩
  have waits : (run.sharing.expireWaiting now).othersWaiting request = true ↔
      ∃ c entry, c ≠ request.coordinator ∧ run.WaitsAt now request.taskType c entry := by
    rw [SlotSharing.othersWaiting_iff]
    simp only [agrees now later]
  rw [SlotSharing.uncontended, decide_eq_true_eq, SlotSharing.heldByOthers_expireWaiting, holds,
    Bool.not_eq_true', ← Bool.not_eq_true, waits, Contended, not_or, not_or, Nat.pos_iff_ne_zero,
    not_not]

theorem keptForAnother_iff (request : SlotRequest) :
    (run.sharing.expireWaiting now).keptForAnother request = true ↔
      ∃ c entry, c ≠ request.coordinator ∧ run.WaitsAt now request.taskType c entry ∧
        run.key now request.taskType c < run.key now request.taskType request.coordinator := by
  rw [SlotSharing.keptForAnother_iff, key_own agrees later]
  constructor
  · rintro ⟨c, entry, other, waits, less⟩
    rw [agrees now later] at waits
    exact ⟨c, entry, other, waits, key_waiter waits ▸ less⟩
  · rintro ⟨c, entry, other, waits, less⟩
    exact ⟨c, entry, other, (agrees now later ..).mpr waits, (key_waiter waits).symm ▸ less⟩

/-- What a request is admitted on. -/
theorem tryTake_admitted (load : TaskTypeCounts) (request : SlotRequest)
    (counted : run.running load request.taskType < 2 ^ 64) :
    (run.sharing.tryTake load request now).2.admitted = true ↔
      request.declaredSlots = 0 ∨
        ¬ run.Contended load now request.taskType request.coordinator ∨
        (run.running load request.taskType < request.declaredSlots ∧
          ¬ ∃ c entry, c ≠ request.coordinator ∧ run.WaitsAt now request.taskType c entry ∧
            run.key now request.taskType c <
              run.key now request.taskType request.coordinator) := by
  have count : (run.sharing.expireWaiting now).running load request =
      run.running load request.taskType := by
    rw [SlotSharing.running, SlotSharing.heldBy_expireWaiting,
      SlotSharing.heldByOthers_expireWaiting, ← SlotSharing.heldOf_eq]
    exact Nat.mod_eq_of_lt counted
  rw [SlotSharing.tryTake, SlotSharing.takeUnexpired_admitted, uncontended_iff agrees later,
    keptForAnother_iff agrees later, count]

end

/-- Among waiting coordinators some one comes first. -/
theorem exists_first {run : SlotRun} {now : Int} {t : String} (agrees : run.Agrees)
    (later : run.clock ≤ now) (waits : ∃ c entry, run.WaitsAt now t c entry) :
    ∃ c, run.First now t c := by
  classical
  let waiters := (((run.sharing.expireWaiting now).waitingFor t).entries.map Prod.fst).toFinset
  have mem : ∀ {c}, c ∈ waiters ↔ ∃ entry, run.WaitsAt now t c entry := by
    intro c
    simp only [waiters, List.mem_toFinset, List.mem_map, Prod.exists, exists_eq_right,
      SlotSharing.mem_expireWaiting, exists_and_right, agrees now later]
  obtain ⟨c, entry, some⟩ := waits
  obtain ⟨first, isWaiter, least⟩ :=
    waiters.exists_min_image (run.key now t) ⟨c, mem.mpr ⟨entry, some⟩⟩
  exact ⟨first, mem.mp isWaiter, fun other entry waits =>
    not_lt.mpr (least other (mem.mpr ⟨entry, waits⟩))⟩

end SlotRun

open SlotRun in
/-- In every run a contended request that declares slots takes one only while there is one
and no waiting coordinator comes before, the waiter that comes first takes a free slot
on asking, some waiter comes first, and a coordinator alone is never refused. -/
theorem tryTake_fair {window : Int} {run : SlotRun} (reachable : (slotSystem window).Reachable run)
    {now : Int} (later : run.clock ≤ now) (load : TaskTypeCounts) (taskType : String)
    (counted : run.running load taskType < 2 ^ 64) : run.Fair load now taskType := by
  have agrees := reachable_agrees reachable
  refine ⟨?_, ?_, exists_first agrees later, ?_⟩
  · rintro request rfl declares contended admitted
    rcases (tryTake_admitted agrees later load request counted).mp admitted with
      none | alone | ⟨free, unkept⟩
    · exact absurd none declares.ne'
    · exact absurd contended alone
    · exact ⟨free, fun c entry other waits less => unkept ⟨c, entry, other, waits, less⟩⟩
  · rintro request rfl first free
    refine (tryTake_admitted agrees later load request counted).mpr (.inr (.inr ⟨free, ?_⟩))
    rintro ⟨c, entry, _, waits, less⟩
    exact first.2 c entry waits less
  · rintro request rfl alone
    exact (tryTake_admitted agrees later load request counted).mpr (.inr (.inl alone))

/-- Coordinator `"a"` runs the only `"ocr"` lease of the worker. -/
def oneLease : SlotRun :=
  let empty : SlotRun :=
    { sharing := .create 10, clock := 0, waits := fun _ _ => none }
  empty.tryTake .empty
    { coordinator := "a", session := "s", leaseId := "1", taskType := "ocr", declaredSlots := 1 } 0

theorem oneLease_reachable : (slotSystem 10).Reachable oneLease :=
  .next (.start ⟨rfl, rfl⟩) (.tryTake .empty _ (Int.le_refl 0))

theorem oneLease_contended (load : TaskTypeCounts) (now : Int) :
    oneLease.Contended load now "ocr" "b" :=
  .inl ⟨leaseKey "s" "1", { coordinator := "a", taskType := "ocr" }, by decide, rfl, by decide⟩

/-- The coordinator that asks while the other one's lease runs waits, and is first. -/
theorem tryTake_fair_oneLease : oneLease.Fair .empty 1 "ocr" :=
  tryTake_fair oneLease_reachable (by decide) .empty "ocr" (by decide)

open SlotRun in
/-- A request that declares no slots is admitted beside the lease that runs, and so is one
that declares a single slot where the leases running here number 2^64. -/
theorem undeclared_overcommits :
    (∃ run : SlotRun, (slotSystem 10).Reachable run ∧ ∃ request : SlotRequest,
        run.Contended .empty 1 request.taskType request.coordinator ∧
        (run.sharing.tryTake .empty request 1).2.admitted = true ∧
        ¬ run.running .empty request.taskType < request.declaredSlots) ∧
      ∃ run : SlotRun, (slotSystem 10).Reachable run ∧
        ∃ (load : TaskTypeCounts) (request : SlotRequest), 0 < request.declaredSlots ∧
          run.Contended load 1 request.taskType request.coordinator ∧
          (run.sharing.tryTake load request 1).2.admitted = true ∧
          ¬ run.running load request.taskType < request.declaredSlots := by
  constructor
  · refine ⟨oneLease, oneLease_reachable,
      { coordinator := "b", session := "t", leaseId := "1", taskType := "ocr", declaredSlots := 0 },
      oneLease_contended _ _, by decide, by decide⟩
  · refine ⟨oneLease, oneLease_reachable, Lib.OrderedMap.empty.insert "ocr" (2 ^ 64 - 1),
      { coordinator := "b", session := "t", leaseId := "1", taskType := "ocr", declaredSlots := 1 },
      by decide, oneLease_contended _ _, by decide, by decide⟩

/-! ## Tickets -/

namespace SlotRun

/-- The tickets of a type's waits are below `nextTicket`, no two the same. -/
def Ticketed (run : SlotRun) : Prop :=
  run.sharing.nextTicket ≤ 2 ^ 64 → ∀ t,
    (∀ c entry, run.waits t c = some entry → entry.ticket < run.sharing.nextTicket) ∧
      ∀ c c' entry entry', run.waits t c = some entry → run.waits t c' = some entry' →
        entry.ticket = entry'.ticket → c = c'

/-- A wait after a request is one there was before, or the new one of the requester. -/
theorem waits_tryTake {run : SlotRun} (agrees : run.Agrees) {now : Int}
    (later : run.clock ≤ now) {load : TaskTypeCounts} {request : SlotRequest} {t c : String}
    {entry : Waiting} (waits : (run.tryTake load request now).waits t c = some entry) :
    (∃ old, run.waits t c = some old ∧ old.ticket = entry.ticket) ∨
      (t = request.taskType ∧ c = request.coordinator ∧
        entry.ticket = run.sharing.nextTicket % 2 ^ 64 ∧
        (run.tryTake load request now).sharing.nextTicket = run.sharing.nextTicket + 1) := by
  simp only [tryTake] at waits
  split at waits
  · next own =>
    obtain ⟨rfl, rfl⟩ := own
    have before := agrees.unexpired later request.taskType request.coordinator
    rcases (run.sharing.expireWaiting now).takeUnexpired_cases load request now with
      ⟨admitted, _⟩ | ⟨refused, next⟩
    · rw [show (run.sharing.tryTake load request now).2.admitted = true from admitted, asked,
        if_pos rfl] at waits
      cases waits
    · rw [show (run.sharing.tryTake load request now).2.admitted = false from refused, asked,
        if_neg Bool.false_ne_true] at waits
      cases found : run.unexpired now request.taskType request.coordinator with
      | some old =>
        rw [found] at waits
        cases waits
        exact .inl ⟨old, (waitsAt_iff_unexpired.mpr found).1, rfl⟩
      | none =>
        rw [found] at waits
        cases waits
        refine .inr ⟨rfl, rfl, rfl, ?_⟩
        show ((run.sharing.expireWaiting now).takeUnexpired load request now).1.nextTicket = _
        rw [next, SlotSharing.wait, Lib.OrderedMap.contains, before, found]
        rfl
  · exact .inl ⟨entry, waits, rfl⟩

theorem nextTicket_le_tryTake (run : SlotRun) (load : TaskTypeCounts) (request : SlotRequest)
    (now : Int) :
    run.sharing.nextTicket ≤ (run.tryTake load request now).sharing.nextTicket := by
  show _ ≤ ((run.sharing.expireWaiting now).takeUnexpired load request now).1.nextTicket
  rcases (run.sharing.expireWaiting now).takeUnexpired_cases load request now with
    ⟨_, next⟩ | ⟨_, next⟩ <;> rw [next]
  · rw [SlotSharing.record]
    split <;> exact Nat.le_refl _
  · rw [SlotSharing.wait]
    show run.sharing.nextTicket ≤ if _ then run.sharing.nextTicket + 1 else run.sharing.nextTicket
    split
    · exact Nat.le_succ _
    · exact Nat.le_refl _

theorem Ticketed.tryTake {run : SlotRun} (ticketed : run.Ticketed) (agrees : run.Agrees) {now : Int}
    (later : run.clock ≤ now) (load : TaskTypeCounts) (request : SlotRequest) :
    (run.tryTake load request now).Ticketed := by
  intro bound t
  have grows := nextTicket_le_tryTake run load request now
  obtain ⟨below, distinct⟩ := ticketed (grows.trans bound) t
  have fresh : ∀ {c entry}, (run.tryTake load request now).waits t c = some entry →
      (∃ old, run.waits t c = some old ∧ old.ticket = entry.ticket) ∨
        (c = request.coordinator ∧ entry.ticket = run.sharing.nextTicket ∧
          run.sharing.nextTicket < (run.tryTake load request now).sharing.nextTicket) := by
    intro c entry waits
    rcases waits_tryTake agrees later waits with old | ⟨_, own, ticket, next⟩
    · exact .inl old
    · exact .inr ⟨own, ticket.trans (Nat.mod_eq_of_lt (by omega)), by omega⟩
  constructor
  · intro c entry waits
    rcases fresh waits with ⟨old, was, same⟩ | ⟨_, ticket, next⟩
    · exact same ▸ (below c old was).trans_le grows
    · exact ticket ▸ next
  · intro c c' entry entry' waits waits' same
    rcases fresh waits with ⟨old, was, ticket⟩ | ⟨own, ticket, _⟩ <;>
      rcases fresh waits' with ⟨old', was', ticket'⟩ | ⟨own', ticket', _⟩
    · exact distinct c c' old old' was was' (ticket.trans (same.trans ticket'.symm))
    · have := below c old was
      omega
    · have := below c' old' was'
      omega
    · exact own.trans own'.symm

theorem reachable_ticketed {window : Int} {run : SlotRun}
    (reachable : (slotSystem window).Reachable run) : run.Ticketed := by
  refine reachable.invariant ?_ ?_
  · rintro run ⟨_, none⟩ _ t
    simp [none]
  · rintro run _ before ticketed (⟨load, request, later⟩ | _ | _)
    · exact ticketed.tryTake (reachable_agrees before) later load request
    · exact ticketed
    · exact ticketed

/-- In a run that issued no more than 2^64 tickets one waiter is first, and no other. -/
theorem first_unique {window : Int} {run : SlotRun}
    (reachable : (slotSystem window).Reachable run) (issued : run.sharing.nextTicket ≤ 2 ^ 64)
    {now : Int} {t c c' : String} (first : run.First now t c) (first' : run.First now t c') :
    c = c' := by
  obtain ⟨⟨entry, waits⟩, least⟩ := first
  obtain ⟨⟨entry', waits'⟩, least'⟩ := first'
  have same : run.key now t c = run.key now t c' :=
    le_antisymm (not_lt.mp (least c' entry' waits')) (not_lt.mp (least' c entry waits))
  rw [← key_waiter waits, ← key_waiter waits'] at same
  have tickets : entry.ticket = entry'.ticket := congrArg (fun key => (ofLex key).2) same
  exact (reachable_ticketed reachable issued t).2 c c' entry entry' waits.1 waits'.1 tickets

end SlotRun

end Svp.Worker

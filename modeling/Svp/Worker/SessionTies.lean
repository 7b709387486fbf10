import Svp.Worker.AgentSession

/-!
# The lease table, the ledger and the slots of a session

`Ties` is the invariant of an agent session: which of the three holds a lease, given where
the input thread and the relay thread are. Each lemma of the namespace `Ties` is about one
step of one thread; `tied_step` collects them.
-/

namespace Svp.Worker

open Lib (OrderedMap)
open Exec (LeasedAssignment)

/-- The session has not ended: `run` has not returned. -/
def Input.Running (input : Input) : Prop := ∀ stage, input ≠ .ended stage

/-- The relay thread is releasing the lease. -/
def Relay.Releases (relay : Relay) (leaseId : String) : Prop :=
  ∃ stage key, relay = .releasing stage key leaseId

/-- How the lease table (`listed`), the ledger (`memory`) and the slots (`slot`) agree,
given where the two threads are. -/
structure Ties (input : Input) (relay : Relay) (listed : AttemptKey → Option String)
    (memory slot : String → Bool) (assigned : List LeasedAssignment) : Prop where
  /-- The lease being assigned is new to the table and to the relay thread. -/
  fresh : ∀ stage a, input = .assigning stage a →
    (∀ key, listed key ≠ some (leaseIdOf a)) ∧ ¬ relay.Releases (leaseIdOf a)
  current : ∀ stage a, input = .assigning stage a → a ∈ assigned
  taking : ∀ a, input = .assigning .admitting a → slot (leaseIdOf a) = true
  entered : ∀ a, input = .assigning .listing a →
    memory (leaseIdOf a) = true ∧ slot (leaseIdOf a) = true
  listedMemory : ∀ key leaseId, input.Running → listed key = some leaseId →
    memory leaseId = true ∨ input = .cancelling .slot leaseId ∨ input = .cancelling .table leaseId
  listedSlot : ∀ key leaseId, input.Running → listed key = some leaseId →
    slot leaseId = true ∨ input = .cancelling .table leaseId
  memoryListed : ∀ leaseId, input.Running → memory leaseId = true →
    (∃ key, listed key = some leaseId) ∨
      (∃ a, leaseIdOf a = leaseId ∧ input = .assigning .listing a) ∨
      ∃ key, relay = .releasing .memory key leaseId
  slotListed : ∀ leaseId, input.Running → slot leaseId = true →
    (∃ key, listed key = some leaseId) ∨
      (∃ stage a, leaseIdOf a = leaseId ∧ stage ≠ .taking ∧ input = .assigning stage a) ∨
      relay.Releases leaseId
  cancelledMemory : ∀ leaseId, input = .cancelling .slot leaseId ∨
    input = .cancelling .table leaseId → memory leaseId = false
  cancelledSlot : ∀ leaseId, input = .cancelling .table leaseId → slot leaseId = false
  unique : ∀ key key' leaseId, listed key = some leaseId → listed key' = some leaseId → key = key'
  claimed : ∀ leaseId, relay.Releases leaseId → ∀ key, listed key ≠ some leaseId
  named : ∀ key leaseId, listed key = some leaseId →
    leaseId ≠ "" ∧ ∃ a ∈ assigned, leaseIdOf a = leaseId ∧ keyOf a = key
  claimNamed : ∀ stage key leaseId, relay = .releasing stage key leaseId →
    ∃ a ∈ assigned, leaseIdOf a = leaseId ∧ keyOf a = key
  memoryReleased : input = .ended .memoryReleased → ∀ leaseId, memory leaseId = false
  finished : input = .ended .finished → ∀ leaseId, memory leaseId = false ∧ slot leaseId = false

/-- The invariant of a state. -/
def SessionState.Tied (s : SessionState) (config : SessionConfig) : Prop :=
  Ties s.input s.relay s.leases.find? (s.holdsMemory config) (s.holdsSlot config) s.assigned

namespace Ties

variable {input : Input} {relay : Relay} {listed : AttemptKey → Option String}
  {memory slot : String → Bool} {assigned : List LeasedAssignment}
  (ties : Ties input relay listed memory slot assigned)
include ties

theorem goto_reading (waits : input = .reading ∨ input = .rejecting) :
    Ties .reading relay listed memory slot assigned := by
  cases ties
  constructor <;> grind [Input.Running, Relay.Releases]

theorem leave : Ties (.ended .left) relay listed memory slot assigned := by
  cases ties
  constructor <;> grind [Input.Running, Relay.Releases]

theorem receive (reads : input = .reading) {a : LeasedAssignment}
    (new : ∀ earlier ∈ assigned, leaseIdOf earlier ≠ leaseIdOf a) {relay' : Relay}
    (same : ∀ stage key leaseId, relay' = .releasing stage key leaseId ↔
      relay = .releasing stage key leaseId) :
    Ties (.assigning .taking a) relay' listed memory slot (a :: assigned) := by
  cases ties
  constructor <;> grind [Input.Running, Relay.Releases]

theorem rejected {a : LeasedAssignment} (takes : input = .assigning .taking a) :
    Ties .rejecting relay listed memory slot assigned := by
  cases ties
  constructor <;> grind [Input.Running, Relay.Releases]

theorem taken {a : LeasedAssignment} (takes : input = .assigning .taking a) :
    Ties (.assigning .admitting a) relay listed memory
      (fun leaseId => decide (leaseId = leaseIdOf a) || slot leaseId) assigned := by
  cases ties
  constructor <;> grind [Input.Running, Relay.Releases]

theorem refused {a : LeasedAssignment} (admits : input = .assigning .admitting a) :
    Ties (.assigning .refusing a) relay listed memory slot assigned := by
  cases ties
  constructor <;> grind [Input.Running, Relay.Releases]

theorem admitted {a : LeasedAssignment} (admits : input = .assigning .admitting a) :
    Ties (.assigning .listing a) relay listed
      (fun leaseId => decide (leaseId = leaseIdOf a) || memory leaseId) slot assigned := by
  cases ties
  constructor <;> grind [Input.Running, Relay.Releases]

theorem refuse {a : LeasedAssignment} (refuses : input = .assigning .refusing a) :
    Ties .rejecting relay listed memory
      (fun leaseId => decide (leaseId ≠ leaseIdOf a) && slot leaseId) assigned := by
  cases ties
  constructor <;> grind [Input.Running, Relay.Releases]

theorem enter {a : LeasedAssignment} (enters : input = .assigning .listing a)
    (identified : leaseIdOf a ≠ "") (unlisted : listed (keyOf a) = none) :
    Ties .reading relay (fun key => if key = keyOf a then some (leaseIdOf a) else listed key) memory
      slot assigned := by
  cases ties
  constructor <;> grind [Input.Running, Relay.Releases]

theorem cancel (reads : input = .reading) (leaseId : String) :
    Ties (.cancelling .memory leaseId) relay listed memory slot assigned := by
  cases ties
  constructor <;> grind [Input.Running, Relay.Releases]

theorem cancelMemory {cancelled : String} (cancels : input = .cancelling .memory cancelled) :
    Ties (.cancelling .slot cancelled) relay listed
      (fun leaseId => decide (leaseId ≠ cancelled) && memory leaseId) slot assigned := by
  cases ties
  constructor <;> grind [Input.Running, Relay.Releases]

theorem cancelSlot {cancelled : String} (cancels : input = .cancelling .slot cancelled) :
    Ties (.cancelling .table cancelled) relay listed memory
      (fun leaseId => decide (leaseId ≠ cancelled) && slot leaseId) assigned := by
  cases ties
  constructor <;> grind [Input.Running, Relay.Releases]

theorem cancelTable {cancelled : String} (cancels : input = .cancelling .table cancelled)
    {left : AttemptKey → Option String} (unlists : ∀ key leaseId,
      left key = some leaseId ↔ listed key = some leaseId ∧ leaseId ≠ cancelled) :
    Ties .reading relay left memory slot assigned := by
  -- What is still held was not cancelled, so the table keeps it.
  have memoryLeft : ∀ key leaseId, listed key = some leaseId → memory leaseId = true →
      left key = some leaseId := by
    intro key leaseId found held
    refine (unlists key leaseId).mpr ⟨found, fun same => ?_⟩
    have gone := ties.cancelledMemory cancelled (.inr cancels)
    rw [← same, held] at gone
    cases gone
  have slotLeft : ∀ key leaseId, listed key = some leaseId → slot leaseId = true →
      left key = some leaseId := by
    intro key leaseId found held
    refine (unlists key leaseId).mpr ⟨found, fun same => ?_⟩
    have gone := ties.cancelledSlot cancelled cancels
    rw [← same, held] at gone
    cases gone
  have kept : ∀ key leaseId, left key = some leaseId →
      listed key = some leaseId ∧ leaseId ≠ cancelled :=
    fun key leaseId => (unlists key leaseId).mp
  clear unlists
  cases ties
  constructor <;> grind [Input.Running, Relay.Releases]

theorem claim {key : AttemptKey} {leaseId : String} (reads : relay = .reading)
    (found : listed key = some leaseId) {left : AttemptKey → Option String}
    (erases : ∀ key', left key' = if key' = key then none else listed key') :
    Ties input (.releasing .memory key leaseId) left memory slot assigned := by
  -- Every lease but the claimed one keeps its entry.
  have kept : ∀ key' held, listed key' = some held → left key' = some held ∨ held = leaseId := by
    intro key' held entry
    rw [erases]
    split
    · next same =>
      rw [same, found] at entry
      exact .inr (Option.some.inj entry).symm
    · exact .inl entry
  have before : ∀ key' held, left key' = some held → listed key' = some held ∧ key' ≠ key := by
    intro key' held entry
    rw [erases] at entry
    split at entry
    · cases entry
    · next other => exact ⟨entry, other⟩
  clear erases
  constructor
  case memoryListed =>
    intro held running holds
    rcases ties.memoryListed held running holds with ⟨key', entry⟩ | listing | ⟨key', claiming⟩
    · rcases kept key' held entry with entry | rfl
      · exact .inl ⟨key', entry⟩
      · exact .inr (.inr ⟨key, rfl⟩)
    · exact .inr (.inl listing)
    · rw [reads] at claiming
      cases claiming
  all_goals
    cases ties
    grind [Input.Running, Relay.Releases]

theorem claimMemory {key : AttemptKey} {claimed : String}
    (claims : relay = .releasing .memory key claimed) :
    Ties input (.releasing .slot key claimed) listed
      (fun leaseId => decide (leaseId ≠ claimed) && memory leaseId) slot assigned := by
  cases ties
  constructor <;> grind [Input.Running, Relay.Releases]

theorem claimSlot {key : AttemptKey} {claimed : String}
    (claims : relay = .releasing .slot key claimed) :
    Ties input .reading listed memory
      (fun leaseId => decide (leaseId ≠ claimed) && slot leaseId) assigned := by
  cases ties
  constructor <;> grind [Input.Running, Relay.Releases]

theorem relayEnds (reads : relay = .reading) :
    Ties input .finished listed memory slot assigned := by
  cases ties
  constructor <;> grind [Input.Running, Relay.Releases]

theorem finishMemory {left : String → Bool}
    (gone : ∀ leaseId, left leaseId = false) :
    Ties (.ended .memoryReleased) relay listed left slot assigned := by
  cases ties
  constructor <;> grind [Input.Running, Relay.Releases]

theorem finishSlots (leaves : input = .ended .memoryReleased) {left : String → Bool}
    (gone : ∀ leaseId, left leaseId = false) :
    Ties (.ended .finished) relay listed memory left assigned := by
  cases ties
  constructor <;> grind [Input.Running, Relay.Releases]

end Ties

/-- A state with another table, ledger or slots that hold the same is tied as well. -/
theorem SessionState.tied_of_eq {s : SessionState} {config : SessionConfig} {input : Input}
    {relay : Relay} {listed : AttemptKey → Option String} {memory slot : String → Bool}
    {assigned : List LeasedAssignment} (ties : Ties input relay listed memory slot assigned)
    (sameInput : s.input = input) (sameRelay : s.relay = relay)
    (sameListed : ∀ key, s.leases.find? key = listed key)
    (sameMemory : ∀ leaseId, s.holdsMemory config leaseId = memory leaseId)
    (sameSlot : ∀ leaseId, s.holdsSlot config leaseId = slot leaseId)
    (sameAssigned : s.assigned = assigned) : s.Tied config := by
  rw [Tied, sameInput, sameRelay, funext sameListed, funext sameMemory, funext sameSlot,
    sameAssigned]
  exact ties

namespace SessionState.Tied

variable {s : SessionState} {config : SessionConfig} (tied : s.Tied config)
include tied

theorem receive {a : LeasedAssignment} (reads : s.input = .reading)
    (new : ∀ earlier ∈ s.assigned, leaseIdOf earlier ≠ leaseIdOf a) : (s.receive a).Tied config := by
  refine tied_of_eq (Ties.receive tied reads new ?_) rfl rfl (fun _ => rfl) (fun _ => rfl)
    (fun _ => rfl) rfl
  intro stage key leaseId
  unfold SessionState.receive
  cases relay : s.relay <;> simp

theorem take {a : LeasedAssignment} (takes : s.input = .assigning .taking a)
    (load : TaskTypeCounts) (now : Int) : (s.take config a load now).Tied config := by
  have slots := s.holdsSlot_take config a load now
  cases admitted : (s.slots.tryTake load (config.slotRequest a) now).2.admitted with
  | true =>
    have same : s.take config a load now =
        { s with
          slots := (s.slots.tryTake load (config.slotRequest a) now).1
          input := .assigning .admitting a }.note (leaseIdOf a) fun account =>
          { account with taken := account.taken + 1 } := by
      rw [SessionState.take, admitted, if_pos rfl]
    rw [admitted] at slots
    rw [same] at slots ⊢
    exact tied_of_eq (Ties.taken tied takes) rfl rfl (fun _ => rfl) (fun _ => rfl) slots rfl
  | false =>
    have same : s.take config a load now =
        { s with
          slots := (s.slots.tryTake load (config.slotRequest a) now).1
          input := .rejecting } := by
      rw [SessionState.take, admitted, if_neg Bool.false_ne_true]
    rw [admitted] at slots
    rw [same] at slots ⊢
    exact tied_of_eq (Ties.rejected tied takes) rfl rfl (fun _ => rfl) (fun _ => rfl) slots rfl

theorem admitLease {a : LeasedAssignment} (admits : s.input = .assigning .admitting a)
    (memory : MemorySnapshot) (inUse : SessionInUse) (now : Int) :
    (s.admitLease config a memory inUse now).Tied config := by
  have kept := s.holdsMemory_admitLease config a memory inUse now
  cases admitted : (s.ledger.tryAdmit (config.leaseAdmission a) memory inUse now).2.admitted with
  | true =>
    have same : s.admitLease config a memory inUse now =
        { s with
          ledger := (s.ledger.tryAdmit (config.leaseAdmission a) memory inUse now).1
          input := .assigning .listing a }.note (leaseIdOf a) fun account =>
          { account with admitted := account.admitted + 1 } := by
      rw [SessionState.admitLease, admitted, if_pos rfl]
    rw [admitted] at kept
    rw [same] at kept ⊢
    exact tied_of_eq (Ties.admitted tied admits) rfl rfl (fun _ => rfl) kept (fun _ => rfl) rfl
  | false =>
    have same : s.admitLease config a memory inUse now =
        { s with
          ledger := (s.ledger.tryAdmit (config.leaseAdmission a) memory inUse now).1
          input := .assigning .refusing a } := by
      rw [SessionState.admitLease, admitted, if_neg Bool.false_ne_true]
    rw [admitted] at kept
    rw [same] at kept ⊢
    exact tied_of_eq (Ties.refused tied admits) rfl rfl (fun _ => rfl) kept (fun _ => rfl) rfl

end SessionState.Tied

theorem tied_init {config : SessionConfig} {allowed : SessionState → LeasedAssignment → Prop}
    {s : SessionState} (init : (sessionSystem config allowed).init s) : s.Tied config := by
  obtain ⟨memory, slot, empty, reads, absent, unassigned, _⟩ := init
  rw [SessionState.Tied, reads, absent, empty, unassigned, funext memory, funext slot]
  constructor <;> simp [Relay.Releases]

/-- No lease of the same task and attempt is in the table. -/
def Unrepeated (s : SessionState) (assignment : LeasedAssignment) : Prop :=
  s.leases.find? (keyOf assignment) = none

theorem tied_step {config : SessionConfig} {s t : SessionState} (tied : s.Tied config)
    (identified : ∀ a ∈ s.assigned, leaseIdOf a ≠ "")
    (step : SessionStep config Unrepeated s t) : t.Tied config := by
  cases step with
  | next waits => exact Ties.goto_reading tied waits
  | leave _ => exact Ties.leave tied
  | receive reads _ new => exact SessionState.Tied.receive tied reads new
  | take load now takes => exact SessionState.Tied.take tied takes load now
  | admitLease memory inUse now admits =>
    exact SessionState.Tied.admitLease tied admits memory inUse now
  | @refuse a refuses =>
    obtain ⟨accounts, same⟩ := s.releaseSlot_eq config (leaseIdOf a) .refusal
    rw [same]
    exact SessionState.tied_of_eq (Ties.refuse tied refuses) rfl rfl (fun _ => rfl) (fun _ => rfl)
      (s.contains_releaseSlot config _) rfl
  | @enter a enters unrepeated =>
    refine SessionState.tied_of_eq (Ties.enter tied enters ?_ unrepeated) rfl rfl ?_ (fun _ => rfl)
      (fun _ => rfl) rfl
    · exact identified a (tied.current _ a enters)
    · exact fun key => OrderedMap.find?_insert ..
  | cancel leaseId reads => exact Ties.cancel tied reads leaseId
  | @cancelMemory leaseId cancels =>
    obtain ⟨accounts, same⟩ := s.releaseMemory_eq config leaseId .cancel
    rw [same]
    exact SessionState.tied_of_eq (Ties.cancelMemory tied cancels) rfl rfl (fun _ => rfl)
      (s.contains_releaseMemory config _) (fun _ => rfl) rfl
  | @cancelSlot leaseId cancels =>
    obtain ⟨accounts, same⟩ := s.releaseSlot_eq config leaseId .cancel
    rw [same]
    exact SessionState.tied_of_eq (Ties.cancelSlot tied cancels) rfl rfl (fun _ => rfl)
      (fun _ => rfl) (s.contains_releaseSlot config _) rfl
  | @cancelTable leaseId cancels =>
    refine SessionState.tied_of_eq (Ties.cancelTable tied cancels fun key listed => ?_) rfl rfl
      (fun _ => rfl) (fun _ => rfl) (fun _ => rfl) rfl
    show (OrderedMap.filter s.leases fun _ listed => listed ≠ leaseId).find? key = _ ↔ _
    rw [OrderedMap.find?_filter, Option.filter_eq_some_iff, decide_eq_true_iff]
  | finishMemory _ _ =>
    exact SessionState.tied_of_eq (Ties.finishMemory tied (s.holdsMemory_finishMemory config))
      rfl rfl (fun _ => rfl) (fun _ => rfl) (fun _ => rfl) rfl
  | finishSlots leaves =>
    exact SessionState.tied_of_eq (Ties.finishSlots tied leaves (s.holdsSlot_finishSlots config))
      rfl rfl (fun _ => rfl) (fun _ => rfl) (fun _ => rfl) rfl
  | claim key reads =>
    rw [SessionState.claim]
    cases found : s.leases.find? key with
    | none => exact tied
    | some leaseId =>
      refine SessionState.tied_of_eq (Ties.claim tied reads found fun key' => ?_) rfl ?_
        (fun _ => rfl) (fun _ => rfl) (fun _ => rfl) rfl
      · exact OrderedMap.find?_erase ..
      · exact if_neg (tied.named key leaseId found).1
  | @claimMemory key leaseId claims =>
    obtain ⟨accounts, same⟩ := s.releaseMemory_eq config leaseId (.result key)
    rw [same]
    exact SessionState.tied_of_eq (Ties.claimMemory tied claims) rfl rfl (fun _ => rfl)
      (s.contains_releaseMemory config _) (fun _ => rfl) rfl
  | @claimSlot key leaseId claims =>
    obtain ⟨accounts, same⟩ := s.releaseSlot_eq config leaseId (.result key)
    rw [same]
    exact SessionState.tied_of_eq (Ties.claimSlot tied claims) rfl rfl (fun _ => rfl)
      (fun _ => rfl) (s.contains_releaseSlot config _) rfl
  | relayEnds reads => exact Ties.relayEnds tied reads
  | shared call other =>
    refine SessionState.tied_of_eq tied ?_ ?_ ?_ (call.holdsMemory_apply other s)
      (call.holdsSlot_apply other s) ?_
    all_goals cases call <;> first | rfl | exact fun _ => rfl

end Svp.Worker

import Svp.Worker.SessionTies

/-!
# The accounts of an agent session

1. `Booked`: of each lease at most one slot and one admission is ever taken, and what was
   taken has been released once or is still held; every RESULT a lease was released on
   named its task and attempt.
2. `session_accounts`: at rest the lease table, the ledger and the slots name the same
   leases, and a finished session holds nothing in the ledger and the slots.
   `session_leftovers`: its table keeps what was never answered, and a table entry that is
   written twice loses the first lease.
-/

namespace Svp.Worker

open Lib (OrderedMap)
open Exec (LeasedAssignment)

/-- Nothing changes where a lease that is not held is released. -/
theorem without_absent {holds : String → Bool} {leaseId : String} (absent : ¬ holds leaseId = true) :
    (fun other => decide (other ≠ leaseId) && holds other) = holds := by
  funext other
  by_cases own : other = leaseId
  · rw [own, Bool.eq_false_iff.mpr absent, Bool.and_false]
  · rw [decide_eq_true own, Bool.true_and]

/-- What was done with one lease: `memory` and `slot` tell whether it is held. -/
structure Account.Balanced (account : Account) (memory slot : Bool) : Prop where
  slots : account.taken = account.slotReleases.length + slot.toNat
  memory : account.admitted = account.memoryReleases.length + memory.toNat
  once : account.taken ≤ 1 ∧ account.admitted ≤ 1

/-- Every RESULT a lease was released on named its task and attempt. -/
def Account.Caused (account : Account) (leaseId : String) (assigned : List LeasedAssignment) :
    Prop :=
  ∀ key, .result key ∈ account.slotReleases ∨ .result key ∈ account.memoryReleases →
    ∃ a ∈ assigned, leaseIdOf a = leaseId ∧ keyOf a = key

/-- Balanced accounts, and none before a lease is taken or admitted. -/
structure Books (input : Input) (memory slot : String → Bool) (assigned : List LeasedAssignment)
    (accounts : String → Account) : Prop where
  balanced : ∀ leaseId, (accounts leaseId).Balanced (memory leaseId) (slot leaseId)
  caused : ∀ leaseId, (accounts leaseId).Caused leaseId assigned
  unassigned : ∀ leaseId, (∀ a ∈ assigned, leaseIdOf a ≠ leaseId) →
    (accounts leaseId).taken = 0 ∧ (accounts leaseId).admitted = 0
  untaken : ∀ a, input = .assigning .taking a → (accounts (leaseIdOf a)).taken = 0 ∧
    (accounts (leaseIdOf a)).admitted = 0
  unadmitted : ∀ a, input = .assigning .admitting a → (accounts (leaseIdOf a)).admitted = 0

def SessionState.Booked (s : SessionState) (config : SessionConfig) : Prop :=
  Books s.input (s.holdsMemory config) (s.holdsSlot config) s.assigned s.accounts

namespace Books

variable {input : Input} {memory slot : String → Bool} {assigned : List LeasedAssignment}
  {accounts : String → Account} (books : Books input memory slot assigned accounts)
include books

/-- Where nothing is taken or released the books stay right. -/
theorem goto {input' : Input} (taking : ∀ a, input' ≠ .assigning .taking a)
    (admitting : ∀ a, input' ≠ .assigning .admitting a) :
    Books input' memory slot assigned accounts :=
  ⟨books.balanced, books.caused, books.unassigned, fun a same => absurd same (taking a),
    fun a same => absurd same (admitting a)⟩

theorem receive {a : LeasedAssignment} (new : ∀ earlier ∈ assigned, leaseIdOf earlier ≠ leaseIdOf a) :
    Books (.assigning .taking a) memory slot (a :: assigned) accounts := by
  refine ⟨books.balanced, fun leaseId key released => ?_, fun leaseId absent => ?_,
    fun b same => ?_, fun b same => absurd same (by simp)⟩
  · obtain ⟨b, mem, named⟩ := books.caused leaseId key released
    exact ⟨b, List.mem_cons_of_mem _ mem, named⟩
  · exact books.unassigned leaseId fun b mem => absent b (List.mem_cons_of_mem _ mem)
  · cases same
    exact books.unassigned _ new

/-- The account of one lease changes with what is held of it. -/
theorem amend {input' : Input} {memory' slot' : String → Bool} {leaseId : String}
    {account : Account}
    (others : ∀ other, other ≠ leaseId → memory' other = memory other ∧ slot' other = slot other)
    (balanced : account.Balanced (memory' leaseId) (slot' leaseId))
    (caused : account.Caused leaseId assigned)
    (unassigned : (∀ a ∈ assigned, leaseIdOf a ≠ leaseId) → account.taken = 0 ∧
      account.admitted = 0)
    (untaken : ∀ a, input' = .assigning .taking a → input = .assigning .taking a ∧
      (leaseIdOf a = leaseId → account.taken = 0 ∧ account.admitted = 0))
    (unadmitted : ∀ a, input' = .assigning .admitting a →
      (input = .assigning .taking a ∨ input = .assigning .admitting a) ∧
        (leaseIdOf a = leaseId → account.admitted = 0)) :
    Books input' memory' slot' assigned (Function.update accounts leaseId account) := by
  refine ⟨fun other => ?_, fun other => ?_, fun other absent => ?_, fun a same => ?_,
    fun a same => ?_⟩
  · by_cases own : other = leaseId
    · rw [own, Function.update_self]
      exact balanced
    · rw [Function.update_of_ne own, (others other own).1, (others other own).2]
      exact books.balanced other
  · by_cases own : other = leaseId
    · rw [own, Function.update_self]
      exact caused
    · rw [Function.update_of_ne own]
      exact books.caused other
  · by_cases own : other = leaseId
    · rw [own, Function.update_self]
      exact unassigned (own ▸ absent)
    · rw [Function.update_of_ne own]
      exact books.unassigned other absent
  · obtain ⟨before, zero⟩ := untaken a same
    by_cases own : leaseIdOf a = leaseId
    · rw [own, Function.update_self]
      exact zero own
    · rw [Function.update_of_ne own]
      exact books.untaken a before
  · obtain ⟨before, zero⟩ := unadmitted a same
    by_cases own : leaseIdOf a = leaseId
    · rw [own, Function.update_self]
      exact zero own
    · rw [Function.update_of_ne own]
      rcases before with taking | admitting
      · exact (books.untaken a taking).2
      · exact books.unadmitted a admitting

theorem take {a : LeasedAssignment} (takes : input = .assigning .taking a) (current : a ∈ assigned) :
    Books (.assigning .admitting a) memory
      (fun leaseId => decide (leaseId = leaseIdOf a) || slot leaseId) assigned
      (Function.update accounts (leaseIdOf a)
        { accounts (leaseIdOf a) with taken := (accounts (leaseIdOf a)).taken + 1 }) := by
  have none := books.untaken a takes
  obtain ⟨slots, admitted, -⟩ := books.balanced (leaseIdOf a)
  have held : (accounts (leaseIdOf a)).slotReleases.length = 0 := by
    rw [none.1] at slots
    exact (Nat.add_eq_zero_iff.mp slots.symm).1
  refine books.amend (fun other differs => ?_) ?_ (books.caused _) ?_ ?_ ?_
  · exact ⟨rfl, by rw [decide_eq_false differs, Bool.false_or]⟩
  · rw [decide_eq_true rfl, Bool.true_or]
    refine ⟨?_, admitted, ?_, ?_⟩
    · simp only [none.1, held, Bool.toNat_true]
    · simp only [none.1, zero_add, le_refl]
    · exact none.2.le.trans zero_le_one
  · exact fun absent => absurd rfl (absent a current)
  · exact fun b same => absurd same (by simp)
  · intro b same
    cases same
    exact ⟨.inl takes, fun _ => none.2⟩

theorem admitLease {a : LeasedAssignment} (admits : input = .assigning .admitting a)
    (current : a ∈ assigned) :
    Books (.assigning .listing a) (fun leaseId => decide (leaseId = leaseIdOf a) || memory leaseId)
      slot assigned
      (Function.update accounts (leaseIdOf a)
        { accounts (leaseIdOf a) with admitted := (accounts (leaseIdOf a)).admitted + 1 }) := by
  have none := books.unadmitted a admits
  obtain ⟨slots, admitted, once⟩ := books.balanced (leaseIdOf a)
  have held : (accounts (leaseIdOf a)).memoryReleases.length = 0 := by
    rw [none] at admitted
    exact (Nat.add_eq_zero_iff.mp admitted.symm).1
  refine books.amend (fun other differs => ?_) ?_ (books.caused _) ?_ ?_ ?_
  · exact ⟨by rw [decide_eq_false differs, Bool.false_or], rfl⟩
  · rw [decide_eq_true rfl, Bool.true_or]
    refine ⟨slots, ?_, once.1, ?_⟩
    · simp only [none, held, Bool.toNat_true]
    · simp only [none, zero_add, le_refl]
  · exact fun absent => absurd rfl (absent a current)
  · exact fun b same => absurd same (by simp)
  · exact fun b same => absurd same (by simp)

/-- A release of the slot of a lease, noted when the slot was held. -/
theorem releaseSlot {leaseId : String} {cause : Cause}
    (caused : ∀ key, cause = .result key → ∃ a ∈ assigned, leaseIdOf a = leaseId ∧ keyOf a = key)
    (held : slot leaseId = true) :
    Books input memory (fun other => decide (other ≠ leaseId) && slot other) assigned
      (Function.update accounts leaseId
        { accounts leaseId with slotReleases := cause :: (accounts leaseId).slotReleases }) := by
  obtain ⟨slots, admitted, once⟩ := books.balanced leaseId
  refine books.amend (fun other differs => ?_) ⟨?_, admitted, once⟩ (fun key released => ?_)
    (books.unassigned leaseId) (fun a same => ⟨same, fun own => own ▸ books.untaken a same⟩)
    (fun a same => ⟨.inr same, fun own => own ▸ books.unadmitted a same⟩)
  · exact ⟨rfl, by rw [decide_eq_true differs, Bool.true_and]⟩
  · rw [decide_eq_false (not_not.mpr rfl), Bool.false_and]
    rw [held] at slots
    exact slots
  · rcases released with released | released
    · rcases List.mem_cons.mp released with same | released
      · exact caused key same.symm
      · exact books.caused leaseId key (.inl released)
    · exact books.caused leaseId key (.inr released)

theorem releaseMemory {leaseId : String} {cause : Cause}
    (caused : ∀ key, cause = .result key → ∃ a ∈ assigned, leaseIdOf a = leaseId ∧ keyOf a = key)
    (held : memory leaseId = true) :
    Books input (fun other => decide (other ≠ leaseId) && memory other) slot assigned
      (Function.update accounts leaseId
        { accounts leaseId with memoryReleases := cause :: (accounts leaseId).memoryReleases }) := by
  obtain ⟨slots, admitted, once⟩ := books.balanced leaseId
  refine books.amend (fun other differs => ?_) ⟨slots, ?_, once⟩ (fun key released => ?_)
    (books.unassigned leaseId) (fun a same => ⟨same, fun own => own ▸ books.untaken a same⟩)
    (fun a same => ⟨.inr same, fun own => own ▸ books.unadmitted a same⟩)
  · exact ⟨by rw [decide_eq_true differs, Bool.true_and], rfl⟩
  · rw [decide_eq_false (not_not.mpr rfl), Bool.false_and]
    rw [held] at admitted
    exact admitted
  · rcases released with released | released
    · exact books.caused leaseId key (.inl released)
    · rcases List.mem_cons.mp released with same | released
      · exact caused key same.symm
      · exact books.caused leaseId key (.inr released)

/-- At the end of a session releases are noted for all leases at once, and none of them
names a RESULT. -/
theorem finish {input' : Input} {memory' slot' : String → Bool} {accounts' : String → Account}
    (ended : ∃ stage, input' = .ended stage)
    (balanced : ∀ leaseId, (accounts' leaseId).Balanced (memory' leaseId) (slot' leaseId))
    (caused : ∀ leaseId key,
      .result key ∈ (accounts' leaseId).slotReleases ∨
        .result key ∈ (accounts' leaseId).memoryReleases →
      .result key ∈ (accounts leaseId).slotReleases ∨
        .result key ∈ (accounts leaseId).memoryReleases)
    (counts : ∀ leaseId, (accounts' leaseId).taken = (accounts leaseId).taken ∧
      (accounts' leaseId).admitted = (accounts leaseId).admitted) :
    Books input' memory' slot' assigned accounts' := by
  obtain ⟨stage, rfl⟩ := ended
  refine ⟨balanced, fun leaseId key released => ?_, fun leaseId absent => ?_, nofun, nofun⟩
  · exact books.caused leaseId key (caused leaseId key released)
  · rw [(counts leaseId).1, (counts leaseId).2]
    exact books.unassigned leaseId absent

end Books

namespace SessionState.Booked

variable {s : SessionState} {config : SessionConfig} (booked : s.Booked config)
include booked

theorem releaseSlot (leaseId : String) (cause : Cause) (caused : ∀ key, cause = .result key →
    ∃ a ∈ s.assigned, leaseIdOf a = leaseId ∧ keyOf a = key) :
    (s.releaseSlot config leaseId cause).Booked config := by
  have slots : ∀ accounts, SessionState.holdsSlot
      { s with slots := s.slots.release config.session leaseId, accounts := accounts } config =
        fun other => decide (other ≠ leaseId) && s.holdsSlot config other :=
    fun _ => funext (s.contains_releaseSlot config leaseId)
  rw [SessionState.releaseSlot]
  split
  · next held =>
    show Books _ _ (SessionState.holdsSlot { s with slots := _, accounts := _ } config) _ _
    rw [slots]
    exact Books.releaseSlot booked caused held
  · next absent =>
    show Books _ _ (SessionState.holdsSlot { s with slots := _, accounts := s.accounts } config) _ _
    rw [slots]
    rw [without_absent absent]
    exact booked

theorem releaseMemory (leaseId : String) (cause : Cause) (caused : ∀ key, cause = .result key →
    ∃ a ∈ s.assigned, leaseIdOf a = leaseId ∧ keyOf a = key) :
    (s.releaseMemory config leaseId cause).Booked config := by
  have kept : ∀ accounts, SessionState.holdsMemory
      { s with ledger := s.ledger.release config.session leaseId, accounts := accounts } config =
        fun other => decide (other ≠ leaseId) && s.holdsMemory config other :=
    fun _ => funext (s.contains_releaseMemory config leaseId)
  rw [SessionState.releaseMemory]
  split
  · next held =>
    show Books _ (SessionState.holdsMemory { s with ledger := _, accounts := _ } config) _ _ _
    rw [kept]
    exact Books.releaseMemory booked caused held
  · next absent =>
    show Books _ (SessionState.holdsMemory { s with ledger := _, accounts := s.accounts } config)
      _ _ _
    rw [kept]
    rw [without_absent absent]
    exact booked

theorem take {a : LeasedAssignment} (takes : s.input = .assigning .taking a)
    (current : a ∈ s.assigned) (load : TaskTypeCounts) (now : Int) :
    (s.take config a load now).Booked config := by
  have slots := funext (s.holdsSlot_take config a load now)
  rw [SessionState.Booked, slots]
  cases admitted : (s.slots.tryTake load (config.slotRequest a) now).2.admitted with
  | true =>
    rw [SessionState.take, admitted]
    exact Books.take booked takes current
  | false =>
    rw [SessionState.take, admitted]
    exact Books.goto booked (by simp) (by simp)

theorem admitLease {a : LeasedAssignment} (admits : s.input = .assigning .admitting a)
    (current : a ∈ s.assigned) (memory : MemorySnapshot) (inUse : SessionInUse) (now : Int) :
    (s.admitLease config a memory inUse now).Booked config := by
  have kept := funext (s.holdsMemory_admitLease config a memory inUse now)
  rw [SessionState.Booked, kept]
  cases admitted : (s.ledger.tryAdmit (config.leaseAdmission a) memory inUse now).2.admitted with
  | true =>
    rw [SessionState.admitLease, admitted]
    exact Books.admitLease booked admits current
  | false =>
    rw [SessionState.admitLease, admitted]
    exact Books.goto booked (by simp) (by simp)

theorem finishMemory : (s.finishMemory config).Booked config := by
  rw [SessionState.Booked, funext (s.holdsMemory_finishMemory config)]
  refine Books.finish booked ⟨_, rfl⟩ (fun leaseId => ?_) (fun leaseId key => ?_) fun leaseId => ?_
  all_goals simp only [SessionState.finishMemory]
  · obtain ⟨slots, memory, once⟩ := booked.balanced leaseId
    split
    · next held =>
      rw [held] at memory
      exact ⟨slots, memory, once⟩
    · next absent =>
      rw [Bool.eq_false_iff.mpr absent] at memory
      exact ⟨slots, memory, once⟩
  · split
    · simp
    · exact id
  · split <;> exact ⟨rfl, rfl⟩

theorem finishSlots : (s.finishSlots config).Booked config := by
  rw [SessionState.Booked, funext (s.holdsSlot_finishSlots config)]
  refine Books.finish booked ⟨_, rfl⟩ (fun leaseId => ?_) (fun leaseId key => ?_) fun leaseId => ?_
  all_goals simp only [SessionState.finishSlots]
  · obtain ⟨slots, memory, once⟩ := booked.balanced leaseId
    split
    · next held =>
      rw [held] at slots
      exact ⟨slots, memory, once⟩
    · next absent =>
      rw [Bool.eq_false_iff.mpr absent] at slots
      exact ⟨slots, memory, once⟩
  · split
    · simp
    · exact id
  · split <;> exact ⟨rfl, rfl⟩

/-- A state that holds the same under the same accounts is booked as well. -/
theorem of_eq {t : SessionState} (taking : ∀ a, t.input = .assigning .taking a →
      s.input = .assigning .taking a)
    (admitting : ∀ a, t.input = .assigning .admitting a → s.input = .assigning .admitting a)
    (sameMemory : ∀ leaseId, t.holdsMemory config leaseId = s.holdsMemory config leaseId)
    (sameSlot : ∀ leaseId, t.holdsSlot config leaseId = s.holdsSlot config leaseId)
    (sameAssigned : t.assigned = s.assigned) (sameAccounts : t.accounts = s.accounts) :
    t.Booked config := by
  rw [SessionState.Booked, funext sameMemory, funext sameSlot, sameAssigned, sameAccounts]
  exact ⟨booked.balanced, booked.caused, booked.unassigned,
    fun a same => booked.untaken a (taking a same),
    fun a same => booked.unadmitted a (admitting a same)⟩

end SessionState.Booked

theorem booked_step {config : SessionConfig} {s t : SessionState} (tied : s.Tied config)
    (booked : s.Booked config) (step : SessionStep config Unrepeated s t) : t.Booked config := by
  have named : ∀ {stage key leaseId}, s.relay = .releasing stage key leaseId → ∀ key',
      Cause.result key = .result key' → ∃ a ∈ s.assigned, leaseIdOf a = leaseId ∧ keyOf a = key' := by
    intro stage key leaseId claims key' same
    cases same
    exact tied.claimNamed stage key leaseId claims
  cases step with
  | next _ => exact booked.of_eq nofun nofun (fun _ => rfl) (fun _ => rfl) rfl rfl
  | leave _ => exact booked.of_eq nofun nofun (fun _ => rfl) (fun _ => rfl) rfl rfl
  | receive _ _ new => exact Books.receive booked new
  | take load now takes => exact booked.take takes (tied.current _ _ takes) load now
  | admitLease memory inUse now admits =>
    exact booked.admitLease admits (tied.current _ _ admits) memory inUse now
  | @refuse a _ =>
    exact (booked.releaseSlot (leaseIdOf a) .refusal nofun).of_eq nofun nofun (fun _ => rfl)
      (fun _ => rfl) rfl rfl
  | enter _ _ => exact booked.of_eq nofun nofun (fun _ => rfl) (fun _ => rfl) rfl rfl
  | cancel _ _ => exact booked.of_eq nofun nofun (fun _ => rfl) (fun _ => rfl) rfl rfl
  | @cancelMemory leaseId _ =>
    exact (booked.releaseMemory leaseId .cancel nofun).of_eq nofun nofun (fun _ => rfl)
      (fun _ => rfl) rfl rfl
  | @cancelSlot leaseId _ =>
    exact (booked.releaseSlot leaseId .cancel nofun).of_eq nofun nofun (fun _ => rfl)
      (fun _ => rfl) rfl rfl
  | cancelTable _ => exact booked.of_eq nofun nofun (fun _ => rfl) (fun _ => rfl) rfl rfl
  | finishMemory _ _ => exact booked.finishMemory
  | finishSlots _ => exact booked.finishSlots
  | claim key _ =>
    rw [SessionState.claim]
    cases s.leases.find? key with
    | none => exact booked
    | some leaseId =>
      exact booked.of_eq (fun _ same => same) (fun _ same => same) (fun _ => rfl) (fun _ => rfl)
        rfl rfl
  | @claimMemory key leaseId claims =>
    exact (booked.releaseMemory leaseId (.result key) (named claims)).of_eq (fun _ same => same)
      (fun _ same => same) (fun _ => rfl) (fun _ => rfl) rfl rfl
  | @claimSlot key leaseId claims =>
    exact (booked.releaseSlot leaseId (.result key) (named claims)).of_eq (fun _ same => same)
      (fun _ same => same) (fun _ => rfl) (fun _ => rfl) rfl rfl
  | relayEnds _ =>
    exact booked.of_eq (fun _ same => same) (fun _ same => same) (fun _ => rfl) (fun _ => rfl)
      rfl rfl
  | shared call other =>
    refine booked.of_eq ?_ ?_ (call.holdsMemory_apply other s) (call.holdsSlot_apply other s) ?_ ?_
    all_goals cases call <;> first | rfl | exact fun _ same => same

/-! ## Runs -/

/-- Neither thread is in the middle of a frame. -/
def SessionState.Quiescent (s : SessionState) : Prop :=
  s.input = .reading ∧ ∀ leaseId, ¬ s.relay.Releases leaseId

/-- The three ledgers agree at rest, each lease is released once, and nothing is left. -/
structure Accounted (config : SessionConfig) (s : SessionState) : Prop where
  quiescent : s.Quiescent → ∀ leaseId,
    (s.Lists leaseId ↔ s.holdsMemory config leaseId = true) ∧
      (s.Lists leaseId ↔ s.holdsSlot config leaseId = true)
  /-- What was taken is held, or has been released, once. -/
  balanced : ∀ leaseId, (s.accounts leaseId).Balanced (s.holdsMemory config leaseId)
    (s.holdsSlot config leaseId)
  caused : ∀ leaseId, (s.accounts leaseId).Caused leaseId s.assigned
  finished : s.input = .ended .finished → ∀ leaseId,
    s.holdsMemory config leaseId = false ∧ s.holdsSlot config leaseId = false

/-- Assignments are received one at a time, with a lease id, and never forgotten. -/
theorem assigned_step {config : SessionConfig} {allowed : SessionState → LeasedAssignment → Prop}
    {s t : SessionState} (step : SessionStep config allowed s t) :
    t.assigned = s.assigned ∨
      ∃ a, Exec.isRecordIdentifier (leaseIdOf a) = true ∧ t.assigned = a :: s.assigned := by
  have slot : ∀ leaseId cause, (s.releaseSlot config leaseId cause).assigned = s.assigned := by
    intro leaseId cause
    obtain ⟨accounts, same⟩ := s.releaseSlot_eq config leaseId cause
    rw [same]
  have memory : ∀ leaseId cause, (s.releaseMemory config leaseId cause).assigned = s.assigned := by
    intro leaseId cause
    obtain ⟨accounts, same⟩ := s.releaseMemory_eq config leaseId cause
    rw [same]
  cases step with
  | @receive a _ valid _ => exact .inr ⟨a, valid, rfl⟩
  | take load now _ =>
    rw [SessionState.take]
    split <;> exact .inl rfl
  | admitLease memory inUse now _ =>
    rw [SessionState.admitLease]
    split <;> exact .inl rfl
  | claim key _ =>
    rw [SessionState.claim]
    split <;> exact .inl rfl
  | refuse | cancelSlot | claimSlot => exact .inl (slot ..)
  | cancelMemory | claimMemory => exact .inl (memory ..)
  | shared call _ => cases call <;> exact .inl rfl
  | next | leave | enter | cancel | cancelTable | finishMemory | finishSlots | relayEnds =>
    exact .inl rfl

theorem identified_step {config : SessionConfig}
    {allowed : SessionState → LeasedAssignment → Prop} {s t : SessionState}
    (identified : ∀ a ∈ s.assigned, leaseIdOf a ≠ "") (step : SessionStep config allowed s t) :
    ∀ a ∈ t.assigned, leaseIdOf a ≠ "" := by
  rcases assigned_step step with same | ⟨a, valid, same⟩
  · rwa [same]
  · rw [same]
    intro b mem
    rcases List.mem_cons.mp mem with rfl | mem
    · intro empty
      rw [empty] at valid
      exact absurd valid (by decide)
    · exact identified b mem

theorem quiescent_agree {config : SessionConfig} {s : SessionState} (tied : s.Tied config)
    (rest : s.Quiescent) (leaseId : String) :
    (s.Lists leaseId ↔ s.holdsMemory config leaseId = true) ∧
      (s.Lists leaseId ↔ s.holdsSlot config leaseId = true) := by
  obtain ⟨reads, still⟩ := rest
  have running : s.input.Running := by
    rw [reads]
    exact nofun
  refine ⟨⟨?_, fun held => ?_⟩, ⟨?_, fun held => ?_⟩⟩
  · rintro ⟨key, listed⟩
    rcases tied.listedMemory key leaseId running listed with held | cancels | cancels
    · exact held
    · cases reads.symm.trans cancels
    · cases reads.symm.trans cancels
  · rcases tied.memoryListed leaseId running held with listed | ⟨a, -, enters⟩ | ⟨key, claims⟩
    · exact listed
    · cases reads.symm.trans enters
    · exact absurd ⟨_, key, claims⟩ (still leaseId)
  · rintro ⟨key, listed⟩
    rcases tied.listedSlot key leaseId running listed with held | cancels
    · exact held
    · cases reads.symm.trans cancels
  · rcases tied.slotListed leaseId running held with listed | ⟨_, a, -, -, assigns⟩ | claims
    · exact listed
    · cases reads.symm.trans assigns
    · exact absurd claims (still leaseId)

theorem reachable_tied {config : SessionConfig} {s : SessionState}
    (reachable : (sessionSystem config Unrepeated).Reachable s) :
    s.Tied config ∧ s.Booked config ∧ ∀ a ∈ s.assigned, leaseIdOf a ≠ "" := by
  refine reachable.invariant (P := fun s => s.Tied config ∧ s.Booked config ∧
    ∀ a ∈ s.assigned, leaseIdOf a ≠ "") ?_ ?_
  · intro s init
    refine ⟨tied_init init, ?_, ?_⟩
    · obtain ⟨memory, slot, -, reads, -, unassigned, accounts⟩ := init
      rw [SessionState.Booked, reads, unassigned, accounts, funext memory, funext slot]
      refine ⟨fun _ => ⟨rfl, rfl, by decide⟩, fun _ key released => ?_, fun _ _ => ⟨rfl, rfl⟩,
        nofun, nofun⟩
      rcases released with released | released <;> cases released
    · rw [init.2.2.2.2.2.1]
      exact nofun
  · rintro s t _ ⟨tied, booked, identified⟩ step
    exact ⟨tied_step tied identified step, booked_step tied booked step,
      identified_step identified step⟩

/-- In every run of a session, with lease ids and attempts that do not repeat, the lease
table, the ledger and the slots are accounted for. -/
theorem session_accounts {config : SessionConfig} {s : SessionState}
    (reachable : (sessionSystem config Unrepeated).Reachable s) : Accounted config s := by
  obtain ⟨tied, booked, -⟩ := reachable_tied reachable
  exact ⟨quiescent_agree tied, booked.balanced, booked.caused, tied.finished⟩

/-! ## Runs of one lease and of two -/

def soleSession : SessionConfig where
  session := "s"
  coordinator := "c"
  capacity := .empty

/-- A session whose process has not started, on an idle worker with 16 GiB. -/
def helloAnswered : SessionState where
  ledger := .create {} (16 * 1024 ^ 3) {}
  slots := .create 10
  leases := .empty
  input := .reading
  relay := .absent
  assigned := []
  accounts _ := {}

/-- The first attempt of a task under the given lease id. -/
def firstAttempt (leaseId : String) : LeasedAssignment where
  spec := { buildSessionId := "b", taskId := "t", taskType := "ocr" }
  lease := { leaseId := leaseId, attempt := 1, duration := 1, heartbeatInterval := 1 }

/-- The assignment is received and admitted. -/
def SessionState.admitted (s : SessionState) (assignment : LeasedAssignment) : SessionState :=
  ((s.receive assignment).take soleSession assignment .empty 0).admitLease soleSession assignment
    { availableBytes := 8 * 1024 ^ 3, pressure := .normal } (fun _ => none) 0

/-- And entered in the lease table. -/
def SessionState.entered (s : SessionState) (assignment : LeasedAssignment) : SessionState :=
  (s.admitted assignment).enter assignment

theorem entered_reachable {allowed : SessionState → LeasedAssignment → Prop} {s : SessionState}
    {a : LeasedAssignment} (reachable : (sessionSystem soleSession allowed).Reachable s)
    (reads : s.input = .reading) (valid : Exec.isRecordIdentifier (leaseIdOf a) = true)
    (new : ∀ earlier ∈ s.assigned, leaseIdOf earlier ≠ leaseIdOf a)
    (takes : ((s.receive a).take soleSession a .empty 0).input = .assigning .admitting a)
    (admits : (s.admitted a).input = .assigning .listing a) (enters : allowed (s.admitted a) a) :
    (sessionSystem soleSession allowed).Reachable (s.entered a) := by
  have received := reachable.next (SessionStep.receive reads valid new)
  have taken := received.next (SessionStep.take .empty 0 rfl)
  have admitted := taken.next (SessionStep.admitLease
    { availableBytes := 8 * 1024 ^ 3, pressure := .normal } (fun _ => none) 0 takes)
  exact admitted.next (SessionStep.enter admits enters)

def oneRunning : SessionState := helloAnswered.entered (firstAttempt "1")

theorem oneRunning_reachable {allowed : SessionState → LeasedAssignment → Prop}
    (enters : allowed (helloAnswered.admitted (firstAttempt "1")) (firstAttempt "1")) :
    (sessionSystem soleSession allowed).Reachable oneRunning :=
  entered_reachable (.start ⟨fun _ => rfl, fun _ => rfl, rfl, rfl, rfl, rfl, rfl⟩) rfl (by decide)
    nofun rfl rfl enters

theorem session_accounts_one : Accounted soleSession oneRunning :=
  session_accounts (oneRunning_reachable rfl)

/-- The session ends before its lease is answered. -/
def oneLeft : SessionState :=
  (((oneRunning.goto (.ended .left)).relayTo .finished).finishMemory soleSession).finishSlots
    soleSession

/-- A finished session keeps what was never answered in its table; and where the same
attempt is assigned twice, at rest the ledger and the slots hold a lease the table lost. -/
theorem session_leftovers :
    (∃ s, (sessionSystem soleSession fun _ _ => True).Reachable s ∧
        s.input = .ended .finished ∧ s.Lists "1") ∧
      ∃ s, (sessionSystem soleSession fun _ _ => True).Reachable s ∧ s.Quiescent ∧
        s.holdsMemory soleSession "1" = true ∧ s.holdsSlot soleSession "1" = true ∧
        ¬ s.Lists "1" := by
  have one : (sessionSystem soleSession fun _ _ => True).Reachable oneRunning :=
    oneRunning_reachable trivial
  constructor
  · have left := one.next (SessionStep.leave (.inl rfl))
    have joined := left.next (SessionStep.relayEnds rfl)
    have released := joined.next (SessionStep.finishMemory rfl (.inr rfl))
    exact ⟨oneLeft, released.next (SessionStep.finishSlots rfl), rfl, attemptKey "t" 1, rfl⟩
  · refine ⟨oneRunning.entered (firstAttempt "2"), entered_reachable one rfl (by decide) ?_ rfl rfl
      trivial, ⟨rfl, ?_⟩, by decide, by decide, ?_⟩
    · intro earlier mem
      rcases List.mem_singleton.mp mem with rfl
      decide
    · rintro leaseId ⟨stage, key, claims⟩
      cases claims
    · rintro ⟨key, listed⟩
      have listed : ((OrderedMap.empty.insert (attemptKey "t" 1) "1").insert (attemptKey "t" 1)
        "2").find? key = some "1" := listed
      rw [OrderedMap.find?_insert, OrderedMap.find?_insert] at listed
      split at listed
      · exact absurd (Option.some.inj listed) (by decide)
      · cases listed

end Svp.Worker

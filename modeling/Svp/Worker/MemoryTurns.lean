import Svp.Worker.SlotSharing

/-!
# Memory turns

`MemoryTurns` makes the task types that run on a worker yield the memory they free to a
type that was refused for it. Times are readings of the steady clock in nanoseconds.

1. `find?_expire`, `find?_rests_expire`: which waits and rests a reading of the clock ends.
2. `yieldsTo_some`: a type yields to the wait with the lowest ticket below its own.
3. `yields_acyclic`: no types yield to each other in a circle; `first_yields_to_none`: the
   type with the lowest ticket yields to none.
-/

namespace Svp.Worker

open Lib (OrderedMap)

/-! ## The program -/

structure MemoryTurnPolicy where
  idleWindow : Int := 10 * 10 ^ 9
  maxWait : Int := 600 * 10 ^ 9

/-- `MemoryTurns::Wait`. -/
structure Wait where
  ticket : Nat
  since : Int
  lastAsked : Int
  /-- Leases of other types running when the wait began. -/
  waitingFor : List LeaseKey
deriving DecidableEq

structure MemoryTurns where
  policy : MemoryTurnPolicy
  waits : OrderedMap String Wait
  /-- Task type to the end of its rest. -/
  rests : OrderedMap String Int
  /-- Counted in 64 bits. -/
  nextTicket : Nat

namespace MemoryTurns

def create (policy : MemoryTurnPolicy) : MemoryTurns where
  policy := policy
  waits := .empty
  rests := .empty
  nextTicket := 0

/-- Rest as long as the wait held the other types back. -/
def endFruitless (turns : MemoryTurns) (taskType : String) (wait : Wait) (now : Int) :
    MemoryTurns :=
  { turns with
    rests := turns.rests.insert taskType (now + (now - wait.since))
    waits := turns.waits.erase taskType }

/-- The loop of `expire` over the waits. -/
def expireWaits (now : Int) : List (String × Wait) → MemoryTurns → MemoryTurns
  | [], turns => turns
  | (taskType, wait) :: rest, turns =>
    if now - wait.lastAsked > turns.policy.idleWindow then
      expireWaits now rest { turns with waits := turns.waits.erase taskType }
    else if now - wait.since ≥ turns.policy.maxWait then
      expireWaits now rest (turns.endFruitless taskType wait now)
    else expireWaits now rest turns

def expire (turns : MemoryTurns) (now : Int) : MemoryTurns :=
  let turns := expireWaits now turns.waits.entries turns
  { turns with rests := turns.rests.filter fun _ rest => ¬ rest ≤ now }

/-- The loop of `yields_to`: the first other type so far and the lowest ticket. -/
def lowestTicket (taskType : String) :
    Option String × Nat → List (String × Wait) → Option String × Nat
  | found, [] => found
  | (first, firstTicket), (type, wait) :: rest =>
    if type ≠ taskType ∧ wait.ticket < firstTicket then
      lowestTicket taskType (some type, wait.ticket) rest
    else lowestTicket taskType (first, firstTicket) rest

/-- `own_ticket`. -/
def ownTicket (turns : MemoryTurns) (taskType : String) : Nat :=
  match turns.waits.find? taskType with
  | none => turns.nextTicket
  | some wait => wait.ticket

def yieldsTo (turns : MemoryTurns) (taskType : String) : Option String :=
  (lowestTicket taskType (none, turns.ownTicket taskType) turns.waits.entries).1

def waiting (turns : MemoryTurns) (taskType : String) : Bool := turns.waits.contains taskType

def resting (turns : MemoryTurns) (taskType : String) (now : Int) : Bool :=
  match turns.rests.find? taskType with
  | some rest => rest > now
  | none => false

def refused (turns : MemoryTurns) (taskType : String) (otherTypesRunning : List LeaseKey)
    (now : Int) : MemoryTurns :=
  match turns.waits.find? taskType with
  | some wait =>
    let wait := { wait with lastAsked := now }
    let turns := { turns with waits := turns.waits.insert taskType wait }
    if wait.waitingFor.any fun lease => otherTypesRunning.contains lease then turns
    else turns.endFruitless taskType wait now
  | none =>
    if otherTypesRunning.isEmpty || turns.resting taskType now then turns
    else
      { turns with
        waits := turns.waits.insert taskType
          { ticket := turns.nextTicket, since := now, lastAsked := now,
            waitingFor := otherTypesRunning }
        nextTicket := (turns.nextTicket + 1) % 2 ^ 64 }

def admitted (turns : MemoryTurns) (taskType : String) : MemoryTurns :=
  { turns with waits := turns.waits.erase taskType }

/-! ## What a reading of the clock ends -/

/-- The wait ends because its type has not asked within the idle window. -/
def Lapsed (policy : MemoryTurnPolicy) (now : Int) (wait : Wait) : Prop :=
  now - wait.lastAsked > policy.idleWindow

/-- The wait ends because it has lasted the max wait. -/
def Overdue (policy : MemoryTurnPolicy) (now : Int) (wait : Wait) : Prop :=
  now - wait.lastAsked ≤ policy.idleWindow ∧ now - wait.since ≥ policy.maxWait

instance (policy : MemoryTurnPolicy) (now : Int) (wait : Wait) :
    Decidable (Lapsed policy now wait) := inferInstanceAs (Decidable (_ > _))

instance (policy : MemoryTurnPolicy) (now : Int) (wait : Wait) :
    Decidable (Overdue policy now wait) := inferInstanceAs (Decidable (_ ∧ _))

theorem policy_expireWaits (now : Int) (entries : List (String × Wait)) (turns : MemoryTurns) :
    (expireWaits now entries turns).policy = turns.policy := by
  induction entries generalizing turns with
  | nil => rfl
  | cons entry rest ih =>
    rw [expireWaits]
    split
    · exact ih _
    · split
      · exact ih _
      · exact ih _

@[simp] theorem policy_expire (turns : MemoryTurns) (now : Int) :
    (turns.expire now).policy = turns.policy := policy_expireWaits ..

theorem expireWaits_other (now : Int) (turns : MemoryTurns) {entries : List (String × Wait)}
    {t : String} (absent : t ∉ entries.map Prod.fst) :
    (expireWaits now entries turns).waits.find? t = turns.waits.find? t ∧
      (expireWaits now entries turns).rests.find? t = turns.rests.find? t := by
  induction entries generalizing turns with
  | nil => exact ⟨rfl, rfl⟩
  | cons entry rest ih =>
    obtain ⟨type, wait⟩ := entry
    obtain ⟨other, later⟩ : t ≠ type ∧ t ∉ rest.map Prod.fst := by simpa using absent
    rw [expireWaits]
    split
    · have := ih { turns with waits := turns.waits.erase type } later
      simpa [OrderedMap.find?_erase, other] using this
    · split
      · have := ih (turns.endFruitless type wait now) later
        simpa [endFruitless, OrderedMap.find?_erase, OrderedMap.find?_insert, other] using this
      · exact ih turns later

/-- The wait of a type after the loop has come to it. -/
theorem expireWaits_mem (now : Int) (turns : MemoryTurns) {entries : List (String × Wait)}
    {t : String} {wait : Wait} (nodup : (entries.map Prod.fst).Nodup) (mem : (t, wait) ∈ entries) :
    (expireWaits now entries turns).waits.find? t =
        (if Lapsed turns.policy now wait ∨ Overdue turns.policy now wait then none
        else turns.waits.find? t) ∧
      (expireWaits now entries turns).rests.find? t =
        if Overdue turns.policy now wait then some (now + (now - wait.since))
        else turns.rests.find? t := by
  induction entries generalizing turns with
  | nil => cases mem
  | cons entry rest ih =>
    obtain ⟨type, first⟩ := entry
    obtain ⟨absent, nodup⟩ := List.nodup_cons.mp nodup
    rw [expireWaits]
    rcases List.mem_cons.mp mem with same | later
    · obtain ⟨rfl, rfl⟩ := Prod.mk.inj same
      split
      · next lapsed =>
        obtain ⟨waits, rests⟩ := expireWaits_other now
          { turns with waits := turns.waits.erase t } absent
        have punctual : ¬ Overdue turns.policy now wait := fun due =>
          absurd lapsed (not_lt.mpr due.1)
        rw [waits, rests, if_pos (.inl lapsed), if_neg punctual]
        exact ⟨by rw [OrderedMap.find?_erase, if_pos rfl], rfl⟩
      · next asking =>
        split
        · next lasted =>
          obtain ⟨waits, rests⟩ := expireWaits_other now
            (turns.endFruitless t wait now) absent
          have overdue : Overdue turns.policy now wait := ⟨not_lt.mp asking, lasted⟩
          rw [waits, rests, if_pos (.inr overdue), if_pos overdue]
          exact ⟨by rw [endFruitless, OrderedMap.find?_erase, if_pos rfl],
            by rw [endFruitless, OrderedMap.find?_insert, if_pos rfl]⟩
        · next short =>
          obtain ⟨waits, rests⟩ := expireWaits_other now turns absent
          have stays : ¬ Overdue turns.policy now wait := fun due => short due.2
          have kept : ¬ (Lapsed turns.policy now wait ∨ Overdue turns.policy now wait) :=
            not_or.mpr ⟨asking, stays⟩
          rw [waits, rests, if_neg kept, if_neg stays]
          exact ⟨rfl, rfl⟩
    · have other : t ≠ type := by
        intro same
        have key : t ∈ rest.map Prod.fst := List.mem_map_of_mem later
        exact absent (same ▸ key)
      split
      · obtain ⟨waits, rests⟩ := ih { turns with waits := turns.waits.erase type } nodup later
        rw [waits, rests]
        exact ⟨by rw [OrderedMap.find?_erase, if_neg other], rfl⟩
      · split
        · obtain ⟨waits, rests⟩ := ih (turns.endFruitless type first now) nodup later
          rw [waits, rests]
          exact ⟨by rw [endFruitless, OrderedMap.find?_erase, if_neg other],
            by rw [endFruitless, OrderedMap.find?_insert, if_neg other]⟩
        · exact ih turns nodup later

/-- A reading of the clock keeps the waits that neither lapsed nor are overdue. -/
theorem find?_expire (turns : MemoryTurns) (now : Int) (t : String) :
    (turns.expire now).waits.find? t = (turns.waits.find? t).filter fun wait =>
      ¬ (Lapsed turns.policy now wait ∨ Overdue turns.policy now wait) := by
  rw [expire]
  cases found : turns.waits.find? t with
  | none =>
    have absent : t ∉ turns.waits.entries.map Prod.fst := by
      intro mem
      obtain ⟨⟨_, wait⟩, entry, rfl⟩ := List.mem_map.mp mem
      exact OrderedMap.find?_eq_none.mp found wait entry
    rw [(expireWaits_other now turns absent).1, found, Option.filter_none]
  | some wait =>
    have mem := OrderedMap.find?_eq_some.mp found
    rw [(expireWaits_mem now turns turns.waits.keys_nodup mem).1, found, Option.filter_some]
    by_cases ends : Lapsed turns.policy now wait ∨ Overdue turns.policy now wait <;> simp [ends]

/-- The rests after a reading of the clock: those an overdue wait begins, and those that
are not over. -/
theorem find?_rests_expire (turns : MemoryTurns) (now : Int) (t : String) :
    (turns.expire now).rests.find? t =
      (match (turns.waits.find? t).filter fun wait => Overdue turns.policy now wait with
        | some wait => some (now + (now - wait.since))
        | none => turns.rests.find? t).filter fun rest => ¬ rest ≤ now := by
  rw [expire, OrderedMap.find?_filter]
  congr 1
  cases found : turns.waits.find? t with
  | none =>
    have absent : t ∉ turns.waits.entries.map Prod.fst := by
      intro mem
      obtain ⟨⟨_, wait⟩, entry, rfl⟩ := List.mem_map.mp mem
      exact OrderedMap.find?_eq_none.mp found wait entry
    exact (expireWaits_other now turns absent).2
  | some wait =>
    have mem := OrderedMap.find?_eq_some.mp found
    rw [(expireWaits_mem now turns turns.waits.keys_nodup mem).2, Option.filter_some]
    by_cases due : Overdue turns.policy now wait <;> simp [due]

/-! ## What a refusal makes of the waits -/

theorem refused_other {turns : MemoryTurns} {taskType t : String} (other : t ≠ taskType)
    (running : List LeaseKey) (now : Int) :
    (turns.refused taskType running now).waits.find? t = turns.waits.find? t ∧
      (turns.refused taskType running now).rests.find? t = turns.rests.find? t := by
  rw [refused]
  split
  · simp only []
    split
    · exact ⟨by rw [OrderedMap.find?_insert, if_neg other], rfl⟩
    · rw [endFruitless, OrderedMap.find?_erase, if_neg other, OrderedMap.find?_insert,
        if_neg other, OrderedMap.find?_insert, if_neg other]
      exact ⟨rfl, rfl⟩
  · split
    · exact ⟨rfl, rfl⟩
    · exact ⟨by rw [OrderedMap.find?_insert, if_neg other], rfl⟩

/-- A refused type that waits goes on waiting or rests for as long as it has waited. -/
theorem refused_waiting {turns : MemoryTurns} {t : String} {wait : Wait}
    (found : turns.waits.find? t = some wait) (running : List LeaseKey) (now : Int) :
    (∃ after, (turns.refused t running now).waits.find? t = some after ∧
        after.since = wait.since) ∨
      ((turns.refused t running now).waits.find? t = none ∧
        (turns.refused t running now).rests.find? t = some (now + (now - wait.since))) := by
  rw [refused, found]
  simp only []
  split
  · exact .inl ⟨{ wait with lastAsked := now }, by rw [OrderedMap.find?_insert, if_pos rfl], rfl⟩
  · refine .inr ⟨?_, ?_⟩
    · rw [endFruitless, OrderedMap.find?_erase, if_pos rfl]
    · rw [endFruitless, OrderedMap.find?_insert, if_pos rfl]

/-- A refused type that does not wait begins to when others run and it does not rest. -/
theorem refused_idle {turns : MemoryTurns} {t : String} (found : turns.waits.find? t = none)
    (running : List LeaseKey) (now : Int) :
    turns.refused t running now = turns ∨
      (running ≠ [] ∧ turns.resting t now = false ∧
        ∃ wait, (turns.refused t running now).waits.find? t = some wait ∧ wait.since = now) := by
  rw [refused, found]
  simp only []
  split
  · exact .inl rfl
  · next begins =>
    rw [Bool.or_eq_true, not_or, List.isEmpty_iff, Bool.not_eq_true] at begins
    exact .inr ⟨begins.1, begins.2, _, by rw [OrderedMap.find?_insert, if_pos rfl], rfl⟩

/-! ## Who yields to whom -/

/-- The loop ends where it started, or at an entry of another type below that. -/
theorem lowestTicket_cases (taskType : String) (found : Option String × Nat)
    (entries : List (String × Wait)) :
    lowestTicket taskType found entries = found ∨
      ∃ type wait, (type, wait) ∈ entries ∧ type ≠ taskType ∧ wait.ticket < found.2 ∧
        lowestTicket taskType found entries = (some type, wait.ticket) := by
  induction entries generalizing found with
  | nil => exact .inl rfl
  | cons entry rest ih =>
    obtain ⟨type, wait⟩ := entry
    obtain ⟨first, firstTicket⟩ := found
    rw [lowestTicket]
    split
    · next below =>
      rcases ih (some type, wait.ticket) with same | ⟨type', wait', mem, other, less, same⟩
      · exact .inr ⟨type, wait, List.mem_cons_self, below.1, below.2, same⟩
      · exact .inr ⟨type', wait', List.mem_cons_of_mem _ mem, other, less.trans below.2, same⟩
    · rcases ih (first, firstTicket) with same | ⟨type', wait', mem, rest⟩
      · exact .inl same
      · exact .inr ⟨type', wait', List.mem_cons_of_mem _ mem, rest⟩

/-- The loop ends at or below every entry of another type. -/
theorem lowestTicket_le (taskType : String) (found : Option String × Nat)
    {entries : List (String × Wait)} {type : String} {wait : Wait} (mem : (type, wait) ∈ entries)
    (other : type ≠ taskType) : (lowestTicket taskType found entries).2 ≤ wait.ticket := by
  have bound : ∀ (found : Option String × Nat) (entries : List (String × Wait)),
      (lowestTicket taskType found entries).2 ≤ found.2 := by
    intro found entries
    rcases lowestTicket_cases taskType found entries with same | ⟨_, _, _, _, less, same⟩
    · rw [same]
    · rw [same]
      exact less.le
  induction entries generalizing found with
  | nil => cases mem
  | cons entry rest ih =>
    obtain ⟨type', wait'⟩ := entry
    obtain ⟨first, firstTicket⟩ := found
    rw [lowestTicket]
    rcases List.mem_cons.mp mem with same | later
    · obtain ⟨rfl, rfl⟩ := Prod.mk.inj same
      split
      · exact bound ..
      · next above =>
        have least : firstTicket ≤ wait.ticket := not_lt.mp fun less => above ⟨other, less⟩
        exact (bound ..).trans least
    · split
      · exact ih _ later
      · exact ih _ later

/-- A type yields to the waiting type with the lowest ticket below its own. -/
theorem yieldsTo_some {turns : MemoryTurns} {t u : String} (yields : turns.yieldsTo t = some u) :
    u ≠ t ∧ ∃ wait, turns.waits.find? u = some wait ∧ wait.ticket < turns.ownTicket t ∧
      ∀ v other, v ≠ t → turns.waits.find? v = some other → wait.ticket ≤ other.ticket := by
  rw [yieldsTo] at yields
  have least := fun {v other} (mem : (v, other) ∈ turns.waits.entries) =>
    lowestTicket_le t (none, turns.ownTicket t) mem
  rcases lowestTicket_cases t (none, turns.ownTicket t) turns.waits.entries with
    same | ⟨type, wait, mem, other, less, same⟩
  · rw [same] at yields
    cases yields
  · rw [same] at yields
    cases yields
    refine ⟨other, wait, OrderedMap.find?_eq_some.mpr mem, less, fun v w differs found => ?_⟩
    have bound := least (OrderedMap.find?_eq_some.mp found) differs
    rwa [same] at bound

/-- `t` is made to yield to the waiting type `u`. -/
def Yields (turns : MemoryTurns) (t u : String) : Prop := turns.yieldsTo t = some u

/-- Along a chain of yielding the tickets fall. -/
theorem yields_ticket {turns : MemoryTurns} {t u : String}
    (chain : Relation.TransGen turns.Yields t u) :
    ∃ wait, turns.waits.find? u = some wait ∧ wait.ticket < turns.ownTicket t := by
  induction chain with
  | single step =>
    obtain ⟨_, wait, found, less, _⟩ := yieldsTo_some step
    exact ⟨wait, found, less⟩
  | tail _ step ih =>
    obtain ⟨_, wait, found, less, _⟩ := yieldsTo_some step
    obtain ⟨middle, between, lower⟩ := ih
    rw [ownTicket, between] at less
    exact ⟨wait, found, less.trans lower⟩

/-- No types yield to each other in a circle. -/
theorem yields_acyclic (turns : MemoryTurns) (t : String) :
    ¬ Relation.TransGen turns.Yields t t := by
  intro circle
  obtain ⟨wait, found, less⟩ := yields_ticket circle
  rw [ownTicket, found] at less
  exact lt_irrefl _ less

/-- A waiting type no other one waits before yields to none. -/
theorem first_yields_to_none {turns : MemoryTurns} {t : String} {wait : Wait}
    (found : turns.waits.find? t = some wait)
    (lowest : ∀ u other, turns.waits.find? u = some other → wait.ticket ≤ other.ticket) :
    turns.yieldsTo t = none := by
  cases yields : turns.yieldsTo t with
  | none => rfl
  | some u =>
    obtain ⟨_, other, waits, less, _⟩ := yieldsTo_some yields
    rw [ownTicket, found] at less
    exact absurd less (not_lt.mpr (lowest u other waits))

end MemoryTurns

end Svp.Worker

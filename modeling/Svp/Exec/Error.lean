import Mathlib

/-!
# `ExecError`

Every contract violation `svp-exec` detects is reported with one of these codes
and a message.
-/

namespace Svp.Exec

inductive ExecErrorCode
  | invalidJson
  | nonCanonicalJson
  | nonFiniteNumber
  | missingField
  | unknownField
  | wrongType
  | invalidValue
  | invalidDigest
  | digestMismatch
  | unknownMessageType
  | frameHeaderTooLarge
  | framePayloadTooLarge
  | frameTruncated
  | frameMalformed
  | payloadHashMismatch
  | unknownTaskType
  | duplicateTaskType
  | invalidTaskParameters
  | unresolvedInput
  | cancelled
deriving DecidableEq, Repr

structure ExecError where
  code : ExecErrorCode
  message : String
deriving DecidableEq, Repr

/-- Throws unless `condition` holds. -/
def require (condition : Bool) (code : ExecErrorCode) (message : String) : Except ExecError Unit :=
  if condition then .ok () else .error ⟨code, message⟩

@[simp] theorem require_eq_ok {condition : Bool} {code : ExecErrorCode} {message : String}
    {u : Unit} : require condition code message = .ok u ↔ condition = true := by
  cases condition <;> simp [require]

/-- A bind returns only through both of its parts. -/
theorem bind_eq_ok {ε α β : Type} {x : Except ε α} {f : α → Except ε β} {b : β} :
    (x >>= f) = .ok b ↔ ∃ a, x = .ok a ∧ f a = .ok b := by
  cases x with
  | error e => simp [bind, Except.bind]
  | ok a => simp [bind, Except.bind]

/-- A check before a computation. -/
theorem check_bind_eq_ok {ε β : Type} {x : Except ε Unit} {f : Unit → Except ε β} {b : β} :
    (x >>= f) = .ok b ↔ x = .ok () ∧ f () = .ok b :=
  bind_eq_ok.trans ⟨fun ⟨_, passed, rest⟩ => ⟨passed, rest⟩, fun ⟨passed, rest⟩ => ⟨(), passed, rest⟩⟩

/-- A loop of checks passes when each of them does. -/
theorem forM_eq_ok {ε α : Type} {check : α → Except ε Unit} {l : List α} {u : Unit} :
    l.forM check = .ok u ↔ ∀ a ∈ l, check a = .ok () := by
  induction l with
  | nil => simp [List.forM, pure, Except.pure]
  | cons first rest ih =>
    rw [List.forall_mem_cons, ← ih]
    exact check_bind_eq_ok

/-- A traversal returns only through each of its entries. -/
theorem mapM_cons_eq_ok {ε α β : Type} {f : α → Except ε β} {a : α} {l : List α} {bs : List β} :
    (a :: l).mapM f = .ok bs ↔ ∃ b rest, f a = .ok b ∧ l.mapM f = .ok rest ∧ bs = b :: rest := by
  rw [List.mapM_cons, bind_eq_ok]
  constructor
  · rintro ⟨b, first, others⟩
    obtain ⟨rest, others, same⟩ := bind_eq_ok.mp others
    exact ⟨b, rest, first, others, (Except.ok.inj same).symm⟩
  · rintro ⟨b, rest, first, others, rfl⟩
    exact ⟨b, first, bind_eq_ok.mpr ⟨rest, others, rfl⟩⟩

/-- A traversal that fails at no entry is a map. -/
theorem mapM_eq_pure {m : Type → Type} [Monad m] [LawfulMonad m] {α β : Type} {f : α → m β}
    {g : α → β} {l : List α} (each : ∀ a ∈ l, f a = pure (g a)) : l.mapM f = pure (l.map g) := by
  induction l with
  | nil => rfl
  | cons first rest ih =>
    rw [List.mapM_cons, each first List.mem_cons_self, pure_bind,
      ih fun a mem => each a (List.mem_cons_of_mem first mem), pure_bind, List.map_cons]

/-- A list written entry by entry is read back entry by entry. -/
theorem mapM_written {ε α β : Type} {write : α → β} {read : β → Except ε α} {l : List α}
    (inverse : ∀ a ∈ l, read (write a) = .ok a) : (l.map write).mapM read = .ok l := by
  rw [List.mapM_map]
  exact (mapM_eq_pure inverse).trans (congrArg _ l.map_id)

end Svp.Exec

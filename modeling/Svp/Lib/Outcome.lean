import Mathlib

/-!
# Calls that may overflow

A call returns a value, throws, or runs into a signed operation whose result does not
fit its type, which leaves the rest undefined. `signed` is such an operation; the
lemmas say when a chain of them gets through.
-/

namespace Svp.Lib

inductive Outcome (α : Type)
  | returned (value : α)
  | thrown (message : String)
  | overflowed
deriving DecidableEq

namespace Outcome

variable {α β : Type}

def andThen (call : Outcome α) (next : α → Outcome β) : Outcome β :=
  match call with
  | returned value => next value
  | thrown message => thrown message
  | overflowed => overflowed

instance : Monad Outcome where
  pure := returned
  bind := andThen

@[simp] theorem returned_bind (value : α) (next : α → Outcome β) :
    (returned value >>= next) = next value := rfl

@[simp] theorem thrown_bind (message : String) (next : α → Outcome β) :
    (thrown message >>= next) = thrown message := rfl

@[simp] theorem overflowed_bind (next : α → Outcome β) :
    (overflowed >>= next) = overflowed := rfl

@[simp] theorem pure_eq (value : α) : (pure value : Outcome α) = returned value := rfl

end Outcome

/-- Whether a signed integer of that many bits holds the value. -/
def Fits (bits : Nat) (value : Int) : Prop := -2 ^ (bits - 1) ≤ value ∧ value < 2 ^ (bits - 1)

instance (bits : Nat) (value : Int) : Decidable (Fits bits value) :=
  inferInstanceAs (Decidable (_ ∧ _))

/-- A signed operation with that exact result. -/
def signed (bits : Nat) (value : Int) : Outcome Int :=
  if Fits bits value then .returned value else .overflowed

theorem signed_of_fits {bits : Nat} {value : Int} (fits : Fits bits value) :
    signed bits value = .returned value := if_pos fits

theorem signed_of_not_fits {bits : Nat} {value : Int} (large : ¬ Fits bits value) :
    signed bits value = .overflowed := if_neg large

theorem fits_of_abs_lt {bits : Nat} {value : Int} (small : |value| < 2 ^ (bits - 1)) :
    Fits bits value := ⟨(abs_lt.mp small).1.le, (abs_lt.mp small).2⟩

theorem fits_of_nonneg {bits : Nat} {value : Int} (nonneg : 0 ≤ value) :
    Fits bits value ↔ value < 2 ^ (bits - 1) := by
  refine ⟨And.right, fun below => ⟨?_, below⟩⟩
  exact (neg_nonpos.mpr (by positivity)).trans nonneg

end Svp.Lib

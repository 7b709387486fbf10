import Svp.Exec.JsonText
import Svp.Lib.Binary64Order

/-!
# JSON numbers and equality

The JSON library compares two numbers as doubles as soon as one of them is a double, and
two integers after a conversion to the signed type. `numberValue` is the number that the
text stands for.

Rounding never parts equal numbers (`libraryEq_of_jsonEq`), but it may join different ones.
-/

namespace Svp.Validation

open Exec (Json member Bytes)
open Lib (round64)

/-! ## Numbers -/

/-- The number a finite double stands for. -/
def doubleValue (bits : UInt64) : ℚ :=
  let sign : ℤ := if bits.toNat < 2 ^ 63 then 1 else -1
  let exponent : ℕ := bits.toNat / 2 ^ 52 % 2 ^ 11
  let fraction : ℕ := bits.toNat % 2 ^ 52
  if exponent = 0 then (sign * fraction : ℤ) * 2 ^ (-1074 : ℤ)
  else (sign * (2 ^ 52 + fraction) : ℤ) * 2 ^ (exponent - 1075 : ℤ)

/-- The number a JSON number stands for. -/
def numberValue : Json → Option ℚ
  | .integer value => some value
  | .float bits => some (doubleValue bits)
  | _ => none

/-- `get<double>` of a number. -/
def getDouble : Json → Option ℚ
  | .integer value => some (round64 value)
  | .float bits => some (doubleValue bits)
  | _ => none

/-- `operator==` of the library on two numbers. -/
def libraryNumberEq : Json → Json → Bool
  | .integer a, .integer b => BitVec.ofInt 64 a = BitVec.ofInt 64 b
  | .integer a, .float b => round64 a = doubleValue b
  | .float a, .integer b => doubleValue a = round64 b
  | .float a, .float b => doubleValue a = doubleValue b
  | _, _ => false

def jsonNumberEq (a b : Json) : Bool := numberValue a = numberValue b

section
variable (numberEq : Json → Json → Bool)

mutual
/-- Equality of values, up to what is taken for equal numbers. -/
def sameValue : Json → Json → Bool
  | .null, .null => true
  | .bool a, .bool b => a = b
  | .string a, .string b => a = b
  | .array a, .array b => sameItems a b
  | .object a, .object b => sameFields a b
  | .binary a, .binary b => a = b
  | .integer a, .integer b => numberEq (.integer a) (.integer b)
  | .integer a, .float b => numberEq (.integer a) (.float b)
  | .float a, .integer b => numberEq (.float a) (.integer b)
  | .float a, .float b => numberEq (.float a) (.float b)
  | _, _ => false

def sameItems : List Json → List Json → Bool
  | [], [] => true
  | a :: rest, b :: others => sameValue a b && sameItems rest others
  | _, _ => false

def sameFields : List (String × Json) → List (String × Json) → Bool
  | [], [] => true
  | (key, a) :: rest, (other, b) :: others => key = other && sameValue a b && sameFields rest others
  | _, _ => false
end

end

/-- `operator==` of the library. -/
def libraryEq : Json → Json → Bool := sameValue libraryNumberEq

/-- Equality of what the texts stand for. -/
def jsonEq : Json → Json → Bool := sameValue jsonNumberEq

/-! ## What rounding keeps -/

theorem representable_doubleValue (bits : UInt64) : Lib.Representable (doubleValue bits) := by
  have fraction : bits.toNat % 2 ^ 52 < 2 ^ 52 := Nat.mod_lt _ (by decide)
  unfold doubleValue
  dsimp only
  split
  · refine ⟨_, -1074, by decide, ?_, rfl⟩
    rw [abs_lt]
    split <;> omega
  · refine ⟨_, _, ?_, ?_, rfl⟩
    · rw [Lib.leastExponent]
      omega
    · rw [abs_lt]
      split <;> omega

theorem getDouble_eq (value : Json) : getDouble value = (numberValue value).map round64 := by
  cases value with
  | float bits => exact congrArg some (Lib.round64_representable (representable_doubleValue bits)).symm
  | _ => rfl

theorem libraryNumberEq_of_jsonNumberEq {a b : Json} (number : (numberValue a).isSome)
    (same : jsonNumberEq a b = true) : libraryNumberEq a b = true := by
  have same : numberValue a = numberValue b := of_decide_eq_true same
  have rounded : getDouble a = getDouble b := by
    rw [getDouble_eq, getDouble_eq, same]
  cases a with
  | integer a =>
    cases b with
    | integer b =>
      have equal : a = b := by exact_mod_cast Option.some.inj same
      rw [equal]
      exact decide_eq_true rfl
    | float b => exact decide_eq_true (Option.some.inj rounded)
    | _ => cases same
  | float a =>
    cases b with
    | integer b => exact decide_eq_true (Option.some.inj rounded)
    | float b => exact decide_eq_true (Option.some.inj rounded)
    | _ => cases same
  | _ => cases number

mutual
theorem sameValue_mono {a b : Json} (same : sameValue jsonNumberEq a b = true) :
    sameValue libraryNumberEq a b = true := by
  cases a with
  | integer a =>
    cases b with
    | integer b => exact libraryNumberEq_of_jsonNumberEq rfl same
    | float b => exact libraryNumberEq_of_jsonNumberEq rfl same
    | _ => cases same
  | float a =>
    cases b with
    | integer b => exact libraryNumberEq_of_jsonNumberEq rfl same
    | float b => exact libraryNumberEq_of_jsonNumberEq rfl same
    | _ => cases same
  | array a =>
    cases b with
    | array b => exact sameItems_mono same
    | _ => cases same
  | object a =>
    cases b with
    | object b => exact sameFields_mono same
    | _ => cases same
  | null => cases b <;> exact same
  | bool a => cases b <;> exact same
  | string a => cases b <;> exact same
  | binary a => cases b <;> exact same
  | discarded => cases b <;> exact same

theorem sameItems_mono {a b : List Json} (same : sameItems jsonNumberEq a b = true) :
    sameItems libraryNumberEq a b = true := by
  match a, b with
  | [], [] => rfl
  | a :: rest, b :: others =>
    obtain ⟨first, second⟩ := Bool.and_eq_true_iff.mp same
    exact Bool.and_eq_true_iff.mpr ⟨sameValue_mono first, sameItems_mono second⟩

theorem sameFields_mono {a b : List (String × Json)} (same : sameFields jsonNumberEq a b = true) :
    sameFields libraryNumberEq a b = true := by
  match a, b with
  | [], [] => rfl
  | (key, a) :: rest, (other, b) :: others =>
    obtain ⟨first, second⟩ := Bool.and_eq_true_iff.mp same
    obtain ⟨keys, values⟩ := Bool.and_eq_true_iff.mp first
    exact Bool.and_eq_true_iff.mpr
      ⟨Bool.and_eq_true_iff.mpr ⟨keys, sameValue_mono values⟩, sameFields_mono second⟩
end

/-- Equal values are equal for the library. -/
theorem libraryEq_of_jsonEq {a b : Json} (same : jsonEq a b = true) : libraryEq a b = true :=
  sameValue_mono same

end Svp.Validation

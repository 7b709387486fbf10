import Mathlib

/-!
# LEB128 numbers of any size

A number is written in groups of seven bits, lowest first; every byte but the last has
its high bit set. `leb128First` reads one number of any size and `leb128Numbers` all of
them. The list says how many bytes each number takes, the flag whether the bytes end with
a number.
-/

namespace Svp.Lib

structure Leb128Number where
  value : Nat
  size : Nat
deriving DecidableEq

/-- The first number, of which `size` bytes with that `value` are already read, and what
follows it. -/
def leb128First : (value size : Nat) → List UInt8 → Option (Leb128Number × List UInt8)
  | _, _, [] => none
  | value, size, byte :: rest =>
    let value := value + byte.toNat % 128 * 128 ^ size
    if byte < 128 then some (⟨value, size + 1⟩, rest) else leb128First value (size + 1) rest

def leb128From : (value size : Nat) → List UInt8 → List Leb128Number × Bool
  | _, size, [] => ([], decide (size = 0))
  | value, size, byte :: rest =>
    let value := value + byte.toNat % 128 * 128 ^ size
    if byte < 128 then
      let later := leb128From 0 0 rest
      (⟨value, size + 1⟩ :: later.1, later.2)
    else leb128From value (size + 1) rest

def leb128Numbers (bytes : List UInt8) : List Leb128Number × Bool := leb128From 0 0 bytes

theorem leb128First_some {value size : Nat} {bytes rest : List UInt8} {number : Leb128Number}
    (first : leb128First value size bytes = some (number, rest)) :
    leb128From value size bytes =
        (number :: (leb128Numbers rest).1, (leb128Numbers rest).2) ∧
      rest.length < bytes.length ∧ size < number.size := by
  induction bytes generalizing value size with
  | nil => cases first
  | cons byte later ih =>
    rw [leb128First] at first
    rw [leb128From]
    dsimp only at first ⊢
    split at first
    · next last =>
      cases first
      rw [if_pos last]
      exact ⟨rfl, Nat.lt_succ_self _, Nat.lt_succ_self _⟩
    · next more =>
      obtain ⟨numbers, shorter, longer⟩ := ih first
      rw [if_neg more]
      exact ⟨numbers, shorter.trans (Nat.lt_succ_self _), size.lt_succ_self.trans longer⟩

theorem leb128First_none {value size : Nat} {bytes : List UInt8}
    (first : leb128First value size bytes = none) :
    leb128From value size bytes = ([], decide (size = 0 ∧ bytes = [])) := by
  induction bytes generalizing value size with
  | nil => simp [leb128From]
  | cons byte later ih =>
    rw [leb128First] at first
    rw [leb128From]
    dsimp only at first ⊢
    split at first
    · cases first
    · next more =>
      rw [if_neg more, ih first]
      simp

/-- The numbers of a string, one after the other. -/
theorem leb128Numbers_some {bytes rest : List UInt8} {number : Leb128Number}
    (first : leb128First 0 0 bytes = some (number, rest)) :
    leb128Numbers bytes = (number :: (leb128Numbers rest).1, (leb128Numbers rest).2) :=
  (leb128First_some first).1

theorem leb128Numbers_none {bytes : List UInt8} (first : leb128First 0 0 bytes = none) :
    leb128Numbers bytes = ([], decide (bytes = [])) := by
  rw [leb128Numbers, leb128First_none first]
  simp

end Svp.Lib

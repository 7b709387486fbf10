import Mathlib

/-!
# Byte strings in order

Bytes compare as unsigned numbers and byte strings lexicographically. A string
comes before everything that extends it. The order of bytes is there where
`ByteStrings` is opened.
-/

namespace Svp.Lib

namespace ByteStrings

scoped instance byteOrder : LinearOrder UInt8 where
  le_refl := UInt8.le_refl
  le_trans _ _ _ := UInt8.le_trans
  le_antisymm _ _ := UInt8.le_antisymm
  le_total := UInt8.le_total
  lt_iff_le_not_ge a b := by
    rw [UInt8.not_le, and_iff_right_of_imp]
    exact UInt8.le_of_lt
  toDecidableLE := inferInstance
  toDecidableLT := inferInstance
  toDecidableEq := inferInstance

end ByteStrings

theorem le_of_isPrefix {α : Type} [LinearOrder α] {a b : List α} (before : a <+: b) : a ≤ b := by
  induction a generalizing b with
  | nil => exact le_of_not_gt (List.not_lt_nil b)
  | cons x a ih =>
    obtain ⟨tail, rfl⟩ := before
    exact List.cons_le_cons x (ih (List.prefix_append a tail))

end Svp.Lib

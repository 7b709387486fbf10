import Svp.Lib.ByteOrder

/-!
# Input streams

A stream over a file has a position and a state: a read that finds fewer bytes than it
asks for takes those it finds and fails the stream, and a failed stream does nothing
more. Positions behind the end of the file are reached by skipping only.
-/

namespace Svp.Lib

structure InputStream where
  position : Nat := 0
  failed : Bool := false
deriving DecidableEq

namespace InputStream

variable (file : List UInt8)

def read (count : Nat) (input : InputStream) : List UInt8 × InputStream :=
  if input.failed then ([], input)
  else
    let found := (file.drop input.position).take count
    (found, ⟨input.position + found.length, decide (found.length < count)⟩)

def skip (count : Nat) (input : InputStream) : InputStream :=
  if input.failed then input else ⟨input.position + count, false⟩

/-- A little-endian number read over `old`: what is not found keeps its bytes. -/
def readUnsigned (width old : Nat) (input : InputStream) : Nat × InputStream :=
  let found := input.read file width
  (ofLittleEndian (found.1 ++ (littleEndian width old).drop found.1.length), found.2)

variable {file} {input : InputStream} {count : Nat}

theorem position_le_read : input.position ≤ (input.read file count).2.position := by
  unfold read
  split
  · exact le_rfl
  · exact Nat.le_add_right _ _

theorem position_le_skip : input.position ≤ (input.skip count).position := by
  unfold skip
  split
  · exact le_rfl
  · exact Nat.le_add_right _ _

/-- A read that does not fail finds all of its bytes in the file. -/
theorem read_ok (some : 0 < count) (ok : (input.read file count).2.failed = false) :
    input.failed = false ∧ input.position + count ≤ file.length ∧
      input.read file count = ((file.drop input.position).take count, ⟨input.position + count, false⟩) := by
  unfold read at ok ⊢
  split at ok
  · next failed => exact absurd (failed.symm.trans ok) (Bool.false_ne_true ·.symm)
  · next going =>
    have enough : count ≤ ((file.drop input.position).take count).length :=
      not_lt.mp (of_decide_eq_false ok)
    have length : ((file.drop input.position).take count).length = count :=
      (List.length_take_le _ _).antisymm enough
    rw [List.length_take, List.length_drop] at enough
    have room := enough.trans (min_le_right _ _)
    refine ⟨Bool.eq_false_iff.mpr going, by omega, ?_⟩
    rw [if_neg going]
    dsimp only
    rw [length, decide_eq_false (lt_irrefl count)]

theorem read_of_room (going : input.failed = false) (room : input.position + count ≤ file.length) :
    input.read file count = ((file.drop input.position).take count, ⟨input.position + count, false⟩) := by
  have length : ((file.drop input.position).take count).length = count := by
    rw [List.length_take, List.length_drop]
    exact min_eq_left (Nat.le_sub_of_add_le' room)
  unfold read
  rw [if_neg (Bool.eq_false_iff.mp going)]
  dsimp only
  rw [length, decide_eq_false (lt_irrefl count)]

theorem readUnsigned_lt {width old : Nat} :
    (input.readUnsigned file width old).1 < 256 ^ width := by
  have length : (input.read file width).1.length ≤ width := by
    unfold read
    split
    · exact Nat.zero_le _
    · exact List.length_take_le _ _
  have bound := ofLittleEndian_lt ((input.read file width).1 ++
    (littleEndian width old).drop (input.read file width).1.length)
  rwa [List.length_append, List.length_drop, length_littleEndian, Nat.add_sub_cancel' length] at bound

end InputStream

end Svp.Lib

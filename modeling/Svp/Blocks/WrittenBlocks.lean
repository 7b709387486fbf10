import Svp.Blocks.BlockRoundTrip

/-!
# Where written blocks stand

A block that is accepted has the same bytes wherever it is written, `blockBytes`; only its
record says where it stands. So a stream is its blocks one behind the other, and each is read
back from where its record says (`writeBlocks_eq_ok`, `slice_blockInfos`).
-/

namespace Svp.Blocks

open Exec (Bytes Blake3Digest)
open Lib (slice)

variable {σ : Type} (zstd : Zstd σ) (blake3 : Bytes → Blake3Digest)

/-- The writers accept the block: it has a payload, which compresses to a frame. -/
def Accepted (block : BlockWriteSpec × Bytes) : Prop :=
  block.2 ≠ [] ∧ ∃ frame, zstd.compress block.2 = .ok frame ∧ frame ≠ []

/-- The bytes of a block. -/
def blockBytes (block : BlockWriteSpec × Bytes) : Bytes :=
  match zstd.compress block.2 with
  | .ok frame => writtenHeaderBytes blake3 block.1 block.2 frame ++ frame
  | .error _ => []

/-- The record of a block that is written at `offset`. -/
def blockInfo (offset : Nat) (block : BlockWriteSpec × Bytes) : WrittenBlockInfo :=
  match zstd.compress block.2 with
  | .ok frame => writtenInfo blake3 block.1 block.2 frame offset
  | .error _ => makeBlockInfo offset 0 block.2.length default default

/-- The records of blocks that are written one behind the other. -/
def blockInfos : Nat → List (BlockWriteSpec × Bytes) → List WrittenBlockInfo
  | _, [] => []
  | offset, block :: rest =>
    blockInfo zstd blake3 offset block ::
      blockInfos (offset + (blockBytes zstd blake3 block).length) rest

variable {zstd} {blake3}

theorem length_blockInfos (offset : Nat) (blocks : List (BlockWriteSpec × Bytes)) :
    (blockInfos zstd blake3 offset blocks).length = blocks.length := by
  induction blocks generalizing offset with
  | nil => rfl
  | cons block rest ih => rw [blockInfos, List.length_cons, List.length_cons, ih]

@[simp] theorem blockInfo_offset (offset : Nat) (block : BlockWriteSpec × Bytes) :
    (blockInfo zstd blake3 offset block).blockOffset = offset := by
  unfold blockInfo
  split <;> rfl

@[simp] theorem blockInfo_payloadOffset (offset : Nat) (block : BlockWriteSpec × Bytes) :
    (blockInfo zstd blake3 offset block).payloadOffset = offset + kBlockHeaderSize := by
  unfold blockInfo
  split <;> rfl

theorem blockInfo_uncompressedSize (offset : Nat) (block : BlockWriteSpec × Bytes) :
    (blockInfo zstd blake3 offset block).uncompressedSize = block.2.length := by
  unfold blockInfo
  split <;> rfl

theorem blockInfo_blockLength (offset : Nat) (block : BlockWriteSpec × Bytes) :
    (blockInfo zstd blake3 offset block).blockLength =
      kBlockHeaderSize + (blockInfo zstd blake3 offset block).compressedSize := by
  unfold blockInfo
  split <;> rfl

/-- Moving a block changes the offsets of its record only. -/
theorem blockInfo_moved (offset other : Nat) (block : BlockWriteSpec × Bytes) :
    { blockInfo zstd blake3 offset block with
      blockOffset := other, payloadOffset := other + kBlockHeaderSize } =
      blockInfo zstd blake3 other block := by
  unfold blockInfo
  split <;> rfl

/-- The length a record says is the length of the block. -/
theorem blockInfo_length {block : BlockWriteSpec × Bytes} (accepted : Accepted zstd block)
    (offset : Nat) :
    (blockInfo zstd blake3 offset block).blockLength = (blockBytes zstd blake3 block).length := by
  obtain ⟨-, frame, compressed, -⟩ := accepted
  rw [blockInfo, blockBytes, compressed]
  dsimp only
  rw [List.length_append, length_writtenHeaderBytes]
  rfl

/-- Behind its header a block is the frame of its payload. -/
theorem drop_blockBytes {block : BlockWriteSpec × Bytes} {frame : Bytes}
    (compressed : zstd.compress block.2 = .ok frame) :
    kBlockHeaderSize ≤ (blockBytes zstd blake3 block).length ∧
      (blockBytes zstd blake3 block).drop kBlockHeaderSize = frame := by
  rw [blockBytes, compressed]
  dsimp only
  rw [List.length_append, length_writtenHeaderBytes]
  exact ⟨Nat.le_add_right _ _, List.drop_left' (length_writtenHeaderBytes _ _ _ _)⟩

/-! ## Streams -/

theorem writeBlock_eq_ok_iff {spec : BlockWriteSpec} {payload outputStream : Bytes}
    {result : Bytes × WrittenBlockInfo} :
    writeBlock zstd blake3 outputStream spec payload = .ok result ↔
      Accepted zstd (spec, payload) ∧
        result = (outputStream ++ blockBytes zstd blake3 (spec, payload),
          blockInfo zstd blake3 outputStream.length (spec, payload)) := by
  rw [writeBlock_eq_ok]
  constructor
  · rintro ⟨some_, frame, compressed, nonempty, rfl⟩
    refine ⟨⟨some_, frame, compressed, nonempty⟩, ?_⟩
    simp only [blockBytes, blockInfo, compressed]
  · rintro ⟨⟨some_, frame, compressed, nonempty⟩, rfl⟩
    refine ⟨some_, frame, compressed, nonempty, ?_⟩
    simp only [blockBytes, blockInfo, compressed]

/-- Writing blocks appends their bytes, and records where each one stands. -/
theorem writeBlocks_eq_ok {blocks : List (BlockWriteSpec × Bytes)} {outputStream : Bytes}
    {result : Bytes × List WrittenBlockInfo} :
    writeBlocks (writeBlock zstd blake3) blocks outputStream = .ok result ↔
      (∀ block ∈ blocks, Accepted zstd block) ∧
        result = (outputStream ++ blocks.flatMap (blockBytes zstd blake3),
          blockInfos zstd blake3 outputStream.length blocks) := by
  induction blocks generalizing outputStream result with
  | nil =>
    rw [writeBlocks, List.flatMap_nil, List.append_nil, blockInfos, Except.ok.injEq,
      and_iff_right (List.forall_mem_nil _), eq_comm]
  | cons block rest ih =>
    obtain ⟨spec, payload⟩ := block
    obtain ⟨stream, infos⟩ := result
    rw [writeBlocks_cons, List.flatMap_cons, blockInfos, List.forall_mem_cons]
    constructor
    · rintro ⟨next, info, later, first, others, rfl⟩
      obtain ⟨accepted, same⟩ := writeBlock_eq_ok_iff.mp first
      obtain ⟨rfl, rfl⟩ := Prod.mk.inj same
      obtain ⟨allAccepted, same⟩ := ih.mp others
      obtain ⟨rfl, rfl⟩ := Prod.mk.inj same
      refine ⟨⟨accepted, allAccepted⟩, ?_⟩
      rw [List.append_assoc, List.length_append]
    · rintro ⟨⟨accepted, allAccepted⟩, same⟩
      obtain ⟨rfl, rfl⟩ := Prod.mk.inj same
      refine ⟨_, _, _, writeBlock_eq_ok_iff.mpr ⟨accepted, rfl⟩, ih.mpr ⟨allAccepted, ?_⟩, rfl⟩
      rw [List.append_assoc, List.length_append]

/-- Each record says where its block is found in the stream. -/
theorem slice_blockInfos {blocks : List (BlockWriteSpec × Bytes)}
    (accepted : ∀ block ∈ blocks, Accepted zstd block) (before : Bytes)
    {entry : (BlockWriteSpec × Bytes) × WrittenBlockInfo}
    (mem : entry ∈ blocks.zip (blockInfos zstd blake3 before.length blocks)) :
    entry.2 = blockInfo zstd blake3 entry.2.blockOffset entry.1 ∧
      entry.2.blockOffset + entry.2.blockLength ≤
        (before ++ blocks.flatMap (blockBytes zstd blake3)).length ∧
      slice (before ++ blocks.flatMap (blockBytes zstd blake3)) entry.2.blockOffset
        entry.2.blockLength = blockBytes zstd blake3 entry.1 := by
  induction blocks generalizing before with
  | nil => cases mem
  | cons block rest ih =>
    obtain ⟨first, others⟩ := List.forall_mem_cons.mp accepted
    rw [blockInfos, List.zip_cons_cons] at mem
    rcases List.mem_cons.mp mem with rfl | mem
    · rw [List.flatMap_cons]
      dsimp only
      rw [blockInfo_offset, blockInfo_length first]
      refine ⟨rfl, ?_, Lib.slice_whole _ _ _⟩
      rw [List.length_append, List.length_append]
      exact Nat.add_le_add_left (Nat.le_add_right _ _) _
    · rw [List.flatMap_cons, ← List.append_assoc]
      rw [← List.length_append] at mem
      exact ih others _ mem

end Svp.Blocks

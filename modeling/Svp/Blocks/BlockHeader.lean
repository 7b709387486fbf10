import Svp.Exec.Digest
import Svp.Lib.ByteOrder
import Svp.Lib.Tiling

/-!
# The SVPB block header

`makeBlockHeader` writes the 160-byte header of a block and `parseHeader` reads
one. Both are tables of offsets; `parseHeader_headerBytes` says the two tables
agree field by field.
-/

namespace Svp.Blocks

open Exec (Bytes Blake3Digest utf8)
open Lib (slice placed overwrite littleEndian ofLittleEndian)

def kBlockHeaderSize : Nat := 160

def kMaxBlockPayloadBytes : UInt64 := 512 * 1024 * 1024

def kCompressionZstd : UInt8 := 0x01

def kEndianLittle : UInt8 := 0x01

def kHashSize : Nat := 32

/-- A start frame that says there is no frame range. -/
def kNonFrameStart : UInt64 := 0xffffffffffffffff

inductive BlockType
  | depth
  | mask
  | embedding
deriving DecidableEq

def BlockType.code : BlockType → UInt8
  | .depth => 0x01
  | .mask => 0x02
  | .embedding => 0x03

inductive DType
  | uint8
  | uint16
  | float16
  | float32
  | bitpackedLsbFirst
  | svpRleV1
deriving DecidableEq

def DType.code : DType → UInt32
  | .uint8 => 1
  | .uint16 => 2
  | .float16 => 3
  | .float32 => 4
  | .bitpackedLsbFirst => 5
  | .svpRleV1 => 6

structure BlockHeaderV1 where
  offset : Nat
  version : UInt16
  headerSize : UInt16
  blockType : UInt8
  compression : UInt8
  endian : UInt8
  flags : UInt8
  uncompressedSize : UInt64
  compressedSize : UInt64
  extent0 : UInt32
  extent1 : UInt32
  extent2 : UInt32
  dtype : UInt32
  startFrame : UInt64
  frameCount : UInt64
  startUs : Int64
  endUs : Int64
  payloadBlake3 : Bytes
  headerBlake3 : Bytes
deriving DecidableEq

structure BlockWriteSpec where
  blockType : BlockType := .depth
  extent0 : UInt32 := 0
  extent1 : UInt32 := 0
  extent2 : UInt32 := 0
  dtype : DType := .uint16
  startFrame : UInt64 := 0
  frameCount : UInt64 := 0
  startUs : Int64 := -1
  endUs : Int64 := -1
deriving DecidableEq

/-! ## Fields -/

def writeU16Le (value : UInt16) : Bytes := littleEndian 2 value.toNat

def writeU32Le (value : UInt32) : Bytes := littleEndian 4 value.toNat

def writeU64Le (value : UInt64) : Bytes := littleEndian 8 value.toNat

/-- A signed value is written as the unsigned one with the same bits. -/
def writeI64Le (value : Int64) : Bytes := writeU64Le value.toUInt64

def readU8 (bytes : Bytes) (offset : Nat) : UInt8 := .ofNat (ofLittleEndian (slice bytes offset 1))

def readU16Le (bytes : Bytes) (offset : Nat) : UInt16 :=
  .ofNat (ofLittleEndian (slice bytes offset 2))

def readU32Le (bytes : Bytes) (offset : Nat) : UInt32 :=
  .ofNat (ofLittleEndian (slice bytes offset 4))

def readU64Le (bytes : Bytes) (offset : Nat) : UInt64 :=
  .ofNat (ofLittleEndian (slice bytes offset 8))

def readI64Le (bytes : Bytes) (offset : Nat) : Int64 := (readU64Le bytes offset).toInt64

def readHash (bytes : Bytes) (offset : Nat) : Bytes := slice bytes offset kHashSize

theorem readU8_of {bytes : Bytes} {offset : Nat} {value : UInt8}
    (field : slice bytes offset 1 = [value]) : readU8 bytes offset = value := by
  rw [readU8, field]
  show UInt8.ofNat (value.toNat + 256 * 0) = value
  rw [Nat.mul_zero, Nat.add_zero, UInt8.ofNat_toNat]

theorem readU16Le_of {bytes : Bytes} {offset : Nat} {value : UInt16}
    (field : slice bytes offset 2 = writeU16Le value) : readU16Le bytes offset = value := by
  rw [readU16Le, field, writeU16Le, Lib.ofLittleEndian_littleEndian value.toNat_lt, UInt16.ofNat_toNat]

theorem readU32Le_of {bytes : Bytes} {offset : Nat} {value : UInt32}
    (field : slice bytes offset 4 = writeU32Le value) : readU32Le bytes offset = value := by
  rw [readU32Le, field, writeU32Le, Lib.ofLittleEndian_littleEndian value.toNat_lt, UInt32.ofNat_toNat]

theorem readU64Le_of {bytes : Bytes} {offset : Nat} {value : UInt64}
    (field : slice bytes offset 8 = writeU64Le value) : readU64Le bytes offset = value := by
  rw [readU64Le, field, writeU64Le, Lib.ofLittleEndian_littleEndian value.toNat_lt, UInt64.ofNat_toNat]

theorem readI64Le_of {bytes : Bytes} {offset : Nat} {value : Int64}
    (field : slice bytes offset 8 = writeI64Le value) : readI64Le bytes offset = value := by
  rw [readI64Le, readU64Le_of field, Int64.toInt64_toUInt64]

/-! ## Writing -/

/-- The header's fields with their offsets. -/
def headerFields (spec : BlockWriteSpec) (uncompressedSize compressedSize : UInt64)
    (payloadHash headerHash : Bytes) : List (Nat × Bytes) :=
  [(0, utf8 "SVPB"), (4, writeU16Le 1), (6, writeU16Le (.ofNat kBlockHeaderSize)),
    (8, [spec.blockType.code]), (9, [kCompressionZstd]), (10, [kEndianLittle]), (11, [0]),
    (12, writeU64Le uncompressedSize), (20, writeU64Le compressedSize),
    (28, writeU32Le spec.extent0), (32, writeU32Le spec.extent1), (36, writeU32Le spec.extent2),
    (40, writeU32Le spec.dtype.code), (44, writeU64Le spec.startFrame),
    (52, writeU64Le spec.frameCount), (60, writeI64Le spec.startUs), (68, writeI64Le spec.endUs),
    (76, payloadHash), (108, headerHash), (140, List.replicate 20 0)]

def headerBytes (spec : BlockWriteSpec) (uncompressedSize compressedSize : UInt64)
    (payloadHash headerHash : Bytes) : Bytes :=
  ((headerFields spec uncompressedSize compressedSize payloadHash headerHash).map Prod.snd).flatten

/-- The hash of a header with the place of the hash itself zeroed. -/
def computeHeaderBlake3 (blake3 : Bytes → Blake3Digest) (headerBytes : Bytes) : Blake3Digest :=
  blake3 (overwrite headerBytes 108 (List.replicate kHashSize 0))

/-- The header of a block, and its hash. -/
def makeBlockHeader (blake3 : Bytes → Blake3Digest) (spec : BlockWriteSpec)
    (uncompressedSize compressedSize : UInt64) (payloadHash : Blake3Digest) : Bytes × Blake3Digest :=
  let header := headerBytes spec uncompressedSize compressedSize payloadHash.bytes
    (List.replicate kHashSize 0)
  let headerHash := computeHeaderBlake3 blake3 header
  (overwrite header 108 headerHash.bytes, headerHash)

/-! ## Reading -/

def parseHeader (bytes : Bytes) (offset : Nat) : BlockHeaderV1 where
  offset := offset
  version := readU16Le bytes 4
  headerSize := readU16Le bytes 6
  blockType := readU8 bytes 8
  compression := readU8 bytes 9
  endian := readU8 bytes 10
  flags := readU8 bytes 11
  uncompressedSize := readU64Le bytes 12
  compressedSize := readU64Le bytes 20
  extent0 := readU32Le bytes 28
  extent1 := readU32Le bytes 32
  extent2 := readU32Le bytes 36
  dtype := readU32Le bytes 40
  startFrame := readU64Le bytes 44
  frameCount := readU64Le bytes 52
  startUs := readI64Le bytes 60
  endUs := readI64Le bytes 68
  payloadBlake3 := readHash bytes 76
  headerBlake3 := readHash bytes 108

def isHeaderMagicValid (bytes : Bytes) : Bool := slice bytes 0 4 == utf8 "SVPB"

def reservedBytesAreZero (bytes : Bytes) : Bool := (slice bytes 140 20).all (· == 0)

/-- The header a block was written with, as the reader reports it. -/
def writtenHeader (spec : BlockWriteSpec) (offset : Nat) (uncompressedSize compressedSize : UInt64)
    (payloadHash headerHash : Bytes) : BlockHeaderV1 where
  offset := offset
  version := 1
  headerSize := .ofNat kBlockHeaderSize
  blockType := spec.blockType.code
  compression := kCompressionZstd
  endian := kEndianLittle
  flags := 0
  uncompressedSize := uncompressedSize
  compressedSize := compressedSize
  extent0 := spec.extent0
  extent1 := spec.extent1
  extent2 := spec.extent2
  dtype := spec.dtype.code
  startFrame := spec.startFrame
  frameCount := spec.frameCount
  startUs := spec.startUs
  endUs := spec.endUs
  payloadBlake3 := payloadHash
  headerBlake3 := headerHash

section Written

variable {spec : BlockWriteSpec} {uncompressedSize compressedSize : UInt64}
  {payloadHash headerHash : Bytes}

/-- The offsets of the table are where the fields stand. -/
theorem headerFields_placed (payloadSize : payloadHash.length = kHashSize)
    (headerSize : headerHash.length = kHashSize) :
    placed 0 ((headerFields spec uncompressedSize compressedSize payloadHash headerHash).map Prod.snd) =
      headerFields spec uncompressedSize compressedSize payloadHash headerHash := by
  have magic : (utf8 "SVPB").length = 4 := by decide
  simp only [headerFields, List.map_cons, List.map_nil, placed, magic, writeI64Le, writeU16Le,
    writeU32Le, writeU64Le, Lib.length_littleEndian, List.length_singleton, payloadSize, headerSize,
    kHashSize, Nat.reduceAdd]

theorem headerBytes_slice (payloadSize : payloadHash.length = kHashSize)
    (headerSize : headerHash.length = kHashSize) {offset : Nat} {field : Bytes}
    (mem : (offset, field) ∈
      headerFields spec uncompressedSize compressedSize payloadHash headerHash) :
    slice (headerBytes spec uncompressedSize compressedSize payloadHash headerHash) offset
      field.length = field := by
  rw [← headerFields_placed payloadSize headerSize] at mem
  exact Lib.slice_placed mem

theorem length_headerBytes (payloadSize : payloadHash.length = kHashSize)
    (headerSize : headerHash.length = kHashSize) :
    (headerBytes spec uncompressedSize compressedSize payloadHash headerHash).length =
      kBlockHeaderSize := by
  have magic : (utf8 "SVPB").length = 4 := by decide
  simp only [headerBytes, headerFields, List.map_cons, List.map_nil, List.flatten_cons,
    List.flatten_nil, List.length_append, magic, writeI64Le, writeU16Le, writeU32Le, writeU64Le,
    Lib.length_littleEndian, List.length_singleton, payloadSize, headerSize, kHashSize,
    List.length_replicate, List.length_nil, Nat.reduceAdd, kBlockHeaderSize]

/-- Replacing the header hash of a written header. -/
theorem overwrite_headerBytes (payloadSize : payloadHash.length = kHashSize)
    (headerSize : headerHash.length = kHashSize) {other : Bytes} (otherSize : other.length = kHashSize) :
    overwrite (headerBytes spec uncompressedSize compressedSize payloadHash headerHash) 108 other =
      headerBytes spec uncompressedSize compressedSize payloadHash other := by
  let front := ((headerFields spec uncompressedSize compressedSize payloadHash headerHash).take
    18).map Prod.snd
  have split : ∀ hash : Bytes,
      headerBytes spec uncompressedSize compressedSize payloadHash hash =
        front.flatten ++ (hash ++ List.replicate 20 0) := by
    intro hash
    simp only [headerBytes, headerFields, front, List.take_succ_cons, List.take_zero, List.map_cons,
      List.map_nil, List.flatten_cons, List.flatten_nil, List.append_assoc, List.append_nil]
  have start : front.flatten.length = 108 := by
    have magic : (utf8 "SVPB").length = 4 := by decide
    simp only [front, headerFields, List.take_succ_cons, List.take_zero, List.map_cons, List.map_nil,
      List.flatten_cons, List.flatten_nil, List.length_append, magic, writeI64Le, writeU16Le,
      writeU32Le, writeU64Le, Lib.length_littleEndian, List.length_singleton, payloadSize, kHashSize,
      List.length_nil, Nat.reduceAdd]
  rw [split headerHash, split other, ← start]
  exact Lib.overwrite_part _ _ _ _ (headerSize.trans otherSize.symm)

theorem parseHeader_headerBytes (payloadSize : payloadHash.length = kHashSize)
    (headerSize : headerHash.length = kHashSize) (offset : Nat) :
    parseHeader (headerBytes spec uncompressedSize compressedSize payloadHash headerHash) offset =
      writtenHeader spec offset uncompressedSize compressedSize payloadHash headerHash := by
  let fields := headerFields spec uncompressedSize compressedSize payloadHash headerHash
  let bytes := headerBytes spec uncompressedSize compressedSize payloadHash headerHash
  have field : ∀ {at_ : Nat} {value : Bytes}, (at_, value) ∈ fields →
      slice bytes at_ value.length = value := headerBytes_slice payloadSize headerSize
  have u8 : ∀ {at_ value}, (at_, [value]) ∈ fields → readU8 bytes at_ = value :=
    fun mem => readU8_of (field mem)
  have u16 : ∀ {at_ value}, (at_, writeU16Le value) ∈ fields → readU16Le bytes at_ = value :=
    fun mem => readU16Le_of (by simpa only [writeU16Le, Lib.length_littleEndian] using field mem)
  have u32 : ∀ {at_ value}, (at_, writeU32Le value) ∈ fields → readU32Le bytes at_ = value :=
    fun mem => readU32Le_of (by simpa only [writeU32Le, Lib.length_littleEndian] using field mem)
  have u64 : ∀ {at_ value}, (at_, writeU64Le value) ∈ fields → readU64Le bytes at_ = value :=
    fun mem => readU64Le_of (by simpa only [writeU64Le, Lib.length_littleEndian] using field mem)
  have i64 : ∀ {at_ value}, (at_, writeI64Le value) ∈ fields → readI64Le bytes at_ = value :=
    fun mem => readI64Le_of (by
      simpa only [writeI64Le, writeU64Le, Lib.length_littleEndian] using field mem)
  have hash : ∀ {at_} {value : Bytes}, value.length = kHashSize → (at_, value) ∈ fields →
      readHash bytes at_ = value := by
    intro at_ value size mem
    rw [readHash, ← size]
    exact field mem
  have mem := fun entry => @List.mem_iff_getElem? _ entry fields
  show parseHeader bytes offset = _
  simp only [parseHeader, writtenHeader, BlockHeaderV1.mk.injEq]
  refine ⟨trivial, u16 ((mem _).mpr ⟨1, rfl⟩), u16 ((mem _).mpr ⟨2, rfl⟩), u8 ((mem _).mpr ⟨3, rfl⟩),
    u8 ((mem _).mpr ⟨4, rfl⟩), u8 ((mem _).mpr ⟨5, rfl⟩), u8 ((mem _).mpr ⟨6, rfl⟩),
    u64 ((mem _).mpr ⟨7, rfl⟩), u64 ((mem _).mpr ⟨8, rfl⟩), u32 ((mem _).mpr ⟨9, rfl⟩),
    u32 ((mem _).mpr ⟨10, rfl⟩), u32 ((mem _).mpr ⟨11, rfl⟩), u32 ((mem _).mpr ⟨12, rfl⟩),
    u64 ((mem _).mpr ⟨13, rfl⟩), u64 ((mem _).mpr ⟨14, rfl⟩), i64 ((mem _).mpr ⟨15, rfl⟩),
    i64 ((mem _).mpr ⟨16, rfl⟩), hash payloadSize ((mem _).mpr ⟨17, rfl⟩),
    hash headerSize ((mem _).mpr ⟨18, rfl⟩)⟩

end Written

end Svp.Blocks

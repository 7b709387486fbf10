import Svp.Blocks.BlockHeader

/-!
# The block stream: parser and writers

`parseBlockStream` reads a stream of blocks and collects headers and issues.
`writeBlock` appends a block to a byte vector and `writeBlockToStream` to an
output stream. Zstandard is a library outside the repository, here a `Zstd`; the
parser's inner loop has no bound of its own, so the parser takes `fuel` and
returns nothing where it runs out.
-/

namespace Svp.Blocks

open Exec (Bytes Blake3Digest utf8)
open Lib (slice overwrite)

def kMaxU64 : Nat := 2 ^ 64 - 1

def kPayloadChunkSize : Nat := 64 * 1024

/-! ## Zstandard -/

/-- One call of the streaming decompressor. -/
structure ZstdStep (σ : Type) where
  stream : σ
  /-- How far the input position moved. -/
  consumed : Nat
  /-- What was put into the output buffer. -/
  produced : Bytes
  /-- Zero when the frame is decoded and flushed. -/
  result : Nat

/-- The library: `ZSTD_compress`, and a decompression stream with state `σ`. -/
structure Zstd (σ : Type) where
  compress : Bytes → Except String Bytes
  createDStream : Option σ
  initDStream : σ → Except String σ
  /-- One call, given the input left and the size of the output buffer. -/
  decompressStream : σ → Bytes → Nat → Except String (ZstdStep σ)

/-! ## Validation -/

inductive IssueKind
  | invalidHeader
  | invalidHash
  | decompressionFailed
  | forbiddenBlockType
  | rasterExtentMismatch
deriving DecidableEq

structure BlockStreamIssue where
  kind : IssueKind
  offset : Nat
  message : String
deriving DecidableEq

structure RasterExtent where
  width : UInt32
  height : UInt32
deriving DecidableEq

structure ParseOptions where
  requiredBlockType : Option BlockType := none
  requiredRasterExtent : Option RasterExtent := none
  maxCompressedPayloadBytes : UInt64 := kMaxBlockPayloadBytes
  maxUncompressedPayloadBytes : UInt64 := kMaxBlockPayloadBytes
  verifyHashes : Bool := true
  verifyZstdDecompression : Bool := true
  allowEmpty : Bool := false

structure ParseResult where
  blocks : List BlockHeaderV1 := []
  issues : List BlockStreamIssue := []
deriving DecidableEq

def ParseResult.addIssue (result : ParseResult) (issue : BlockStreamIssue) : ParseResult :=
  { result with issues := result.issues ++ [issue] }

def checkedMultiply (lhs rhs : Nat) : Option Nat :=
  if lhs ≠ 0 ∧ kMaxU64 / lhs < rhs then none else some (lhs * rhs)

def checkedAdd (lhs rhs : Nat) : Option Nat :=
  if kMaxU64 - lhs < rhs then none else some (lhs + rhs)

def isStrictBlockType (blockType : UInt8) : Bool :=
  blockType == BlockType.depth.code || blockType == BlockType.mask.code ||
    blockType == BlockType.embedding.code

def isTimeRangeValid (header : BlockHeaderV1) : Bool :=
  (header.startUs == -1 && header.endUs == -1) ||
    (decide (0 ≤ header.startUs) && decide (header.startUs < header.endUs))

/-- Compares the payload size with what the dimensions imply; a message where it is wrong. -/
def validateUncompressedSize (header : BlockHeaderV1) : Option String :=
  if header.blockType = BlockType.depth.code then
    match (checkedMultiply header.extent0.toNat header.extent1.toNat).bind fun pixels =>
        (checkedMultiply pixels header.frameCount.toNat).bind fun samples =>
          checkedMultiply samples 2 with
    | none => some "Depth block dimensions overflow payload-size calculation."
    | some expected =>
      if header.uncompressedSize.toNat ≠ expected then
        some "Depth block uncompressed_size does not match dimensions and frame_count."
      else none
  else if header.blockType = BlockType.embedding.code then
    match (checkedMultiply header.extent0.toNat header.extent1.toNat).bind fun samples =>
        checkedMultiply samples 4 with
    | none => some "Embedding block dimensions overflow payload-size calculation."
    | some expected =>
      if header.uncompressedSize.toNat ≠ expected then
        some "Embedding block uncompressed_size does not match vector count and dimension."
      else none
  else if header.blockType = BlockType.mask.code ∧
      header.dtype = DType.bitpackedLsbFirst.code then
    match (checkedMultiply header.extent0.toNat header.extent1.toNat).bind fun pixels =>
        checkedMultiply pixels header.extent2.toNat with
    | none => some "Mask block dimensions overflow payload-size calculation."
    | some samples =>
      -- The sum wraps around at 64 bits.
      if header.uncompressedSize.toNat ≠ (samples + 7) % 2 ^ 64 / 8 then
        some "Bitpacked mask uncompressed_size does not match dimensions."
      else none
  else none

def issueIf (found : Bool) (kind : IssueKind) (offset : Nat) (message : String) :
    List BlockStreamIssue :=
  if found then [⟨kind, offset, message⟩] else []

/-- The rules of a block's kind. -/
def kindIssues (header : BlockHeaderV1) : List BlockStreamIssue :=
  if header.blockType = BlockType.depth.code then
    issueIf (header.extent0 == 0 || header.extent1 == 0 || header.extent2 != 1 ||
        header.dtype != DType.uint16.code || header.frameCount == 0 ||
        header.startFrame == kNonFrameStart)
      .invalidHeader header.offset
      "Depth blocks require uint16 image extents, one plane, and a frame range."
  else if header.blockType = BlockType.mask.code then
    issueIf (header.extent0 == 0 || header.extent1 == 0 || header.extent2 == 0 ||
        (header.dtype != DType.bitpackedLsbFirst.code && header.dtype != DType.svpRleV1.code) ||
        header.frameCount == 0 || header.startFrame == kNonFrameStart)
      .invalidHeader header.offset
      "Mask blocks require mask extents, mask dtype, and a frame range."
  else if header.blockType = BlockType.embedding.code then
    issueIf (header.extent0 == 0 || header.extent1 == 0 || header.extent2 != 1 ||
        header.dtype != DType.float32.code || header.frameCount != 0 ||
        header.startFrame != kNonFrameStart)
      .invalidHeader header.offset
      "Embedding blocks require float32 vectors and a non-frame range."
  else []

def rasterMismatch (options : ParseOptions) (header : BlockHeaderV1) : Bool :=
  match options.requiredRasterExtent with
  | none => false
  | some extent =>
    (header.blockType == BlockType.depth.code || header.blockType == BlockType.mask.code) &&
      (header.extent0 != extent.width || header.extent1 != extent.height)

def typeMismatch (options : ParseOptions) (header : BlockHeaderV1) : Bool :=
  match options.requiredBlockType with
  | none => false
  | some blockType => header.blockType != blockType.code

def validateHeader (options : ParseOptions) (bytes : Bytes) (header : BlockHeaderV1) :
    List BlockStreamIssue :=
  issueIf (!isHeaderMagicValid bytes) .invalidHeader header.offset "Block magic must be SVPB." ++
  issueIf (header.version != 1) .invalidHeader header.offset "Block version must be 1." ++
  issueIf (header.headerSize != .ofNat kBlockHeaderSize) .invalidHeader header.offset
    "Block header_size must be 160." ++
  issueIf (header.compression != kCompressionZstd) .invalidHeader header.offset
    "Block compression must be Zstandard code 0x01." ++
  issueIf (header.endian != kEndianLittle) .invalidHeader header.offset
    "Block endian must be little-endian code 0x01." ++
  issueIf (header.flags != 0) .invalidHeader header.offset "Block flags must be zero." ++
  issueIf (!reservedBytesAreZero bytes) .invalidHeader header.offset
    "Block reserved bytes must be zero." ++
  if !isStrictBlockType header.blockType then
    [⟨.forbiddenBlockType, header.offset, "Block type is not allowed in strict v1.0 packages."⟩]
  else
    issueIf (typeMismatch options header) .invalidHeader header.offset
      "Block type does not match the package stream path." ++
    issueIf (header.compressedSize == 0 || header.uncompressedSize == 0) .invalidHeader header.offset
      "Block payload sizes must be nonzero." ++
    issueIf (decide (options.maxCompressedPayloadBytes < header.compressedSize)) .invalidHeader
      header.offset "Block compressed payload exceeds validator size guard." ++
    issueIf (decide (options.maxUncompressedPayloadBytes < header.uncompressedSize)) .invalidHeader
      header.offset "Block uncompressed payload exceeds validator size guard." ++
    issueIf (!isTimeRangeValid header) .invalidHeader header.offset
      "Block time range must be absent or have end_us greater than start_us." ++
    (match validateUncompressedSize header with
      | some message => [⟨.invalidHeader, header.offset, message⟩]
      | none => []) ++
    kindIssues header ++
    issueIf (rasterMismatch options header) .rasterExtentMismatch header.offset
      "Spatial block extents must match manifest canonical_analysis_raster."

/-! ## Payloads -/

/-- Reads the next `count` bytes; where there are fewer, the reader's own message. -/
def readExact (readError : String) (rest : Bytes) (count : Nat) : Except String (Bytes × Bytes) :=
  if rest.length < count then .error readError else .ok (rest.take count, rest.drop count)

/-- A decompression on its way. -/
structure Decompression (σ : Type) where
  stream : σ
  frameComplete : Bool
  decompressedSize : Nat

section Parser

variable {σ : Type} (zstd : Zstd σ) (blake3 : Bytes → Blake3Digest) (options : ParseOptions)
  (readError : String) (fuel : Nat)

/-- The loop over one chunk: calls the library until the chunk is consumed. The
outer option is the fuel, the inner result an issue that ends decompression. -/
def decompressChunk (header : BlockHeaderV1) (payloadOffset : Nat) :
    Nat → Bytes → Decompression σ → Option (Except BlockStreamIssue (Decompression σ))
  | 0, _, _ => none
  | fuel + 1, input, state =>
    if input.isEmpty then some (.ok state)
    else
      match zstd.decompressStream state.stream input kPayloadChunkSize with
      | .error name =>
        some (.error ⟨.decompressionFailed, payloadOffset,
          "Block compressed payload is not valid Zstandard: " ++ name⟩)
      | .ok step =>
        if kMaxU64 - state.decompressedSize < step.produced.length then
          some (.error ⟨.decompressionFailed, payloadOffset,
            "Block decompressed payload size overflowed."⟩)
        else
          let decompressedSize := state.decompressedSize + step.produced.length
          if header.uncompressedSize.toNat < decompressedSize then
            some (.error ⟨.decompressionFailed, payloadOffset,
              "Block decompressed payload exceeds declared uncompressed_size."⟩)
          else
            decompressChunk header payloadOffset fuel (input.drop step.consumed)
              { stream := step.stream, frameComplete := step.result == 0, decompressedSize }

/-- What reading a payload has done so far. The decompression is gone where it
was not asked for or has failed. -/
structure PayloadState (σ : Type) where
  hashed : Bytes
  decompression : Option (Decompression σ)
  issues : List BlockStreamIssue

/-- Opens the decompression stream. -/
def startDecompression (payloadOffset : Nat) : PayloadState σ :=
  if !options.verifyZstdDecompression then { hashed := [], decompression := none, issues := [] }
  else
    match zstd.createDStream with
    | none =>
      { hashed := [], decompression := none
        issues := [⟨.decompressionFailed, payloadOffset,
          "Could not allocate Zstandard decompression stream."⟩] }
    | some stream =>
      match zstd.initDStream stream with
      | .error name =>
        { hashed := [], decompression := none
          issues := [⟨.decompressionFailed, payloadOffset,
            "Could not initialize Zstandard decompression: " ++ name⟩] }
      | .ok stream =>
        { hashed := [], decompression := some ⟨stream, false, 0⟩, issues := [] }

/-- The bytes left of the stream, the state, and the reader's message where it failed. -/
structure PayloadRead (σ : Type) where
  rest : Bytes
  state : PayloadState σ
  readError : Option String

/-- One chunk: hashed, and decompressed as long as that has not failed. -/
def readChunk (header : BlockHeaderV1) (payloadOffset : Nat) (chunk : Bytes)
    (state : PayloadState σ) : Option (PayloadState σ) :=
  match state.decompression with
  | none => some { state with hashed := state.hashed ++ chunk }
  | some decompression =>
    match decompressChunk zstd header payloadOffset fuel chunk decompression with
    | none => none
    | some (.error issue) =>
      some { hashed := state.hashed ++ chunk, decompression := none
             issues := state.issues ++ [issue] }
    | some (.ok decompression) =>
      some { state with hashed := state.hashed ++ chunk, decompression := some decompression }

/-- The loop over the chunks. Each one is at least a byte, so as many rounds as
bytes are enough. -/
def readPayload (header : BlockHeaderV1) (payloadOffset : Nat) :
    Nat → Nat → Bytes → PayloadState σ → Option (PayloadRead σ)
  | 0, _, rest, state => some { rest, state, readError := none }
  | rounds + 1, remaining, rest, state =>
    if remaining = 0 then some { rest, state, readError := none }
    else
      let size := min remaining kPayloadChunkSize
      match readExact readError rest size with
      | .error message => some { rest, state, readError := some message }
      | .ok (chunk, rest) =>
        match readChunk zstd fuel header payloadOffset chunk state with
        | none => none
        | some state => readPayload header payloadOffset rounds (remaining - size) rest state

/-- The checks once a whole payload was read. -/
def payloadIssues (header : BlockHeaderV1) (payloadOffset : Nat) (state : PayloadState σ) :
    List BlockStreamIssue :=
  issueIf (options.verifyHashes && (blake3 state.hashed).bytes != header.payloadBlake3) .invalidHash
    payloadOffset "Block payload_blake3 does not match compressed payload bytes." ++
  match state.decompression with
  | none => []
  | some decompression =>
    issueIf (!decompression.frameComplete) .decompressionFailed payloadOffset
      "Block compressed payload ended before the Zstandard frame completed." ++
    issueIf (decompression.decompressedSize != header.uncompressedSize.toNat) .decompressionFailed
      payloadOffset "Block decompressed payload size does not match uncompressed_size."

/-- The bytes left after a payload, the issues found in it, and the reader's
message where it failed. -/
def validatePayload (header : BlockHeaderV1) (payloadOffset : Nat) (rest : Bytes) :
    Option (Bytes × List BlockStreamIssue × Option String) :=
  match readPayload zstd readError fuel header payloadOffset header.compressedSize.toNat
      header.compressedSize.toNat rest (startDecompression zstd options payloadOffset) with
  | none => none
  | some read =>
    match read.readError with
    | some message => some (read.rest, read.state.issues, some message)
    | none =>
      some (read.rest,
        read.state.issues ++ payloadIssues blake3 options header payloadOffset read.state, none)

/-! ## The stream -/

/-- The loop over the blocks. Each one is at least a header, so as many rounds as
bytes are enough. -/
def parseBlocks (streamSize : Nat) : Nat → Nat → Bytes → ParseResult → Option ParseResult
  | 0, _, _, result => some result
  | rounds + 1, offset, rest, result =>
    if streamSize ≤ offset then some result
    else if streamSize - offset < kBlockHeaderSize then
      some (result.addIssue
        ⟨.invalidHeader, offset, "Block stream ended before a complete header."⟩)
    else
      match readExact readError rest kBlockHeaderSize with
      | .error message => some (result.addIssue ⟨.invalidHeader, offset, message⟩)
      | .ok (headerBytes, rest) =>
        let header := parseHeader headerBytes offset
        let result : ParseResult :=
          { blocks := result.blocks ++ [header]
            issues := result.issues ++ validateHeader options headerBytes header ++
              issueIf (options.verifyHashes &&
                  (computeHeaderBlake3 blake3 headerBytes).bytes != header.headerBlake3)
                .invalidHash offset "Block header_blake3 does not match header bytes." }
        match checkedAdd offset kBlockHeaderSize with
        | none => some (result.addIssue ⟨.invalidHeader, offset, "Block offset overflow."⟩)
        | some payloadStart =>
          match checkedAdd payloadStart header.compressedSize.toNat with
          | none =>
            some (result.addIssue
              ⟨.invalidHeader, offset, "Block compressed payload range overflows."⟩)
          | some nextOffset =>
            if streamSize < nextOffset then
              some (result.addIssue ⟨.invalidHeader, offset,
                "Block compressed payload extends past the stream length."⟩)
            else if options.maxCompressedPayloadBytes < header.compressedSize ∨
                options.maxUncompressedPayloadBytes < header.uncompressedSize then
              some result
            else
              match validatePayload zstd blake3 options readError fuel header payloadStart rest with
              | none => none
              | some (_, issues, some message) =>
                some ({ result with issues := result.issues ++ issues }.addIssue
                  ⟨.invalidHeader, payloadStart, message⟩)
              | some (rest, issues, none) =>
                parseBlocks streamSize rounds nextOffset rest
                  { result with issues := result.issues ++ issues }

def parseBlockStream (stream : Bytes) : Option ParseResult :=
  if stream.isEmpty then
    some { issues := if options.allowEmpty then [] else
      [⟨.invalidHeader, 0, "Block stream must not be empty."⟩] }
  else parseBlocks zstd blake3 options readError fuel stream.length stream.length 0 stream {}

end Parser

/-! ## Writers -/

structure WrittenBlockInfo where
  blockOffset : Nat
  blockLength : Nat
  payloadOffset : Nat
  uncompressedSize : Nat
  compressedSize : Nat
  payloadBlake3 : Blake3Digest
  headerBlake3 : Blake3Digest
deriving DecidableEq

def makeBlockInfo (blockOffset compressedSize uncompressedSize : Nat)
    (payloadHash headerHash : Blake3Digest) : WrittenBlockInfo where
  blockOffset := blockOffset
  blockLength := kBlockHeaderSize + compressedSize
  payloadOffset := blockOffset + kBlockHeaderSize
  uncompressedSize := uncompressedSize
  compressedSize := compressedSize
  payloadBlake3 := payloadHash
  headerBlake3 := headerHash

section Writers

variable {σ : Type} (zstd : Zstd σ) (blake3 : Bytes → Blake3Digest)

/-- `write_block`: appends a block to a vector. -/
def writeBlock (outputStream : Bytes) (spec : BlockWriteSpec) (payload : Bytes) :
    Except String (Bytes × WrittenBlockInfo) :=
  if payload.isEmpty then .error "Block payload must be nonzero."
  else do
    let compressed ← zstd.compress payload
    if compressed.isEmpty then .error "Zstandard compression produced an empty frame."
    else
      let payloadHash := blake3 compressed
      let (header, headerHash) := makeBlockHeader blake3 spec (.ofNat payload.length)
        (.ofNat compressed.length) payloadHash
      .ok (outputStream ++ header ++ compressed,
        makeBlockInfo outputStream.length compressed.length payload.length payloadHash headerHash)

/-- What an output stream does: whether it knows its position, and which contents
it takes. -/
structure StreamIo where
  positioned : Bytes → Bool
  writes : Bytes → Bool

/-- The stream takes everything. -/
structure StreamIo.Works (io : StreamIo) : Prop where
  positioned : ∀ bytes, io.positioned bytes = true
  writes : ∀ bytes, io.writes bytes = true

/-- `write_block_to_stream`: appends a block to an output stream. -/
def writeBlockToStream (io : StreamIo) (outputStream : Bytes) (spec : BlockWriteSpec)
    (payload : Bytes) : Except String (Bytes × WrittenBlockInfo) :=
  if payload.isEmpty then .error "Block payload must be nonzero."
  else if !io.positioned outputStream then
    .error "Unable to determine block stream write offset."
  else
    let position := outputStream.length
    if kMaxU64 - kBlockHeaderSize < position then .error "Block stream offset overflow."
    else do
      let compressed ← zstd.compress payload
      if compressed.isEmpty then .error "Zstandard compression produced an empty frame."
      else
        let payloadHash := blake3 compressed
        let (header, headerHash) := makeBlockHeader blake3 spec (.ofNat payload.length)
          (.ofNat compressed.length) payloadHash
        if !io.writes (outputStream ++ header ++ compressed) then
          .error "Failed to write block stream."
        else
          .ok (outputStream ++ header ++ compressed,
            makeBlockInfo position compressed.length payload.length payloadHash headerHash)

end Writers

/-- Writes blocks in order. -/
def writeBlocks (write : Bytes → BlockWriteSpec → Bytes → Except String (Bytes × WrittenBlockInfo)) :
    List (BlockWriteSpec × Bytes) → Bytes → Except String (Bytes × List WrittenBlockInfo)
  | [], outputStream => .ok (outputStream, [])
  | (spec, payload) :: rest, outputStream => do
    let (outputStream, info) ← write outputStream spec payload
    let (outputStream, infos) ← writeBlocks write rest outputStream
    .ok (outputStream, info :: infos)

end Svp.Blocks

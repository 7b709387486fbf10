import Svp.Blocks.BlockStream

/-!
# What the parser accepts

A payload that was compressed is read back without an issue
(`validatePayload_frame`), given what streaming decompression does, and the header
of a block that follows the format passes every check (`validateHeader_written`).
-/

namespace Svp.Blocks

open Exec (Bytes Blake3Digest utf8)
open Lib (slice)

variable {σ : Type} {zstd : Zstd σ} {Decoding : σ → Bytes → Bytes → Prop}
  {blake3 : Bytes → Blake3Digest} {options : ParseOptions} {readError : String}

/-! ## Streaming decompression -/

/-- What one call does: it moves forward in the input and in the output. The last
byte of a frame is taken only once the whole output is flushed. -/
structure ZstdStep.Advances (step : ZstdStep σ) (Decoding : σ → Bytes → Bytes → Prop)
    (chunk input output : Bytes) : Prop where
  inside : step.consumed ≤ chunk.length
  progress : 0 < step.consumed ∨ step.produced ≠ []
  decoding : ∃ output', output = step.produced ++ output' ∧
    Decoding step.stream (input.drop step.consumed) output' ∧
    (step.result = 0 ↔ input.drop step.consumed = [] ∧ output' = []) ∧
    (input.drop step.consumed = [] → output' = [])

/-- Streaming decompression undoes compression. `Decoding stream input output`: the
stream stands before `input`, the rest of a frame, and `output`, the rest of what
the frame holds. -/
structure Zstd.Undoes (zstd : Zstd σ) (Decoding : σ → Bytes → Bytes → Prop) : Prop where
  opens : ∀ {payload frame : Bytes}, zstd.compress payload = .ok frame →
    ∃ stream opened, zstd.createDStream = some stream ∧ zstd.initDStream stream = .ok opened ∧
      Decoding opened frame payload
  calls : ∀ {stream : σ} {chunk input output : Bytes} (room : Nat), Decoding stream input output →
    chunk ≠ [] → chunk <+: input → 0 < room →
    ∃ step, zstd.decompressStream stream chunk room = .ok step ∧
      step.Advances Decoding chunk input output

/-- Where a decompression stands: `input` and `output` are still to come, of `total` bytes. -/
structure Decompression.Stands (state : Decompression σ) (Decoding : σ → Bytes → Bytes → Prop)
    (total : Nat) (input output : Bytes) : Prop where
  decoding : Decoding state.stream input output
  complete : state.frameComplete = true ↔ input = []
  flushed : input = [] → output = []
  size : state.decompressedSize + output.length = total

/-- The loop over a chunk consumes it. -/
theorem decompressChunk_stands (undoes : zstd.Undoes Decoding) {header : BlockHeaderV1}
    (payloadOffset : Nat) : ∀ (fuel : Nat) {chunk input output : Bytes} {state : Decompression σ},
    state.Stands Decoding header.uncompressedSize.toNat input output → chunk <+: input →
    chunk.length + output.length < fuel →
    ∃ state' output', decompressChunk zstd header payloadOffset fuel chunk state = some (.ok state') ∧
      state'.Stands Decoding header.uncompressedSize.toNat (input.drop chunk.length) output' ∧
      output'.length ≤ output.length := by
  intro fuel
  induction fuel with
  | zero => exact fun _ _ enough => absurd enough (Nat.not_lt_zero _)
  | succ fuel ih =>
    intro chunk input output state stands isStart enough
    by_cases empty : chunk = []
    · subst empty
      exact ⟨state, output, rfl, stands, le_rfl⟩
    obtain ⟨step, called, advances⟩ :=
      undoes.calls kPayloadChunkSize stands.decoding empty isStart (by decide)
    obtain ⟨output', rfl, decoding, result, flushed⟩ := advances.decoding
    have size := stands.size
    have inside := advances.inside
    have width := header.uncompressedSize.toNat_lt
    rw [List.length_append] at size enough
    have shorter : chunk.length - step.consumed + output'.length < fuel := by
      rcases advances.progress with moved | produced
      · omega
      · have := List.length_pos_iff.mpr produced
        omega
    have next : Decompression.Stands
        { stream := step.stream, frameComplete := step.result == 0
          decompressedSize := state.decompressedSize + step.produced.length }
        Decoding header.uncompressedSize.toNat (input.drop step.consumed) output' := by
      refine ⟨decoding, ?_, flushed, ?_⟩
      · -- Once the input is gone, so is the output.
        rw [beq_iff_eq, result]
        exact ⟨And.left, fun gone => ⟨gone, flushed gone⟩⟩
      · show state.decompressedSize + step.produced.length + output'.length = _
        omega
    obtain ⟨state', output'', rest, done, less⟩ := ih next (isStart.drop step.consumed)
      (by rwa [List.length_drop])
    refine ⟨state', output'', ?_, ?_, ?_⟩
    · rw [decompressChunk, if_neg (by simpa using empty), called]
      dsimp only
      rw [if_neg (by simp only [kMaxU64]; omega), if_neg (by omega)]
      exact rest
    · rw [List.drop_drop, List.length_drop, Nat.add_sub_cancel' inside] at done
      exact done
    · rw [List.length_append]
      exact le_trans less (Nat.le_add_left _ _)

/-- One round of the loop over the chunks. -/
theorem readPayload_chunk {header : BlockHeaderV1} {payloadOffset fuel rounds remaining : Nat}
    {rest chunk after : Bytes} {state next : PayloadState σ} (more : remaining ≠ 0)
    (readable : readExact readError rest (min remaining kPayloadChunkSize) = .ok (chunk, after))
    (chunked : readChunk zstd fuel header payloadOffset chunk state = some next) :
    readPayload zstd readError fuel header payloadOffset (rounds + 1) remaining rest state =
      readPayload zstd readError fuel header payloadOffset rounds
        (remaining - min remaining kPayloadChunkSize) after next := by
  simp only [readPayload, if_neg more, readable, chunked]

/-- The loop over the chunks reads a whole frame. -/
theorem readPayload_stands (undoes : zstd.Undoes Decoding) {header : BlockHeaderV1} {fuel : Nat}
    (readError : String) (payloadOffset : Nat) (after : Bytes) : ∀ (rounds : Nat) (hashed : Bytes)
    {input output : Bytes} {state : Decompression σ}, state.Stands Decoding header.uncompressedSize.toNat input output →
    input.length ≤ rounds → input.length + output.length < fuel →
    ∃ state', readPayload zstd readError fuel header payloadOffset rounds input.length
        (input ++ after) { hashed, decompression := some state, issues := [] } =
      some { rest := after
             state := { hashed := hashed ++ input, decompression := some state', issues := [] }
             readError := none } ∧
      state'.Stands Decoding header.uncompressedSize.toNat [] [] := by
  intro rounds
  induction rounds with
  | zero =>
    intro hashed input output state stands few _
    obtain rfl := List.length_eq_zero_iff.mp (Nat.le_zero.mp few)
    obtain rfl := stands.flushed rfl
    exact ⟨state, by rw [readPayload, List.append_nil, List.nil_append], stands⟩
  | succ rounds ih =>
    intro hashed input output state stands few enough
    by_cases empty : input = []
    · subst empty
      obtain rfl := stands.flushed rfl
      exact ⟨state, by rw [readPayload, if_pos List.length_nil, List.append_nil, List.nil_append], stands⟩
    have positive := List.length_pos_iff.mpr empty
    let size := min input.length kPayloadChunkSize
    have sized : size ≤ input.length := Nat.min_le_left _ _
    have sizePositive : 0 < size := Nat.lt_min.mpr ⟨positive, by decide⟩
    have chunkLength : (input.take size).length = size := List.length_take_of_le sized
    obtain ⟨next, output', chunked, stands', less⟩ := decompressChunk_stands undoes
      payloadOffset fuel stands (List.take_prefix size input) (by rw [chunkLength]; omega)
    rw [chunkLength] at stands'
    have restLength : (input.drop size).length = input.length - size := List.length_drop
    obtain ⟨state', read, done⟩ := ih (hashed ++ input.take size) stands' (by omega) (by omega)
    refine ⟨state', ?_, done⟩
    have readable : readExact readError (input ++ after) size =
        .ok (input.take size, input.drop size ++ after) := by
      rw [readExact, if_neg, List.take_append_of_le_length sized, List.drop_append_of_le_length sized]
      rw [List.length_append]
      omega
    have chunk : readChunk zstd fuel header payloadOffset (input.take size)
        { hashed, decompression := some state, issues := [] } =
        some { hashed := hashed ++ input.take size, decompression := some next, issues := [] } := by
      simp only [readChunk, chunked]
    rw [readPayload_chunk (Nat.ne_of_gt positive) readable chunk, ← restLength, read,
      List.append_assoc, List.take_append_drop]

/-- A written payload is accepted. -/
theorem validatePayload_frame (undoes : zstd.Undoes Decoding)
    (verified : options.verifyZstdDecompression = true) {header : BlockHeaderV1}
    {payloadOffset fuel : Nat} {payload frame after : Bytes}
    (compressed : zstd.compress payload = .ok frame) (nonempty : frame ≠ [])
    (compressedSize : header.compressedSize.toNat = frame.length)
    (uncompressedSize : header.uncompressedSize.toNat = payload.length)
    (hash : header.payloadBlake3 = (blake3 frame).bytes)
    (enough : frame.length + payload.length < fuel) :
    validatePayload zstd blake3 options readError fuel header payloadOffset (frame ++ after) =
      some (after, [], none) := by
  obtain ⟨stream, opened, created, started, decoding⟩ := undoes.opens compressed
  have stands : Decompression.Stands (⟨opened, false, 0⟩ : Decompression σ) Decoding
      header.uncompressedSize.toNat frame payload := by
    refine ⟨decoding, ?_, fun gone => absurd gone nonempty, by rw [uncompressedSize, Nat.zero_add]⟩
    simpa using nonempty
  obtain ⟨state, read, done⟩ := readPayload_stands undoes readError payloadOffset after
    frame.length [] stands le_rfl enough
  have start : startDecompression zstd options payloadOffset =
      { hashed := [], decompression := some ⟨opened, false, 0⟩, issues := [] } := by
    simp only [startDecompression, verified, created, started, Bool.not_true, Bool.false_eq_true,
      if_false]
  have complete : state.frameComplete = true := done.complete.mpr rfl
  have size : state.decompressedSize = header.uncompressedSize.toNat := done.size
  rw [validatePayload, start, compressedSize, read]
  simp only [payloadIssues, complete, size, hash, issueIf, List.nil_append, bne_self_eq_false,
    Bool.and_false, Bool.not_true, Bool.false_eq_true, if_false]

/-! ## Headers of blocks that follow the format -/

/-- The block has a frame range. -/
def BlockWriteSpec.HasFrameRange (spec : BlockWriteSpec) : Prop :=
  spec.frameCount ≠ 0 ∧ spec.startFrame ≠ kNonFrameStart

/-- The rules of each kind for a payload of `length` bytes. -/
def BlockWriteSpec.KindRules (spec : BlockWriteSpec) (length : Nat) : Prop :=
  match spec.blockType with
  | .depth => spec.extent2 = 1 ∧ spec.dtype = .uint16 ∧ spec.HasFrameRange ∧
      length = spec.extent0.toNat * spec.extent1.toNat * spec.frameCount.toNat * 2
  | .mask => spec.HasFrameRange ∧ (spec.dtype = .svpRleV1 ∨ spec.dtype = .bitpackedLsbFirst ∧
      length = (spec.extent0.toNat * spec.extent1.toNat * spec.extent2.toNat + 7) / 8)
  | .embedding => spec.extent2 = 1 ∧ spec.dtype = .float32 ∧ spec.frameCount = 0 ∧
      spec.startFrame = kNonFrameStart ∧ length = spec.extent0.toNat * spec.extent1.toNat * 4

/-- The block follows the format. -/
structure BlockWriteSpec.Follows (spec : BlockWriteSpec) (payload : Bytes) : Prop where
  nonempty : payload ≠ []
  extents : spec.extent0 ≠ 0 ∧ spec.extent1 ≠ 0 ∧ spec.extent2 ≠ 0
  timeRange : spec.startUs = -1 ∧ spec.endUs = -1 ∨ 0 ≤ spec.startUs ∧ spec.startUs < spec.endUs
  kind : spec.KindRules payload.length

/-- The parser's options allow the block: the type and raster they ask for and
the size guards. -/
structure ParseOptions.Allow (options : ParseOptions) (zstd : Zstd σ) (spec : BlockWriteSpec)
    (payload : Bytes) : Prop where
  type : ∀ blockType, options.requiredBlockType = some blockType → spec.blockType = blockType
  raster : ∀ extent, options.requiredRasterExtent = some extent → spec.blockType ≠ .embedding →
    spec.extent0 = extent.width ∧ spec.extent1 = extent.height
  size : payload.length ≤ options.maxUncompressedPayloadBytes.toNat
  compressedSize : ∀ frame, zstd.compress payload = .ok frame →
    frame.length ≤ options.maxCompressedPayloadBytes.toNat

theorem checkedMultiply_of {lhs rhs : Nat} (fits : lhs * rhs ≤ kMaxU64) :
    checkedMultiply lhs rhs = some (lhs * rhs) := by
  rw [checkedMultiply, if_neg]
  rintro ⟨positive, exceeds⟩
  have bound := (Nat.div_lt_iff_lt_mul (Nat.pos_of_ne_zero positive)).mp exceeds
  rw [Nat.mul_comm] at bound
  omega

/-! The rules of the three kinds, for any header. -/

section Kinds

variable {header : BlockHeaderV1}

theorem limit_eq : kMaxU64 = 18446744073709551615 := by decide

theorem validateUncompressedSize_depth (type : header.blockType = BlockType.depth.code)
    (small : header.uncompressedSize.toNat ≤ 536870912) (frames : header.frameCount ≠ 0)
    (length : header.uncompressedSize.toNat =
      header.extent0.toNat * header.extent1.toNat * header.frameCount.toNat * 2) :
    validateUncompressedSize header = none := by
  have limit := limit_eq
  have positive : 0 < header.frameCount.toNat :=
    Nat.pos_of_ne_zero fun zero => frames (UInt64.toNat_inj.mp zero)
  have pixels : header.extent0.toNat * header.extent1.toNat ≤
      header.extent0.toNat * header.extent1.toNat * header.frameCount.toNat :=
    Nat.le_mul_of_pos_right _ positive
  rw [validateUncompressedSize, if_pos type, checkedMultiply_of (by omega), Option.bind_some,
    checkedMultiply_of (by omega), Option.bind_some, checkedMultiply_of (by omega)]
  dsimp only
  rw [if_neg (not_not.mpr length)]

theorem validateUncompressedSize_embedding (type : header.blockType = BlockType.embedding.code)
    (small : header.uncompressedSize.toNat ≤ 536870912)
    (length : header.uncompressedSize.toNat = header.extent0.toNat * header.extent1.toNat * 4) :
    validateUncompressedSize header = none := by
  have limit := limit_eq
  rw [validateUncompressedSize, if_neg (by rw [type]; decide), if_pos type,
    checkedMultiply_of (by omega), Option.bind_some, checkedMultiply_of (by omega)]
  dsimp only
  rw [if_neg (not_not.mpr length)]

theorem validateUncompressedSize_rle (type : header.blockType = BlockType.mask.code)
    (dtype : header.dtype = DType.svpRleV1.code) : validateUncompressedSize header = none := by
  rw [validateUncompressedSize, if_neg (by rw [type]; decide), if_neg (by rw [type]; decide),
    if_neg fun both => absurd (dtype.symm.trans both.2) (by decide)]

theorem validateUncompressedSize_bitpacked (type : header.blockType = BlockType.mask.code)
    (dtype : header.dtype = DType.bitpackedLsbFirst.code)
    (small : header.uncompressedSize.toNat ≤ 536870912) (planes : header.extent2 ≠ 0)
    (length : header.uncompressedSize.toNat =
      (header.extent0.toNat * header.extent1.toNat * header.extent2.toNat + 7) / 8) :
    validateUncompressedSize header = none := by
  have limit := limit_eq
  have positive : 0 < header.extent2.toNat :=
    Nat.pos_of_ne_zero fun zero => planes (UInt32.toNat_inj.mp zero)
  have pixels : header.extent0.toNat * header.extent1.toNat ≤
      header.extent0.toNat * header.extent1.toNat * header.extent2.toNat :=
    Nat.le_mul_of_pos_right _ positive
  rw [validateUncompressedSize, if_neg (by rw [type]; decide), if_neg (by rw [type]; decide),
    if_pos ⟨type, dtype⟩, checkedMultiply_of (by omega), Option.bind_some,
    checkedMultiply_of (by omega)]
  dsimp only
  -- The guard keeps the sum from wrapping around.
  rw [Nat.mod_eq_of_lt (by omega), if_neg (not_not.mpr length)]

theorem kindIssues_depth (type : header.blockType = BlockType.depth.code)
    (extents : header.extent0 ≠ 0 ∧ header.extent1 ≠ 0) (plane : header.extent2 = 1)
    (dtype : header.dtype = DType.uint16.code)
    (frames : header.frameCount ≠ 0 ∧ header.startFrame ≠ kNonFrameStart) :
    kindIssues header = [] := by
  rw [kindIssues, if_pos type]
  simp [issueIf, extents, plane, dtype, frames]

theorem kindIssues_mask (type : header.blockType = BlockType.mask.code)
    (extents : header.extent0 ≠ 0 ∧ header.extent1 ≠ 0 ∧ header.extent2 ≠ 0)
    (dtype : header.dtype = DType.svpRleV1.code ∨ header.dtype = DType.bitpackedLsbFirst.code)
    (frames : header.frameCount ≠ 0 ∧ header.startFrame ≠ kNonFrameStart) :
    kindIssues header = [] := by
  rw [kindIssues, if_neg (by rw [type]; decide), if_pos type]
  rcases dtype with dtype | dtype
  · simp [issueIf, extents, dtype, frames]
  · simp [issueIf, extents, dtype, frames]

theorem kindIssues_embedding (type : header.blockType = BlockType.embedding.code)
    (extents : header.extent0 ≠ 0 ∧ header.extent1 ≠ 0) (plane : header.extent2 = 1)
    (dtype : header.dtype = DType.float32.code)
    (frames : header.frameCount = 0 ∧ header.startFrame = kNonFrameStart) :
    kindIssues header = [] := by
  rw [kindIssues, if_neg (by rw [type]; decide), if_neg (by rw [type]; decide), if_pos type]
  simp [issueIf, extents, plane, dtype, frames]

/-- What a header without issues is. -/
structure BlockHeaderV1.Sound (header : BlockHeaderV1) (options : ParseOptions) (bytes : Bytes) :
    Prop where
  magic : isHeaderMagicValid bytes = true
  reserved : reservedBytesAreZero bytes = true
  constants : header.version = 1 ∧ header.headerSize = .ofNat kBlockHeaderSize ∧
    header.compression = kCompressionZstd ∧ header.endian = kEndianLittle ∧ header.flags = 0
  strict : isStrictBlockType header.blockType = true
  type : typeMismatch options header = false
  raster : rasterMismatch options header = false
  compressedSize : header.compressedSize ≠ 0 ∧
    header.compressedSize ≤ options.maxCompressedPayloadBytes
  uncompressedSize : header.uncompressedSize ≠ 0 ∧
    header.uncompressedSize ≤ options.maxUncompressedPayloadBytes
  timeRange : isTimeRangeValid header = true
  size : validateUncompressedSize header = none
  kind : kindIssues header = []

theorem BlockHeaderV1.Sound.validate {bytes : Bytes} (sound : header.Sound options bytes) :
    validateHeader options bytes header = [] := by
  obtain ⟨version, headerSize, compression, endian, flags⟩ := sound.constants
  rw [validateHeader, sound.magic, sound.reserved, sound.strict, sound.type, sound.raster,
    sound.timeRange, sound.size, sound.kind, version, headerSize, compression, endian, flags,
    decide_eq_false (UInt64.not_lt.mpr sound.compressedSize.2),
    decide_eq_false (UInt64.not_lt.mpr sound.uncompressedSize.2),
    beq_eq_false_iff_ne.mpr sound.compressedSize.1, beq_eq_false_iff_ne.mpr sound.uncompressedSize.1]
  rfl

end Kinds

section Written

variable {spec : BlockWriteSpec} {offset : Nat} {uncompressedSize compressedSize : UInt64}
  {payloadHash headerHash payload : Bytes}

/-- The rules of its kind hold for a written header. -/
theorem kind_written (offset : Nat) (compressedSize : UInt64) (payloadHash headerHash : Bytes)
    (kind : spec.KindRules uncompressedSize.toNat)
    (extents : spec.extent0 ≠ 0 ∧ spec.extent1 ≠ 0 ∧ spec.extent2 ≠ 0)
    (guard : uncompressedSize ≤ kMaxBlockPayloadBytes) :
    validateUncompressedSize
        (writtenHeader spec offset uncompressedSize compressedSize payloadHash headerHash) = none ∧
      kindIssues
        (writtenHeader spec offset uncompressedSize compressedSize payloadHash headerHash) = [] ∧
      isStrictBlockType spec.blockType.code = true := by
  have small : uncompressedSize.toNat ≤ 536870912 := guard
  obtain ⟨extent0, extent1, extent2⟩ := extents
  obtain ⟨blockType, _, _, _, dtype, startFrame, frameCount, startUs, endUs⟩ := spec
  cases blockType with
  | depth =>
    obtain ⟨plane, rfl, ⟨frames, start⟩, length⟩ := kind
    exact ⟨validateUncompressedSize_depth rfl small frames length,
      kindIssues_depth rfl ⟨extent0, extent1⟩ plane rfl ⟨frames, start⟩, rfl⟩
  | mask =>
    obtain ⟨⟨frames, start⟩, rfl | ⟨rfl, length⟩⟩ := kind
    · exact ⟨validateUncompressedSize_rle rfl rfl,
        kindIssues_mask rfl ⟨extent0, extent1, extent2⟩ (.inl rfl) ⟨frames, start⟩, rfl⟩
    · exact ⟨validateUncompressedSize_bitpacked rfl rfl small extent2 length,
        kindIssues_mask rfl ⟨extent0, extent1, extent2⟩ (.inr rfl) ⟨frames, start⟩, rfl⟩
  | embedding =>
    obtain ⟨plane, rfl, frames, start, length⟩ := kind
    exact ⟨validateUncompressedSize_embedding rfl small length,
      kindIssues_embedding rfl ⟨extent0, extent1⟩ plane rfl ⟨frames, start⟩, rfl⟩

/-- A size field holds the length of bytes within a guard. -/
structure SizeField (bytes : Bytes) (guard : UInt64) : Prop where
  value : (UInt64.ofNat bytes.length).toNat = bytes.length
  nonzero : UInt64.ofNat bytes.length ≠ 0
  guard : UInt64.ofNat bytes.length ≤ guard

theorem ofNat_length {bytes : Bytes} {guard : UInt64} (nonempty : bytes ≠ [])
    (small : bytes.length ≤ guard.toNat) : SizeField bytes guard := by
  have value : (UInt64.ofNat bytes.length).toNat = bytes.length :=
    UInt64.toNat_ofNat_of_lt' (lt_of_le_of_lt small (UInt64.toNat_lt _))
  refine ⟨value, fun zero => ?_, ?_⟩
  · rw [zero] at value
    exact absurd value (Nat.ne_of_lt (List.length_pos_iff.mpr nonempty))
  · rwa [UInt64.le_iff_toNat_le, value]

theorem options_allow_written (allow : options.Allow zstd spec payload) :
    typeMismatch options
        (writtenHeader spec offset uncompressedSize compressedSize payloadHash headerHash) = false ∧
      rasterMismatch options
        (writtenHeader spec offset uncompressedSize compressedSize payloadHash headerHash) = false := by
  constructor
  · unfold typeMismatch
    cases required : options.requiredBlockType with
    | none => rfl
    | some blockType =>
      show (spec.blockType.code != blockType.code) = false
      rw [allow.type blockType required, bne_self_eq_false]
  · unfold rasterMismatch
    cases required : options.requiredRasterExtent with
    | none => rfl
    | some extent =>
      show ((spec.blockType.code == BlockType.depth.code || spec.blockType.code == BlockType.mask.code) &&
        (spec.extent0 != extent.width || spec.extent1 != extent.height)) = false
      by_cases embedding : spec.blockType = .embedding
      · rw [embedding]
        rfl
      · obtain ⟨width, height⟩ := allow.raster extent required embedding
        rw [width, height, bne_self_eq_false, bne_self_eq_false, Bool.or_self, Bool.and_false]

/-- A written header passes every check. -/
theorem validateHeader_written {frame : Bytes} (follows : spec.Follows payload)
    (allow : options.Allow zstd spec payload) (compressed : zstd.compress payload = .ok frame)
    (nonempty : frame ≠ []) (guard : options.maxUncompressedPayloadBytes ≤ kMaxBlockPayloadBytes)
    (payloadSize : payloadHash.length = kHashSize) (headerSize : headerHash.length = kHashSize) :
    validateHeader options
      (headerBytes spec (.ofNat payload.length) (.ofNat frame.length) payloadHash headerHash)
      (writtenHeader spec offset (.ofNat payload.length) (.ofNat frame.length) payloadHash
        headerHash) = [] := by
  have frameSize := ofNat_length nonempty (allow.compressedSize frame compressed)
  have contentSize := ofNat_length follows.nonempty allow.size
  obtain ⟨size, kind, strict⟩ := kind_written offset (.ofNat frame.length) payloadHash headerHash
    (by rw [contentSize.value]; exact follows.kind) follows.extents (UInt64.le_trans contentSize.guard guard)
  obtain ⟨type, raster⟩ := options_allow_written allow
  have field : ∀ {at_ : Nat} {value : Bytes}, (at_, value) ∈ headerFields spec
      (.ofNat payload.length) (.ofNat frame.length) payloadHash headerHash → slice _ at_ _ = value :=
    headerBytes_slice payloadSize headerSize
  refine BlockHeaderV1.Sound.validate ?_
  constructor
  case magic => exact beq_iff_eq.mpr (field (List.mem_iff_getElem?.mpr ⟨0, rfl⟩))
  case reserved =>
    have zeros := field (List.mem_iff_getElem?.mpr ⟨19, rfl⟩)
    rw [List.length_replicate] at zeros
    rw [reservedBytesAreZero, zeros]
    rfl
  case constants => exact ⟨rfl, rfl, rfl, rfl, rfl⟩
  case strict => exact strict
  case type => exact type
  case raster => exact raster
  case compressedSize => exact ⟨frameSize.nonzero, frameSize.guard⟩
  case uncompressedSize => exact ⟨contentSize.nonzero, contentSize.guard⟩
  case timeRange =>
    show (spec.startUs == -1 && spec.endUs == -1 ||
      (decide (0 ≤ spec.startUs) && decide (spec.startUs < spec.endUs))) = true
    rcases follows.timeRange with ⟨start, stop⟩ | ⟨start, stop⟩
    · rw [start, stop]
      rfl
    · rw [decide_eq_true start, decide_eq_true stop, Bool.and_self, Bool.or_true]
  case size => exact size
  case kind => exact kind

end Written

end Svp.Blocks

import Svp.Blocks.BlockRoundTrip

/-!
# Accepted sizes are exact

What a stream without an issue is: its blocks lie end to end, and the payload size
of each one is what its dimensions imply in unbounded arithmetic (`impliedSize`).
For any stream, the parser ends and reads nothing behind the stream's size.

The argument is one round of the loop over the blocks (`parseBlocks_round`): where
the bytes of a stream are there to be read, what is behind them and what the reader
says on failure do not matter.
-/

namespace Svp.Blocks

open Exec (Bytes Blake3Digest)
open Lib (slice)

variable {σ : Type} {zstd : Zstd σ} {options : ParseOptions}

/-! ## Sizes -/

/-- The payload size the dimensions of a block imply. A mask has one bit a sample,
in whole bytes; a run-length mask has no implied size. -/
def impliedSize (header : BlockHeaderV1) : Option Nat :=
  if header.blockType = BlockType.depth.code then
    some (header.extent0.toNat * header.extent1.toNat * header.frameCount.toNat * 2)
  else if header.blockType = BlockType.embedding.code then
    some (header.extent0.toNat * header.extent1.toNat * 4)
  else if header.blockType = BlockType.mask.code ∧
      header.dtype = DType.bitpackedLsbFirst.code then
    some ((header.extent0.toNat * header.extent1.toNat * header.extent2.toNat + 7) / 8)
  else none

theorem checkedMultiply_eq_some {lhs rhs product : Nat} (width : lhs ≤ kMaxU64)
    (multiplied : checkedMultiply lhs rhs = some product) : product = lhs * rhs ∧ product ≤ kMaxU64 := by
  unfold checkedMultiply at multiplied
  split_ifs at multiplied with exceeds
  cases multiplied
  refine ⟨rfl, ?_⟩
  rcases Nat.eq_zero_or_pos lhs with rfl | positive
  · rw [Nat.zero_mul]
    exact Nat.zero_le _
  · have fits : rhs ≤ kMaxU64 / lhs := not_lt.mp fun more => exceeds ⟨Nat.ne_of_gt positive, more⟩
    rw [Nat.mul_comm]
    exact (Nat.le_div_iff_mul_le positive).mp fits

theorem toNat_le_limit (field : UInt32) : field.toNat ≤ kMaxU64 :=
  le_trans (Nat.le_of_lt field.toNat_lt) (by decide)

/-- The round-up to whole bytes is exact or zero, and zero is no size. -/
theorem roundUp_exact {samples : Nat} (small : samples ≤ kMaxU64)
    (nonzero : (samples + 7) % 2 ^ 64 / 8 ≠ 0) : (samples + 7) % 2 ^ 64 / 8 = (samples + 7) / 8 := by
  have limit := limit_eq
  -- A sum that wraps around is at most six.
  have kept : samples + 7 < 2 ^ 64 := by
    by_contra wraps
    omega
  rw [Nat.mod_eq_of_lt kept]

/-- A nonzero size that passes its check is exact: the one sum that can wrap around
gives zero where it does. -/
theorem exact_of_validate {header : BlockHeaderV1} (checked : validateUncompressedSize header = none)
    (nonzero : header.uncompressedSize ≠ 0) {size : Nat} (implied : impliedSize header = some size) :
    header.uncompressedSize.toNat = size := by
  unfold validateUncompressedSize at checked
  unfold impliedSize at implied
  split_ifs at checked implied with depth embedding mask
  · cases implied
    split at checked
    · cases checked
    next expected multiplied =>
    split_ifs at checked with same
    obtain ⟨pixels, first, multiplied⟩ := Option.bind_eq_some_iff.mp multiplied
    obtain ⟨samples, second, third⟩ := Option.bind_eq_some_iff.mp multiplied
    obtain ⟨rfl, small⟩ := checkedMultiply_eq_some (toNat_le_limit _) first
    obtain ⟨rfl, small⟩ := checkedMultiply_eq_some small second
    obtain ⟨rfl, -⟩ := checkedMultiply_eq_some small third
    exact not_not.mp same
  · cases implied
    split at checked
    · cases checked
    next expected multiplied =>
    split_ifs at checked with same
    obtain ⟨samples, first, second⟩ := Option.bind_eq_some_iff.mp multiplied
    obtain ⟨rfl, small⟩ := checkedMultiply_eq_some (toNat_le_limit _) first
    obtain ⟨rfl, -⟩ := checkedMultiply_eq_some small second
    exact not_not.mp same
  · cases implied
    split at checked
    · cases checked
    next samples multiplied =>
    split_ifs at checked with same
    obtain ⟨pixels, first, second⟩ := Option.bind_eq_some_iff.mp multiplied
    obtain ⟨rfl, small⟩ := checkedMultiply_eq_some (toNat_le_limit _) first
    obtain ⟨rfl, small⟩ := checkedMultiply_eq_some small second
    have wrapped := not_not.mp same
    have positive : header.uncompressedSize.toNat ≠ 0 :=
      fun zero => nonzero (UInt64.toNat_inj.mp zero)
    rw [wrapped] at positive ⊢
    exact roundUp_exact small positive

/-- What a header without an issue says about the sizes. -/
theorem sizes_of_validateHeader {bytes : Bytes} {header : BlockHeaderV1}
    (valid : validateHeader options bytes header = []) :
    validateUncompressedSize header = none ∧ header.uncompressedSize ≠ 0 ∧
      header.compressedSize ≤ options.maxCompressedPayloadBytes ∧
      header.uncompressedSize ≤ options.maxUncompressedPayloadBytes := by
  unfold validateHeader at valid
  split_ifs at valid with strict
  · simp at valid
  · simp only [List.append_eq_nil_iff, issueIf] at valid
    obtain ⟨-, ⟨⟨⟨⟨⟨⟨-, nonzero⟩, compressed⟩, uncompressed⟩, -⟩, size⟩, -⟩, -⟩ := valid
    refine ⟨?_, ?_, ?_, ?_⟩
    · split at size
      · cases size
      · assumption
    · simp at nonzero
      exact nonzero.2
    · simpa using compressed
    · simpa using uncompressed

/-! ## The library's loop -/

/-- A call that succeeds takes input, puts out bytes, or counts a stall; after
`patience` stalls in a row the library reports an error instead. -/
structure Zstd.Progresses (zstd : Zstd σ) (stalls : σ → Nat) (patience : Nat) : Prop where
  moves : ∀ {stream : σ} {input : Bytes} {room : Nat} {step : ZstdStep σ}, input ≠ [] → 0 < room →
    zstd.decompressStream stream input room = .ok step →
    0 < step.consumed ∨ step.produced ≠ [] ∨ stalls stream < stalls step.stream
  patient : ∀ {stream : σ} {input : Bytes} {room : Nat} {step : ZstdStep σ},
    zstd.decompressStream stream input room = .ok step → stalls step.stream ≤ patience

/-- What bounds the calls left: bytes still to move, each with its stalls. -/
def callsLeft (stalls : σ → Nat) (patience uncompressedSize : Nat) (input : Bytes)
    (state : Decompression σ) : Nat :=
  (input.length + (uncompressedSize - state.decompressedSize)) * (patience + 1) +
    (patience - stalls state.stream)

/-- More calls than any chunk needs. -/
def callBound (patience : Nat) : Nat := (kPayloadChunkSize + kMaxU64 + 1) * (patience + 1)

theorem callsLeft_lt {stalls : σ → Nat} {patience left left' : Nat} {stream stream' : σ}
    (moves : left' < left ∨ left' ≤ left ∧ stalls stream < stalls stream')
    (patient : stalls stream' ≤ patience) :
    left' * (patience + 1) + (patience - stalls stream') <
      left * (patience + 1) + (patience - stalls stream) := by
  rcases moves with fewer | ⟨same, stalled⟩
  · have bytes := Nat.mul_le_mul_right (patience + 1) (Nat.succ_le_of_lt fewer)
    rw [Nat.succ_mul] at bytes
    omega
  · have bytes := Nat.mul_le_mul_right (patience + 1) same
    omega

section Ends

variable {stalls : σ → Nat} {patience : Nat}

/-- Fuel above the calls left is enough, and how much more does not matter. -/
theorem decompressChunk_ends (progresses : zstd.Progresses stalls patience) (header : BlockHeaderV1)
    (payloadOffset : Nat) : ∀ (fuel more : Nat) (input : Bytes) (state : Decompression σ),
    callsLeft stalls patience header.uncompressedSize.toNat input state < fuel → fuel ≤ more →
    decompressChunk zstd header payloadOffset more input state =
        decompressChunk zstd header payloadOffset fuel input state ∧
      (decompressChunk zstd header payloadOffset fuel input state).isSome := by
  intro fuel
  induction fuel with
  | zero => exact fun _ _ _ enough => absurd enough (Nat.not_lt_zero _)
  | succ fuel ih =>
    intro more input state enough le
    obtain ⟨more, rfl⟩ := Nat.exists_eq_succ_of_ne_zero (Nat.ne_zero_of_lt le)
    rw [decompressChunk, decompressChunk]
    by_cases empty : input = []
    · rw [if_pos (List.isEmpty_iff.mpr empty), if_pos (List.isEmpty_iff.mpr empty)]
      exact ⟨rfl, rfl⟩
    have nonempty : ¬ input.isEmpty = true := fun isEmpty => empty (List.isEmpty_iff.mp isEmpty)
    rw [if_neg nonempty, if_neg nonempty]
    cases called : zstd.decompressStream state.stream input kPayloadChunkSize with
    | error name => exact ⟨rfl, rfl⟩
    | ok step =>
      dsimp only
      by_cases overflows : kMaxU64 - state.decompressedSize < step.produced.length
      · rw [if_pos overflows, if_pos overflows]
        exact ⟨rfl, rfl⟩
      by_cases exceeds : header.uncompressedSize.toNat <
          state.decompressedSize + step.produced.length
      · rw [if_neg overflows, if_pos exceeds, if_neg overflows, if_pos exceeds]
        exact ⟨rfl, rfl⟩
      rw [if_neg overflows, if_neg exceeds, if_neg overflows, if_neg exceeds]
      refine ih more _ _ (lt_of_lt_of_le ?_ (Nat.le_of_lt_succ enough)) (Nat.le_of_succ_le_succ le)
      refine callsLeft_lt ?_ (progresses.patient called)
      have positive := List.length_pos_iff.mpr empty
      rw [List.length_drop]
      dsimp only
      rcases progresses.moves empty (by decide) called with consumed | produced | stalled
      · omega
      · have := List.length_pos_iff.mpr produced
        omega
      · exact .inr ⟨by omega, stalled⟩

theorem callsLeft_lt_callBound (header : BlockHeaderV1) {chunk : Bytes}
    (small : chunk.length ≤ kPayloadChunkSize) (state : Decompression σ) :
    callsLeft stalls patience header.uncompressedSize.toNat chunk state < callBound patience := by
  have width : header.uncompressedSize.toNat ≤ kMaxU64 :=
    Nat.le_of_lt_succ header.uncompressedSize.toNat_lt
  have bytes : chunk.length + (header.uncompressedSize.toNat - state.decompressedSize) ≤
      kPayloadChunkSize + kMaxU64 := by omega
  have calls := Nat.mul_le_mul_right (patience + 1) bytes
  rw [callsLeft, callBound, Nat.succ_mul]
  omega

theorem readChunk_ends (progresses : zstd.Progresses stalls patience) (header : BlockHeaderV1)
    (payloadOffset : Nat) {chunk : Bytes} (small : chunk.length ≤ kPayloadChunkSize)
    (state : PayloadState σ) : ∃ next, ∀ fuel ≥ callBound patience,
      readChunk zstd fuel header payloadOffset chunk state = some next := by
  cases opened : state.decompression with
  | none =>
    refine ⟨{ state with hashed := state.hashed ++ chunk }, fun fuel _ => ?_⟩
    simp only [readChunk, opened]
  | some decompression =>
    have ends := fun fuel ge => decompressChunk_ends progresses header payloadOffset
      (callBound patience) fuel chunk decompression (callsLeft_lt_callBound header small _) ge
    obtain ⟨outcome, chunked⟩ := Option.isSome_iff_exists.mp (ends _ le_rfl).2
    have each : ∀ fuel ≥ callBound patience,
        decompressChunk zstd header payloadOffset fuel chunk decompression = some outcome :=
      fun fuel ge => (ends fuel ge).1.trans chunked
    cases outcome with
    | error issue =>
      refine ⟨{ hashed := state.hashed ++ chunk, decompression := none
                issues := state.issues ++ [issue] }, fun fuel ge => ?_⟩
      simp only [readChunk, opened, each fuel ge]
    | ok after =>
      refine ⟨{ state with hashed := state.hashed ++ chunk, decompression := some after },
        fun fuel ge => ?_⟩
      simp only [readChunk, opened, each fuel ge]

/-- Reading a payload ends, whatever the reader holds. -/
theorem readPayload_ends (readError : String) (progresses : zstd.Progresses stalls patience) (header : BlockHeaderV1)
    (payloadOffset : Nat) : ∀ (rounds remaining : Nat) (rest : Bytes) (state : PayloadState σ),
    ∃ read, ∀ fuel ≥ callBound patience,
      readPayload zstd readError fuel header payloadOffset rounds remaining rest state = some read := by
  intro rounds
  induction rounds with
  | zero => exact fun _ rest state => ⟨{ rest, state, readError := none }, fun _ _ => rfl⟩
  | succ rounds ih =>
    intro remaining rest state
    by_cases done : remaining = 0
    · exact ⟨{ rest, state, readError := none }, fun fuel _ => by rw [readPayload, if_pos done]⟩
    cases readable : readExact readError rest (min remaining kPayloadChunkSize) with
    | error message =>
      refine ⟨{ rest, state, readError := some message }, fun fuel _ => ?_⟩
      simp only [readPayload, if_neg done, readable]
    | ok chunk =>
      obtain ⟨chunk, after⟩ := chunk
      have small : chunk.length ≤ kPayloadChunkSize := by
        unfold readExact at readable
        split_ifs at readable
        cases readable
        rw [List.length_take]
        omega
      obtain ⟨next, chunked⟩ := readChunk_ends progresses header payloadOffset small state
      obtain ⟨read, ends⟩ := ih (remaining - min remaining kPayloadChunkSize) after next
      exact ⟨read, fun fuel ge => by rw [readPayload_chunk done readable (chunked fuel ge), ends fuel ge]⟩

theorem validatePayload_ends (blake3 : Bytes → Blake3Digest) (options : ParseOptions)
    (readError : String) (progresses : zstd.Progresses stalls patience) (header : BlockHeaderV1)
    (payloadOffset : Nat) (rest : Bytes) : ∃ outcome, ∀ fuel ≥ callBound patience,
      validatePayload zstd blake3 options readError fuel header payloadOffset rest = some outcome := by
  obtain ⟨read, ends⟩ := readPayload_ends readError progresses header payloadOffset
    header.compressedSize.toNat header.compressedSize.toNat rest
    (startDecompression zstd options payloadOffset)
  cases failed : read.readError with
  | some message =>
    refine ⟨(read.rest, read.state.issues, some message), fun fuel ge => ?_⟩
    simp only [validatePayload, ends fuel ge, failed]
  | none =>
    refine ⟨(read.rest,
      read.state.issues ++ payloadIssues blake3 options header payloadOffset read.state, none),
      fun fuel ge => ?_⟩
    simp only [validatePayload, ends fuel ge, failed]

end Ends

/-! ## Reading no more than a payload -/

/-- Where a payload is there to be read, nothing behind it is looked at. -/
theorem readPayload_part (zstd : Zstd σ) (header : BlockHeaderV1) (payloadOffset fuel : Nat) :
    ∀ (rounds : Nat) (payload : Bytes) (state : PayloadState σ), payload.length ≤ rounds →
    ∃ outcome : Option (PayloadState σ), ∀ (readError : String) (after : Bytes),
      readPayload zstd readError fuel header payloadOffset rounds payload.length (payload ++ after)
          state =
        outcome.map fun state => { rest := after, state, readError := none } := by
  intro rounds
  induction rounds with
  | zero =>
    intro payload state few
    obtain rfl := List.length_eq_zero_iff.mp (Nat.le_zero.mp few)
    exact ⟨some state, fun _ _ => rfl⟩
  | succ rounds ih =>
    intro payload state few
    by_cases empty : payload = []
    · subst empty
      exact ⟨some state, fun _ _ => by rw [readPayload, if_pos List.length_nil]; rfl⟩
    have positive := List.length_pos_iff.mpr empty
    let size := min payload.length kPayloadChunkSize
    have sized : size ≤ payload.length := Nat.min_le_left _ _
    have sizePositive : 0 < size := Nat.lt_min.mpr ⟨positive, by decide⟩
    have readable : ∀ (readError : String) (after : Bytes), readExact readError (payload ++ after) size =
        .ok (payload.take size, payload.drop size ++ after) := by
      intro readError after
      rw [readExact, if_neg, List.take_append_of_le_length sized, List.drop_append_of_le_length sized]
      rw [List.length_append]
      omega
    have restLength : (payload.drop size).length = payload.length - size := List.length_drop
    cases chunked : readChunk zstd fuel header payloadOffset (payload.take size) state with
    | none =>
      refine ⟨none, fun readError after => ?_⟩
      have read := readable readError after
      simp only [size] at read chunked
      simp only [readPayload, if_neg (Nat.ne_of_gt positive), read, chunked]
      rfl
    | some next =>
      obtain ⟨outcome, same⟩ := ih (payload.drop size) next (by omega)
      refine ⟨outcome, fun readError after => ?_⟩
      rw [readPayload_chunk (Nat.ne_of_gt positive) (readable readError after) chunked, ← restLength,
        same]

theorem validatePayload_part (zstd : Zstd σ) (blake3 : Bytes → Blake3Digest) (options : ParseOptions)
    {header : BlockHeaderV1} {payload : Bytes} (payloadOffset fuel : Nat)
    (whole : payload.length = header.compressedSize.toNat) :
    ∃ outcome : Option (List BlockStreamIssue), ∀ (readError : String) (after : Bytes),
      validatePayload zstd blake3 options readError fuel header payloadOffset (payload ++ after) =
        outcome.map fun issues => (after, issues, none) := by
  obtain ⟨outcome, same⟩ := readPayload_part zstd header payloadOffset fuel payload.length
    payload (startDecompression zstd options payloadOffset) le_rfl
  refine ⟨outcome.map fun state =>
    state.issues ++ payloadIssues blake3 options header payloadOffset state, fun readError after => ?_⟩
  rw [validatePayload, ← whole, same]
  cases outcome <;> rfl

/-- Where a payload is there to be read, reading it ends with the same issues
whatever follows it. -/
theorem validatePayload_reads (blake3 : Bytes → Blake3Digest) (options : ParseOptions)
    {stalls : σ → Nat} {patience : Nat}
    (progresses : zstd.Progresses stalls patience) {header : BlockHeaderV1} {payload : Bytes}
    (payloadOffset : Nat) (whole : payload.length = header.compressedSize.toNat) :
    ∃ issues, ∀ fuel ≥ callBound patience, ∀ (readError : String) (after : Bytes),
      validatePayload zstd blake3 options readError fuel header payloadOffset (payload ++ after) =
        some (after, issues, none) := by
  obtain ⟨outcome, ends⟩ := validatePayload_ends blake3 options "" progresses header payloadOffset (payload ++ [])
  have each : ∀ fuel ≥ callBound patience, ∃ issues, outcome = ([], issues, none) ∧
      ∀ (readError : String) (after : Bytes),
        validatePayload zstd blake3 options readError fuel header payloadOffset (payload ++ after) =
          some (after, issues, none) := by
    intro fuel ge
    obtain ⟨found, same⟩ := validatePayload_part zstd blake3 options payloadOffset fuel whole
    have alone := same "" []
    rw [ends fuel ge] at alone
    cases found with
    | none => cases alone
    | some issues => exact ⟨issues, Option.some.inj alone, same⟩
  obtain ⟨issues, rfl, -⟩ := each _ le_rfl
  refine ⟨issues, fun fuel ge readError after => ?_⟩
  obtain ⟨others, same, reads⟩ := each fuel ge
  cases same
  exact reads readError after

/-! ## The loop over the blocks -/

/-- The headers of a stream's blocks, each where the one before it ends. -/
def HeadersTile (stream : Bytes) : Nat → List BlockHeaderV1 → Prop
  | offset, [] => offset = stream.length
  | offset, header :: rest =>
    header = parseHeader (slice stream offset kBlockHeaderSize) offset ∧
      offset + kBlockHeaderSize + header.compressedSize.toNat ≤ stream.length ∧
      HeadersTile stream (offset + kBlockHeaderSize + header.compressedSize.toNat) rest

theorem readExact_ok {rest : Bytes} {count : Nat} (readError : String) (extra : Bytes)
    (inside : count ≤ rest.length) :
    readExact readError (rest ++ extra) count = .ok (rest.take count, rest.drop count ++ extra) := by
  rw [readExact, if_neg, List.take_append_of_le_length inside, List.drop_append_of_le_length inside]
  rw [List.length_append]
  omega

theorem checkedAdd_cases (lhs rhs : Nat) :
    checkedAdd lhs rhs = none ∨ checkedAdd lhs rhs = some (lhs + rhs) := by
  unfold checkedAdd
  split_ifs
  · exact .inl rfl
  · exact .inr rfl

section Rounds

variable {stalls : σ → Nat} {patience : Nat}

/-- One round where the rest of the stream is there to be read: the loop ends, with
an issue unless nothing is left, or goes on behind one more block. -/
theorem parseBlocks_round (blake3 : Bytes → Blake3Digest) (options : ParseOptions)
    (progresses : zstd.Progresses stalls patience) {streamSize offset : Nat}
    {rest : Bytes} (here : offset + rest.length = streamSize) (result : ParseResult) :
    (∃ final : ParseResult, (final.issues = [] → rest = [] ∧ final = result) ∧
      ∀ fuel ≥ callBound patience, ∀ (readError : String) (extra : Bytes) (rounds : Nat),
        parseBlocks zstd blake3 options readError fuel streamSize (rounds + 1) offset (rest ++ extra)
          result = some final) ∨
    ∃ header issues, header = parseHeader (rest.take kBlockHeaderSize) offset ∧
      kBlockHeaderSize + header.compressedSize.toNat ≤ rest.length ∧
      (issues = [] → validateHeader options (rest.take kBlockHeaderSize) header = []) ∧
      ∀ fuel ≥ callBound patience, ∀ (readError : String) (extra : Bytes) (rounds : Nat),
        parseBlocks zstd blake3 options readError fuel streamSize (rounds + 1) offset (rest ++ extra)
            result =
          parseBlocks zstd blake3 options readError fuel streamSize rounds
            (offset + kBlockHeaderSize + header.compressedSize.toNat)
            (rest.drop (kBlockHeaderSize + header.compressedSize.toNat) ++ extra)
            { blocks := result.blocks ++ [header], issues := result.issues ++ issues } := by
  by_cases done : streamSize ≤ offset
  · have empty : rest = [] := List.length_eq_zero_iff.mp (by omega)
    exact .inl ⟨result, fun _ => ⟨empty, rfl⟩, fun _ _ _ _ _ => by rw [parseBlocks, if_pos done]⟩
  by_cases short : streamSize - offset < kBlockHeaderSize
  · refine .inl ⟨_, ?_, fun fuel _ _ _ _ => by rw [parseBlocks, if_neg done, if_pos short]⟩
    simp [ParseResult.addIssue]
  have headerInside : kBlockHeaderSize ≤ rest.length := by omega
  obtain ⟨header, parsed⟩ : ∃ header, header = parseHeader (rest.take kBlockHeaderSize) offset :=
    ⟨_, rfl⟩
  let headed : ParseResult :=
    { blocks := result.blocks ++ [header]
      issues := result.issues ++ validateHeader options (rest.take kBlockHeaderSize) header ++
        issueIf (options.verifyHashes &&
            (computeHeaderBlake3 blake3 (rest.take kBlockHeaderSize)).bytes != header.headerBlake3)
          .invalidHash offset "Block header_blake3 does not match header bytes." }
  have reported : ∀ issue, (headed.addIssue issue).issues ≠ [] := fun issue => by
    simp [ParseResult.addIssue]
  rcases checkedAdd_cases offset kBlockHeaderSize with start | start
  · refine .inl ⟨headed.addIssue ⟨.invalidHeader, offset, "Block offset overflow."⟩,
      fun accepted => absurd accepted (reported _), ?_⟩
    intro fuel _ readError extra rounds
    rw [parseBlocks, if_neg done, if_neg short, readExact_ok readError extra headerInside]
    simp only [← parsed, start]
    rfl
  rcases checkedAdd_cases (offset + kBlockHeaderSize) header.compressedSize.toNat with next | next
  · refine .inl ⟨headed.addIssue ⟨.invalidHeader, offset, "Block compressed payload range overflows."⟩,
      fun accepted => absurd accepted (reported _), ?_⟩
    intro fuel _ readError extra rounds
    rw [parseBlocks, if_neg done, if_neg short, readExact_ok readError extra headerInside]
    simp only [← parsed, start, next]
    rfl
  by_cases outside : streamSize < offset + kBlockHeaderSize + header.compressedSize.toNat
  · refine .inl ⟨headed.addIssue ⟨.invalidHeader, offset, "Block compressed payload extends past the stream length."⟩,
      fun accepted => absurd accepted (reported _), ?_⟩
    intro fuel _ readError extra rounds
    rw [parseBlocks, if_neg done, if_neg short, readExact_ok readError extra headerInside]
    simp only [← parsed, start, next, if_pos outside]
    rfl
  by_cases guarded : options.maxCompressedPayloadBytes < header.compressedSize ∨
      options.maxUncompressedPayloadBytes < header.uncompressedSize
  · -- A size above its guard has been reported with the header.
    refine .inl ⟨headed, fun accepted => absurd guarded ?_, ?_⟩
    · have valid := (List.append_eq_nil_iff.mp (List.append_eq_nil_iff.mp accepted).1).2
      obtain ⟨-, -, compressed, uncompressed⟩ := sizes_of_validateHeader valid
      exact not_or.mpr ⟨UInt64.not_lt.mpr compressed, UInt64.not_lt.mpr uncompressed⟩
    · intro fuel _ readError extra rounds
      rw [parseBlocks, if_neg done, if_neg short, readExact_ok readError extra headerInside]
      simp only [← parsed, start, next, if_neg outside, if_pos guarded]
      rfl
  have inside : kBlockHeaderSize + header.compressedSize.toNat ≤ rest.length := by omega
  have whole : ((rest.drop kBlockHeaderSize).take header.compressedSize.toNat).length =
      header.compressedSize.toNat := by
    rw [List.length_take, List.length_drop]
    omega
  have split : rest.drop kBlockHeaderSize = (rest.drop kBlockHeaderSize).take header.compressedSize.toNat ++
      rest.drop (kBlockHeaderSize + header.compressedSize.toNat) := by
    rw [← List.drop_drop, List.take_append_drop]
  obtain ⟨issues, reads⟩ := validatePayload_reads blake3 options progresses
    (offset + kBlockHeaderSize) whole
  refine .inr ⟨header, validateHeader options (rest.take kBlockHeaderSize) header ++
    issueIf (options.verifyHashes &&
        (computeHeaderBlake3 blake3 (rest.take kBlockHeaderSize)).bytes != header.headerBlake3)
      .invalidHash offset "Block header_blake3 does not match header bytes." ++ issues, parsed, inside,
    fun accepted => ?_, ?_⟩
  · exact (List.append_eq_nil_iff.mp (List.append_eq_nil_iff.mp accepted).1).1
  · intro fuel ge readError extra rounds
    rw [parseBlocks, if_neg done, if_neg short, readExact_ok readError extra headerInside, split,
      List.append_assoc]
    simp only [← parsed, start, next, if_neg outside, if_neg guarded, reads fuel ge]
    rw [← List.append_assoc, ← List.append_assoc]

/-- The loop over a stream that is there to be read: however many rounds there are
above its bytes and whatever is behind it, the result is the same, and without an
issue the blocks tile the stream with exact sizes. -/
theorem parseBlocks_run (blake3 : Bytes → Blake3Digest) (options : ParseOptions)
    (progresses : zstd.Progresses stalls patience) (stream : Bytes) :
    ∀ (rounds offset : Nat) (result : ParseResult), offset ≤ stream.length →
    stream.length - offset ≤ rounds →
    ∃ final : ParseResult,
      (∀ fuel ≥ callBound patience, ∀ (readError : String) (extra : Bytes), ∀ more ≥ rounds,
        parseBlocks zstd blake3 options readError fuel stream.length more offset
          (stream.drop offset ++ extra) result = some final) ∧
      (final.issues = [] → result.issues = [] ∧ ∃ found, final.blocks = result.blocks ++ found ∧
        HeadersTile stream offset found ∧
        ∀ header ∈ found, ∀ size, impliedSize header = some size →
          header.uncompressedSize.toNat = size) := by
  intro rounds
  induction rounds with
  | zero =>
    intro offset result within few
    have done : stream.length ≤ offset := by omega
    refine ⟨result, fun fuel _ readError extra more _ => ?_, fun accepted => ⟨accepted, [], ?_⟩⟩
    · cases more with
      | zero => rfl
      | succ more => rw [parseBlocks, if_pos done]
    · exact ⟨(List.append_nil _).symm, le_antisymm within done, List.forall_mem_nil _⟩
  | succ rounds ih =>
    intro offset result within few
    have here : offset + (stream.drop offset).length = stream.length := by
      rw [List.length_drop]
      omega
    rcases parseBlocks_round blake3 options progresses here result with
      ⟨final, ended, same⟩ | ⟨header, issues, parsed, inside, valid, same⟩
    · refine ⟨final, fun fuel ge readError extra more enough => ?_, fun accepted => ?_⟩
      · obtain ⟨more, rfl⟩ := Nat.exists_eq_succ_of_ne_zero (Nat.ne_zero_of_lt enough)
        exact same fuel ge readError extra more
      · obtain ⟨empty, rfl⟩ := ended accepted
        have isEnd := List.drop_eq_nil_iff.mp empty
        exact ⟨accepted, [], (List.append_nil _).symm, le_antisymm within isEnd,
          List.forall_mem_nil _⟩
    · rw [List.length_drop] at inside
      have positive : 0 < kBlockHeaderSize := by decide
      obtain ⟨final, rest, tiles⟩ := ih (offset + kBlockHeaderSize + header.compressedSize.toNat)
        { blocks := result.blocks ++ [header], issues := result.issues ++ issues }
        (by omega) (by omega)
      refine ⟨final, fun fuel ge readError extra more enough => ?_, fun accepted => ?_⟩
      · obtain ⟨more, rfl⟩ := Nat.exists_eq_succ_of_ne_zero (Nat.ne_zero_of_lt enough)
        rw [same fuel ge readError extra more, List.drop_drop, ← Nat.add_assoc]
        exact rest fuel ge readError extra more (Nat.le_of_succ_le_succ enough)
      · obtain ⟨noIssue, found, blocks, tiled, sizes⟩ := tiles accepted
        obtain ⟨before, none⟩ := List.append_eq_nil_iff.mp noIssue
        obtain ⟨checked, nonzero, -⟩ := sizes_of_validateHeader (valid none)
        refine ⟨before, header :: found, ?_, ⟨parsed, by omega, tiled⟩, ?_⟩
        · rw [blocks, List.append_assoc]
          rfl
        · exact List.forall_mem_cons.mpr
            ⟨fun size implied => exact_of_validate checked nonzero implied, sizes⟩

end Rounds

/-- The parser ends on every stream, reads nothing behind it, and where it reports
no issue, the blocks tile the stream and every size a block's dimensions imply is
exactly its payload size. -/
theorem parseBlockStream_exact {stalls : σ → Nat} {patience : Nat}
    (progresses : zstd.Progresses stalls patience) (blake3 : Bytes → Blake3Digest)
    (options : ParseOptions) (readError : String) (stream : Bytes) :
    ∃ result : ParseResult,
      (∀ fuel ≥ callBound patience,
        parseBlockStream zstd blake3 options readError fuel stream = some result) ∧
      (stream ≠ [] → ∀ fuel ≥ callBound patience, ∀ (readError' : String) (extra : Bytes),
        ∀ rounds ≥ stream.length,
          parseBlocks zstd blake3 options readError' fuel stream.length rounds 0 (stream ++ extra) {} =
            some result) ∧
      (result.issues = [] → HeadersTile stream 0 result.blocks ∧
        ∀ header ∈ result.blocks, ∀ size, impliedSize header = some size →
          header.uncompressedSize.toNat = size) := by
  by_cases empty : stream = []
  · subst empty
    refine ⟨_, fun _ _ => rfl, fun some => absurd rfl some, fun _ => ⟨rfl, List.forall_mem_nil _⟩⟩
  obtain ⟨result, same, tiles⟩ := parseBlocks_run blake3 options progresses
    stream stream.length 0 {} (Nat.zero_le _) (Nat.sub_le _ _)
  refine ⟨result, fun fuel ge => ?_, fun _ => same, fun accepted => ?_⟩
  · have alone := same fuel ge readError [] stream.length le_rfl
    rw [List.append_nil, List.drop_zero] at alone
    rw [parseBlockStream, if_neg fun isEmpty => empty (List.isEmpty_iff.mp isEmpty), alone]
  · obtain ⟨-, found, blocks, tiled, sizes⟩ := tiles accepted
    rw [List.nil_append] at blocks
    rw [blocks]
    exact ⟨tiled, sizes⟩

/-! The library that stores payloads, with the library's answer to a call that gets
nowhere. -/

def storedZstdStrict : Zstd Bytes :=
  { storedZstd with
    decompressStream := fun seen input room =>
      let step := storedCall seen input room
      if step.consumed = 0 ∧ step.produced = [] then .error "Operation made no progress"
      else .ok step }

theorem storedZstdStrict_progresses : storedZstdStrict.Progresses (fun _ => 0) 0 where
  moves := by
    intro stream input room step _ _ called
    simp only [storedZstdStrict] at called
    split_ifs at called with stalled
    cases called
    rcases not_and_or.mp stalled with consumed | produced
    · exact .inl (Nat.pos_of_ne_zero consumed)
    · exact .inr (.inl produced)
  patient := fun _ => le_rfl

def depthStream : Bytes :=
  match writeBlock storedZstdStrict depthBlake3 [] depthSpec [1, 0] with
  | .ok (stream, _) => stream
  | .error _ => []

theorem parseBlockStream_exact_depth : ∃ header : BlockHeaderV1,
    parseBlockStream storedZstdStrict depthBlake3 {} "read past end" (callBound 0) depthStream =
        some { blocks := [header], issues := [] } ∧
      HeadersTile depthStream 0 [header] ∧ header.uncompressedSize.toNat = 2 := by
  obtain ⟨result, ends, -, sizes⟩ :=
    parseBlockStream_exact storedZstdStrict_progresses depthBlake3 {} "read past end" depthStream
  have parsed : parseBlockStream storedZstdStrict depthBlake3 {} "read past end" (callBound 0)
      depthStream = some { blocks := [parseHeader (depthStream.take kBlockHeaderSize) 0], issues := [] } := by
    decide +kernel
  have same := Option.some.inj ((ends _ le_rfl).symm.trans parsed)
  rw [same] at sizes
  obtain ⟨tiled, exact_⟩ := sizes rfl
  exact ⟨_, parsed, tiled, exact_ _ List.mem_cons_self 2 (by decide)⟩

end Svp.Blocks

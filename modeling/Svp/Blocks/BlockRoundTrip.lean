import Svp.Blocks.BlockAcceptance

/-!
# Written blocks parse back

`blockStream_roundTrip`: a stream of blocks that follow the format parses without
an issue to the headers that were written, and both writers write it. The step is
one block (`parseBlocks_block`), the run an induction on the blocks.
-/

namespace Svp.Blocks

open Exec (Bytes Blake3Digest utf8)
open Lib (littleEndian)

variable {σ : Type} {zstd : Zstd σ} {Decoding : σ → Bytes → Bytes → Prop}
  {blake3 : Bytes → Blake3Digest} {options : ParseOptions} {readError : String}

/-! ## One block -/

/-- The hash of the header of a block whose compressed payload is `frame`. -/
def writtenHeaderHash (blake3 : Bytes → Blake3Digest) (spec : BlockWriteSpec)
    (payload frame : Bytes) : Blake3Digest :=
  blake3 (headerBytes spec (.ofNat payload.length) (.ofNat frame.length) (blake3 frame).bytes
    (List.replicate kHashSize 0))

/-- The bytes of the header. -/
def writtenHeaderBytes (blake3 : Bytes → Blake3Digest) (spec : BlockWriteSpec)
    (payload frame : Bytes) : Bytes :=
  headerBytes spec (.ofNat payload.length) (.ofNat frame.length) (blake3 frame).bytes
    (writtenHeaderHash blake3 spec payload frame).bytes

section Block

variable {spec : BlockWriteSpec} {payload frame outputStream : Bytes}

theorem computeHeaderBlake3_headerBytes {headerHash : Bytes} (headerSize : headerHash.length = kHashSize) :
    computeHeaderBlake3 blake3 (headerBytes spec (.ofNat payload.length) (.ofNat frame.length)
      (blake3 frame).bytes headerHash) = writtenHeaderHash blake3 spec payload frame := by
  rw [computeHeaderBlake3, overwrite_headerBytes (blake3 frame).size headerSize List.length_replicate]
  rfl

theorem makeBlockHeader_eq :
    makeBlockHeader blake3 spec (.ofNat payload.length) (.ofNat frame.length) (blake3 frame) =
      (writtenHeaderBytes blake3 spec payload frame, writtenHeaderHash blake3 spec payload frame) := by
  rw [makeBlockHeader, computeHeaderBlake3_headerBytes List.length_replicate,
    overwrite_headerBytes (blake3 frame).size List.length_replicate (Blake3Digest.size _)]
  rfl

theorem length_writtenHeaderBytes (blake3 : Bytes → Blake3Digest) (spec : BlockWriteSpec)
    (payload frame : Bytes) :
    (writtenHeaderBytes blake3 spec payload frame).length = kBlockHeaderSize :=
  length_headerBytes (blake3 frame).size (Blake3Digest.size _)

/-- What the record of a written block says. -/
def writtenInfo (blake3 : Bytes → Blake3Digest) (spec : BlockWriteSpec) (payload frame : Bytes)
    (offset : Nat) : WrittenBlockInfo :=
  makeBlockInfo offset frame.length payload.length (blake3 frame)
    (writtenHeaderHash blake3 spec payload frame)

/-- Writing a block appends its header and its frame. -/
theorem writeBlock_eq_ok {result : Bytes × WrittenBlockInfo} :
    writeBlock zstd blake3 outputStream spec payload = .ok result ↔
      payload ≠ [] ∧ ∃ frame, zstd.compress payload = .ok frame ∧ frame ≠ [] ∧
        result = (outputStream ++ (writtenHeaderBytes blake3 spec payload frame ++ frame),
          writtenInfo blake3 spec payload frame outputStream.length) := by
  unfold writeBlock
  by_cases empty : payload = []
  · simp [empty]
  cases compressed : zstd.compress payload with
  | error message => simp [empty, bind, Except.bind]
  | ok frame =>
    by_cases none : frame = []
    · simp [empty, none, bind, Except.bind]
    · simp only [bind, Except.bind, makeBlockHeader_eq, List.isEmpty_iff, empty, none, if_false,
        List.append_assoc]
      constructor
      · intro same
        exact ⟨empty, frame, rfl, none, (Except.ok.inj same).symm⟩
      · rintro ⟨-, _, same, -, rfl⟩
        cases same
        rfl

/-- The other writer checks the stream as well. -/
theorem writeBlockToStream_eq_ok {io : StreamIo} {result : Bytes × WrittenBlockInfo} :
    writeBlockToStream zstd blake3 io outputStream spec payload = .ok result ↔
      writeBlock zstd blake3 outputStream spec payload = .ok result ∧
        io.positioned outputStream = true ∧ outputStream.length ≤ kMaxU64 - kBlockHeaderSize ∧
        io.writes result.1 = true := by
  unfold writeBlockToStream writeBlock
  by_cases empty : payload = []
  · simp [empty]
  by_cases positioned : io.positioned outputStream = true
  swap
  · simp [empty, positioned]
  by_cases far : kMaxU64 - kBlockHeaderSize < outputStream.length
  · simp [empty, positioned, far]
  cases compressed : zstd.compress payload with
  | error message => simp [empty, positioned, far, bind, Except.bind]
  | ok frame =>
    by_cases none : frame = []
    · simp [empty, positioned, far, none, bind, Except.bind]
    · simp only [bind, Except.bind, makeBlockHeader_eq, List.isEmpty_iff, empty, none, positioned, far,
        if_false, Bool.not_true, Bool.false_eq_true, true_and, not_lt.mp far]
      by_cases writes : io.writes
          (outputStream ++ writtenHeaderBytes blake3 spec payload frame ++ frame) = true
      · simp only [writes, Bool.not_true, Bool.false_eq_true, if_false]
        constructor
        · intro same
          exact ⟨same, (Except.ok.inj same) ▸ writes⟩
        · exact And.left
      · simp only [writes, Bool.not_false, if_true]
        constructor
        · intro same
          cases same
        · rintro ⟨same, wrote⟩
          rw [← Except.ok.inj same] at wrote
          exact absurd wrote writes

/-- A round of the parser that finds no issue. -/
theorem parseBlocks_next {streamSize rounds offset payloadStart nextOffset fuel : Nat}
    {headerBytes rest payloadRest after : Bytes} {header : BlockHeaderV1} {result : ParseResult}
    (more : offset + kBlockHeaderSize ≤ streamSize)
    (read : readExact readError rest kBlockHeaderSize = .ok (headerBytes, payloadRest))
    (parsed : parseHeader headerBytes offset = header)
    (valid : validateHeader options headerBytes header = [])
    (hash : (computeHeaderBlake3 blake3 headerBytes).bytes = header.headerBlake3)
    (start : checkedAdd offset kBlockHeaderSize = some payloadStart)
    (next : checkedAdd payloadStart header.compressedSize.toNat = some nextOffset)
    (inside : nextOffset ≤ streamSize)
    (guards : header.compressedSize ≤ options.maxCompressedPayloadBytes ∧
      header.uncompressedSize ≤ options.maxUncompressedPayloadBytes)
    (payload : validatePayload zstd blake3 options readError fuel header payloadStart payloadRest =
      some (after, [], none)) :
    parseBlocks zstd blake3 options readError fuel streamSize (rounds + 1) offset rest result =
      parseBlocks zstd blake3 options readError fuel streamSize rounds nextOffset after
        { blocks := result.blocks ++ [header], issues := result.issues } := by
  have positive : 0 < kBlockHeaderSize := by decide
  have within : ¬ (options.maxCompressedPayloadBytes < header.compressedSize ∨
      options.maxUncompressedPayloadBytes < header.uncompressedSize) :=
    not_or.mpr ⟨UInt64.not_lt.mpr guards.1, UInt64.not_lt.mpr guards.2⟩
  rw [parseBlocks, if_neg (by omega), if_neg (by omega), read]
  dsimp only
  rw [parsed, valid, hash, start, bne_self_eq_false, Bool.and_false]
  dsimp only
  rw [next]
  dsimp only
  rw [if_neg (by omega), if_neg within, payload]
  show parseBlocks _ _ _ _ _ _ _ _ _ { blocks := _, issues := result.issues ++ [] ++ [] ++ [] } = _
  rw [List.append_nil, List.append_nil, List.append_nil]

/-- Parsing a written block: its header, no issue, and on to what follows it. -/
theorem parseBlocks_block (undoes : zstd.Undoes Decoding)
    (verified : options.verifyZstdDecompression = true)
    (guard : options.maxUncompressedPayloadBytes ≤ kMaxBlockPayloadBytes)
    (follows : spec.Follows payload) (allow : options.Allow zstd spec payload)
    (compressed : zstd.compress payload = .ok frame) (nonempty : frame ≠ [])
    {streamSize rounds offset fuel : Nat} {after : Bytes} (result : ParseResult)
    (whole : offset + (kBlockHeaderSize + frame.length) + after.length = streamSize)
    (fits : streamSize ≤ kMaxU64) (enough : frame.length + payload.length < fuel) :
    parseBlocks zstd blake3 options readError fuel streamSize (rounds + 1) offset
        (writtenHeaderBytes blake3 spec payload frame ++ (frame ++ after)) result =
      parseBlocks zstd blake3 options readError fuel streamSize rounds
        (offset + (kBlockHeaderSize + frame.length)) after
        { blocks := result.blocks ++ [writtenHeader spec offset (.ofNat payload.length)
            (.ofNat frame.length) (blake3 frame).bytes
            (writtenHeaderHash blake3 spec payload frame).bytes]
          issues := result.issues } := by
  have frameSize := ofNat_length nonempty (allow.compressedSize frame compressed)
  have contentSize := ofNat_length follows.nonempty allow.size
  have positive := List.length_pos_iff.mpr nonempty
  have headerLength := length_writtenHeaderBytes blake3 spec payload frame
  have read : readExact readError
      (writtenHeaderBytes blake3 spec payload frame ++ (frame ++ after)) kBlockHeaderSize =
      .ok (writtenHeaderBytes blake3 spec payload frame, frame ++ after) := by
    rw [readExact, if_neg, List.take_left' headerLength, List.drop_left' headerLength]
    rw [List.length_append, headerLength]
    omega
  have start : checkedAdd offset kBlockHeaderSize = some (offset + kBlockHeaderSize) := by
    rw [checkedAdd, if_neg (by omega)]
  have next : checkedAdd (offset + kBlockHeaderSize) (UInt64.ofNat frame.length).toNat =
      some (offset + (kBlockHeaderSize + frame.length)) := by
    rw [frameSize.value, checkedAdd, if_neg (by omega), Nat.add_assoc]
  refine parseBlocks_next (by omega) read
    (parseHeader_headerBytes (blake3 frame).size (writtenHeaderHash blake3 spec payload frame).size _)
    ?_ ?_ start next (by omega) ⟨frameSize.guard, contentSize.guard⟩ ?_
  · exact validateHeader_written follows allow compressed nonempty guard (blake3 frame).size
      (writtenHeaderHash blake3 spec payload frame).size
  · exact congrArg Blake3Digest.bytes
      (computeHeaderBlake3_headerBytes (writtenHeaderHash blake3 spec payload frame).size)
  · exact validatePayload_frame undoes verified compressed nonempty frameSize.value contentSize.value
      rfl enough

end Block

/-! ## The stream -/

/-- The records cover the stream from `start` to `stop`, one behind the other. -/
def Tiles : Nat → List WrittenBlockInfo → Nat → Prop
  | start, [], stop => start = stop
  | start, info :: rest, stop =>
    info.blockOffset = start ∧ info.payloadOffset = start + kBlockHeaderSize ∧
      info.blockLength = kBlockHeaderSize + info.compressedSize ∧
      Tiles (start + info.blockLength) rest stop

/-- The header a record and its block describe. -/
def headerOf (block : BlockWriteSpec × Bytes) (info : WrittenBlockInfo) : BlockHeaderV1 :=
  writtenHeader block.1 info.blockOffset (.ofNat block.2.length) (.ofNat info.compressedSize)
    info.payloadBlake3.bytes info.headerBlake3.bytes

/-- Rounds of the inner loop that are enough for one block. -/
def blockFuel (zstd : Zstd σ) (block : BlockWriteSpec × Bytes) : Nat :=
  match zstd.compress block.2 with
  | .ok frame => frame.length + block.2.length + 1
  | .error _ => 0

section Stream

variable {blocks : List (BlockWriteSpec × Bytes)} {stream : Bytes} {infos : List WrittenBlockInfo}

theorem writeBlocks_cons {write : Bytes → BlockWriteSpec → Bytes →
    Except String (Bytes × WrittenBlockInfo)} {spec : BlockWriteSpec} {payload outputStream : Bytes}
    {result : Bytes × List WrittenBlockInfo} :
    writeBlocks write ((spec, payload) :: blocks) outputStream = .ok result ↔
      ∃ next info infos, write outputStream spec payload = .ok (next, info) ∧
        writeBlocks write blocks next = .ok (result.1, infos) ∧ result.2 = info :: infos := by
  rw [writeBlocks]
  cases wrote : write outputStream spec payload with
  | error message => simp [bind, Except.bind]
  | ok first =>
    obtain ⟨next, info⟩ := first
    cases rest : writeBlocks write blocks next with
    | error message => simp [bind, Except.bind, rest]
    | ok last =>
      obtain ⟨final, infos⟩ := last
      obtain ⟨out, records⟩ := result
      simp only [bind, Except.bind, rest, Except.ok.injEq, Prod.mk.injEq]
      constructor
      · rintro ⟨rfl, rfl⟩
        exact ⟨next, info, infos, ⟨rfl, rfl⟩, rest, rfl⟩
      · rintro ⟨_, _, infos', ⟨rfl, rfl⟩, same, rfl⟩
        rw [rest] at same
        cases same
        exact ⟨rfl, rfl⟩

/-- What writing appends, read from where it was appended. -/
theorem parseBlocks_written (undoes : zstd.Undoes Decoding)
    (verified : options.verifyZstdDecompression = true)
    (guard : options.maxUncompressedPayloadBytes ≤ kMaxBlockPayloadBytes)
    (fits : stream.length ≤ kMaxU64) {fuel : Nat} (readError : String) : ∀ {outputStream : Bytes}
    {infos : List WrittenBlockInfo},
    (∀ block ∈ blocks, block.1.Follows block.2 ∧ options.Allow zstd block.1 block.2 ∧
      blockFuel zstd block ≤ fuel) →
    writeBlocks (writeBlock zstd blake3) blocks outputStream = .ok (stream, infos) →
    ∃ written, stream = outputStream ++ written ∧ infos.length = blocks.length ∧
      Tiles outputStream.length infos stream.length ∧
      ∀ (rounds : Nat) (result : ParseResult), written.length ≤ rounds →
        parseBlocks zstd blake3 options readError fuel stream.length rounds outputStream.length written
          result =
        some { blocks := result.blocks ++ List.zipWith headerOf blocks infos
               issues := result.issues } := by
  induction blocks with
  | nil =>
    intro outputStream infos _ wrote
    cases wrote
    refine ⟨[], (List.append_nil _).symm, rfl, rfl, fun rounds result _ => ?_⟩
    cases rounds with
    | zero => simp [parseBlocks]
    | succ rounds => simp [parseBlocks]
  | cons block blocks ih =>
    intro outputStream infos ok wrote
    obtain ⟨spec, payload⟩ := block
    obtain ⟨next, info, rest, first, others, rfl⟩ := writeBlocks_cons.mp wrote
    obtain ⟨-, frame, compressed, nonempty, same⟩ := writeBlock_eq_ok.mp first
    obtain ⟨rfl, rfl⟩ := Prod.mk.inj same
    obtain ⟨follows, allow, enough⟩ := ok (spec, payload) List.mem_cons_self
    rw [blockFuel, compressed] at enough
    obtain ⟨after, whole, counted, tiles, parses⟩ :=
      ih (fun block mem => ok block (List.mem_cons_of_mem _ mem)) others
    have headerLength := length_writtenHeaderBytes blake3 spec payload frame
    have moved : (outputStream ++ (writtenHeaderBytes blake3 spec payload frame ++ frame)).length =
        outputStream.length + (kBlockHeaderSize + frame.length) := by
      rw [List.length_append, List.length_append, headerLength]
    rw [moved] at tiles parses
    refine ⟨writtenHeaderBytes blake3 spec payload frame ++ (frame ++ after), ?_, ?_, ?_, ?_⟩
    · rw [whole, List.append_assoc, List.append_assoc]
    · rw [List.length_cons, List.length_cons, counted]
    · exact ⟨rfl, rfl, rfl, tiles⟩
    · intro rounds result few
      rw [List.length_append, headerLength, List.length_append] at few
      obtain ⟨rounds, rfl⟩ := Nat.exists_eq_succ_of_ne_zero
        (Nat.ne_of_gt (lt_of_lt_of_le (by unfold kBlockHeaderSize; omega) few))
      have total : outputStream.length + (kBlockHeaderSize + frame.length) + after.length =
          stream.length := by
        rw [whole, List.length_append, moved]
      rw [parseBlocks_block undoes verified guard follows allow compressed nonempty result total fits
        enough, parses rounds _ (by unfold kBlockHeaderSize at few; omega), List.append_assoc]
      rfl

/-- A writer that does what another one does, writes what the other one writes. -/
theorem writeBlocks_imp {write other : Bytes → BlockWriteSpec → Bytes →
    Except String (Bytes × WrittenBlockInfo)} (limit : Nat)
    (grows : ∀ outputStream spec payload next info, write outputStream spec payload = .ok (next, info) →
      outputStream.length ≤ next.length)
    (agrees : ∀ outputStream spec payload next info,
      write outputStream spec payload = .ok (next, info) → next.length ≤ limit →
      other outputStream spec payload = .ok (next, info)) :
    ∀ {outputStream : Bytes} {infos : List WrittenBlockInfo}, stream.length ≤ limit →
      writeBlocks write blocks outputStream = .ok (stream, infos) →
      outputStream.length ≤ stream.length ∧
        writeBlocks other blocks outputStream = .ok (stream, infos) := by
  induction blocks with
  | nil =>
    intro outputStream infos _ wrote
    cases wrote
    exact ⟨le_rfl, rfl⟩
  | cons block blocks ih =>
    intro outputStream infos fits wrote
    obtain ⟨spec, payload⟩ := block
    obtain ⟨next, info, rest, first, others, same⟩ := writeBlocks_cons.mp wrote
    obtain ⟨more, others'⟩ := ih fits others
    refine ⟨le_trans (grows _ _ _ _ _ first) more, writeBlocks_cons.mpr
      ⟨next, info, rest, agrees _ _ _ _ _ first (le_trans more fits), others', same⟩⟩

theorem writeBlock_grows {outputStream next payload : Bytes} {spec : BlockWriteSpec}
    {info : WrittenBlockInfo}
    (wrote : writeBlock zstd blake3 outputStream spec payload = .ok (next, info)) :
    outputStream.length + kBlockHeaderSize ≤ next.length := by
  obtain ⟨-, frame, -, -, same⟩ := writeBlock_eq_ok.mp wrote
  rw [(Prod.mk.inj same).1, List.length_append, List.length_append, length_writtenHeaderBytes]
  omega

theorem length_written (nonempty : blocks ≠ [])
    (written : writeBlocks (writeBlock zstd blake3) blocks [] = .ok (stream, infos)) :
    kBlockHeaderSize ≤ stream.length := by
  obtain ⟨⟨spec, payload⟩, blocks, rfl⟩ := List.exists_cons_of_ne_nil nonempty
  obtain ⟨next, info, rest, first, others, -⟩ := writeBlocks_cons.mp written
  have grown := writeBlock_grows first
  have more := (writeBlocks_imp stream.length
    (fun _ _ _ _ _ wrote => le_trans (Nat.le_add_right _ _) (writeBlock_grows wrote))
    (fun _ _ _ _ _ wrote _ => wrote) le_rfl others).1
  exact le_trans (Nat.le_add_left _ _) (le_trans grown more)

/-- What relates the writers and the parser. -/
structure BlockStreamRoundTrip (zstd : Zstd σ) (blake3 : Bytes → Blake3Digest) (options : ParseOptions)
    (readError : String) (blocks : List (BlockWriteSpec × Bytes)) (stream : Bytes)
    (infos : List WrittenBlockInfo) : Prop where
  /-- With enough rounds of the inner loop the stream parses without an issue, to
  the headers that were written. -/
  parsed : ∃ enough, ∀ fuel, enough ≤ fuel →
    parseBlockStream zstd blake3 options readError fuel stream =
      some { blocks := List.zipWith headerOf blocks infos, issues := [] }
  /-- There is one record for each block, and they tile the stream. -/
  recorded : infos.length = blocks.length
  tiled : Tiles 0 infos stream.length
  /-- Writing to an output stream writes the same bytes and records. -/
  streamed : ∀ (io : StreamIo) (result : Bytes × List WrittenBlockInfo),
    writeBlocks (writeBlockToStream zstd blake3 io) blocks [] = .ok result →
    result = (stream, infos)
  streams : ∀ io : StreamIo, io.Works →
    writeBlocks (writeBlockToStream zstd blake3 io) blocks [] = .ok (stream, infos)

/-- Blocks that follow the format and stay within the guards parse back. The size
of a stream is a 64-bit number. -/
theorem blockStream_roundTrip (undoes : zstd.Undoes Decoding)
    (verified : options.verifyZstdDecompression = true)
    (guard : options.maxUncompressedPayloadBytes ≤ kMaxBlockPayloadBytes) (nonempty : blocks ≠ [])
    (follows : ∀ block ∈ blocks, block.1.Follows block.2)
    (allow : ∀ block ∈ blocks, options.Allow zstd block.1 block.2)
    (written : writeBlocks (writeBlock zstd blake3) blocks [] = .ok (stream, infos))
    (fits : stream.length ≤ kMaxU64) :
    BlockStreamRoundTrip zstd blake3 options readError blocks stream infos := by
  have run : ∀ fuel, (blocks.map (blockFuel zstd)).sum ≤ fuel → _ := fun fuel enough =>
    parseBlocks_written undoes verified guard fits readError
      (fun block mem => ⟨follows block mem, allow block mem,
        le_trans (List.single_le_sum (by simp) _ (List.mem_map_of_mem mem)) enough⟩) written
  obtain ⟨-, -, recorded, tiled, -⟩ := run _ le_rfl
  constructor
  case parsed =>
    refine ⟨(blocks.map (blockFuel zstd)).sum, fun fuel enough => ?_⟩
    obtain ⟨bytes, whole, -, -, parses⟩ := run fuel enough
    rw [List.nil_append] at whole
    subst whole
    have more := length_written nonempty written
    rw [parseBlockStream, if_neg (by
      rw [List.isEmpty_iff]
      exact List.ne_nil_of_length_pos (lt_of_lt_of_le (by decide) more))]
    exact parses _ _ le_rfl
  case recorded => exact recorded
  case tiled => exact tiled
  case streamed =>
    intro io result wrote
    have same := writeBlocks_imp result.1.length
      (fun _ _ _ _ _ wrote => le_trans (Nat.le_add_right _ _)
        (writeBlock_grows (writeBlockToStream_eq_ok.mp wrote).1))
      (fun _ _ _ _ _ wrote _ => (writeBlockToStream_eq_ok.mp wrote).1) le_rfl wrote
    rw [written] at same
    exact (Except.ok.inj same.2).symm
  case streams =>
    intro io works
    refine (writeBlocks_imp kMaxU64 (fun _ _ _ _ _ wrote => le_trans (Nat.le_add_right _ _)
      (writeBlock_grows wrote)) (fun _ _ _ _ _ wrote small => ?_) fits written).2
    have grown := writeBlock_grows wrote
    exact writeBlockToStream_eq_ok.mpr ⟨wrote, works.positioned _, by omega, works.writes _⟩

end Stream

/-! A library that stores what it is given in one raw block, as Zstandard does with
payloads too short to compress, and a stream of one depth block. -/

/-- The frame header and the block header of a stored payload. -/
def storedLead (size : Nat) : Bytes :=
  [0x28, 0xB5, 0x2F, 0xFD, 0x20, .ofNat size] ++ littleEndian 3 (size * 8 + 1)

/-- One call, where `seen` was consumed before: the headers, then the payload as it comes. -/
def storedCall (seen input : Bytes) (room : Nat) : ZstdStep Bytes :=
  let lead := min (9 - seen.length) input.length
  let size := ((seen ++ input).getD 5 0).toNat
  let left := size - (seen.length - 9)
  let taken := min (min left (input.length - lead)) room
  { stream := seen ++ input.take (lead + taken)
    consumed := lead + taken
    produced := (input.drop lead).take taken
    result := if 9 ≤ seen.length + lead ∧ taken = left then 0 else 1 }

def storedZstd : Zstd Bytes where
  compress payload :=
    if payload.isEmpty ∨ 255 < payload.length then .error "not stored"
    else .ok (storedLead payload.length ++ payload)
  createDStream := some []
  initDStream _ := .ok []
  decompressStream seen input room := .ok (storedCall seen input room)

/-- The stream stands inside the frame of some payload. -/
def StoredDecoding (seen input output : Bytes) : Prop :=
  ∃ payload : Bytes, payload ≠ [] ∧ payload.length ≤ 255 ∧
    seen ++ input = storedLead payload.length ++ payload ∧ output = payload.drop (seen.length - 9)

theorem length_storedLead (size : Nat) : (storedLead size).length = 9 := rfl

/-- A call that ends inside the headers takes the whole chunk. -/
theorem storedCall_lead {seen chunk : Bytes} {room : Nat} (short : seen.length + chunk.length < 9) :
    storedCall seen chunk room = ⟨seen ++ chunk, chunk.length, [], 1⟩ := by
  have lead : min (9 - seen.length) chunk.length = chunk.length := by omega
  simp only [storedCall, lead, Nat.sub_self, Nat.min_zero, Nat.zero_min, Nat.add_zero, List.take_length,
    List.take_zero, not_le.mpr short, false_and, if_false]

/-- A call that gets behind the headers, whatever the payload. -/
theorem storedCall_content {seen chunk later payload : Bytes} (room : Nat)
    (small : payload.length ≤ 255)
    (whole : seen ++ (chunk ++ later) = storedLead payload.length ++ payload)
    (long : 9 ≤ seen.length + chunk.length) :
    ∃ lead taken, storedCall seen chunk room =
        ⟨seen ++ chunk.take (lead + taken), lead + taken, (chunk.drop lead).take taken,
          if taken = payload.length - (seen.length - 9) then 0 else 1⟩ ∧
      lead = 9 - seen.length ∧
      taken = min (min (payload.length - (seen.length - 9)) (chunk.length - lead)) room := by
  have lead : min (9 - seen.length) chunk.length = 9 - seen.length := by omega
  have size : ((seen ++ chunk).getD 5 0).toNat = payload.length := by
    have fifth : (seen ++ chunk).getD 5 0 = (seen ++ (chunk ++ later)).getD 5 0 := by
      rw [← List.append_assoc, List.getD_append (seen ++ chunk) later 0 5 (by
        rw [List.length_append]
        omega)]
    rw [fifth, whole]
    show (UInt8.ofNat payload.length).toNat = payload.length
    exact UInt8.toNat_ofNat_of_lt' (lt_of_le_of_lt small (by decide))
  refine ⟨_, _, ?_, rfl, rfl⟩
  simp only [storedCall, lead, size, show 9 ≤ seen.length + (9 - seen.length) by omega, true_and]

theorem storedZstd_undoes : storedZstd.Undoes StoredDecoding where
  opens := by
    intro payload frame compressed
    simp only [storedZstd] at compressed
    split_ifs at compressed with bad
    cases compressed
    rw [not_or, List.isEmpty_iff, not_lt] at bad
    exact ⟨[], [], rfl, rfl, payload, bad.1, bad.2, rfl, rfl⟩
  calls := by
    rintro seen chunk input output room ⟨payload, nonempty, small, whole, rfl⟩ some ⟨later, rfl⟩
      positive
    have chunkPositive := List.length_pos_iff.mpr some
    have payloadPositive := List.length_pos_iff.mpr nonempty
    have lengths := congrArg List.length whole
    simp only [List.length_append, length_storedLead] at lengths
    refine ⟨_, rfl, ?_⟩
    by_cases long : 9 ≤ seen.length + chunk.length
    · obtain ⟨lead, taken, call, leadIs, takenIs⟩ := storedCall_content room small whole long
      -- Behind the headers, input and output are the same bytes.
      have same : (chunk ++ later).drop lead = payload.drop (seen.length - 9) := by
        have dropped := congrArg (List.drop (seen.length + lead)) whole
        have behind : (storedLead payload.length).drop (seen.length + lead) = [] :=
          List.drop_eq_nil_of_le (by rw [length_storedLead]; omega)
        have split : (storedLead payload.length ++ payload).drop (seen.length + lead) =
            (storedLead payload.length).drop (seen.length + lead) ++
              payload.drop (seen.length + lead - 9) := List.drop_append
        rw [List.drop_length_add_append, split, behind, List.nil_append] at dropped
        rw [dropped]
        congr 1
        omega
      have rest : (chunk ++ later).drop (lead + taken) =
          payload.drop ((seen ++ chunk.take (lead + taken)).length - 9) := by
        rw [← List.drop_drop, same, List.drop_drop, List.length_append, List.length_take]
        congr 1
        omega
      rw [call]
      refine ⟨?_, .inl ?_, _, ?_, ⟨payload, nonempty, small, ?_, rfl⟩, ?_, ?_⟩
      · show lead + taken ≤ chunk.length
        omega
      · show 0 < lead + taken
        omega
      · show _ = (chunk.drop lead).take taken ++ payload.drop _
        rw [← rest, ← List.drop_drop, same]
        have produced : (chunk.drop lead).take taken = (payload.drop (seen.length - 9)).take taken := by
          rw [← same, List.drop_append_of_le_length (by omega),
            List.take_append_of_le_length (by rw [List.length_drop]; omega)]
        rw [produced, List.take_append_drop]
      · show seen ++ chunk.take (lead + taken) ++ (chunk ++ later).drop (lead + taken) = _
        rw [← whole, List.drop_append_of_le_length (by omega), List.append_assoc,
          ← List.append_assoc (chunk.take _), List.take_append_drop]
      · show (if taken = payload.length - (seen.length - 9) then 0 else 1) = 0 ↔
          (chunk ++ later).drop (lead + taken) = [] ∧ payload.drop _ = []
        rw [← rest, and_self, List.drop_eq_nil_iff, List.length_append]
        split_ifs
        · exact ⟨fun _ => by omega, fun _ => rfl⟩
        · exact ⟨False.elim, fun gone => by omega⟩
      · show (chunk ++ later).drop (lead + taken) = [] → payload.drop _ = []
        rw [rest]
        exact id
    · have dropped : (chunk ++ later).drop chunk.length = later := List.drop_left
      have more : later ≠ [] := List.ne_nil_of_length_pos (by omega)
      show (storedCall seen chunk room).Advances _ _ _ _
      rw [storedCall_lead (not_le.mp long)]
      refine ⟨le_rfl, .inl chunkPositive, payload.drop (seen.length - 9), rfl,
        ⟨payload, nonempty, small, ?_, ?_⟩, ?_, ?_⟩
      · show seen ++ chunk ++ (chunk ++ later).drop chunk.length = _
        rw [dropped, List.append_assoc]
        exact whole
      · show _ = payload.drop ((seen ++ chunk).length - 9)
        rw [List.length_append]
        congr 1
        omega
      · show (1 : Nat) = 0 ↔ (chunk ++ later).drop chunk.length = [] ∧ _
        rw [dropped]
        exact ⟨fun one => absurd one Nat.one_ne_zero, fun gone => absurd gone.1 more⟩
      · show (chunk ++ later).drop chunk.length = [] → _
        rw [dropped]
        exact fun gone => absurd gone more

def depthSpec : BlockWriteSpec where
  extent0 := 1
  extent1 := 1
  extent2 := 1
  frameCount := 1

/-- The two hashes of the sample: of its frame, and of its header. -/
def depthBlake3 (bytes : Bytes) : Blake3Digest :=
  if bytes.length = 11 then
    { bytes := [24, 147, 148, 140, 70, 14, 35, 119, 237, 52, 155, 111, 33, 85, 179, 4,
        237, 4, 252, 117, 137, 175, 146, 95, 0, 108, 185, 26, 195, 192, 39, 106]
      size := rfl }
  else
    { bytes := [196, 96, 129, 187, 71, 75, 174, 215, 87, 36, 167, 19, 70, 50, 78, 18,
        158, 109, 241, 220, 135, 1, 158, 107, 131, 83, 129, 125, 166, 175, 214, 235]
      size := rfl }

theorem blockStream_roundTrip_depth : ∃ stream infos,
    writeBlocks (writeBlock storedZstd depthBlake3) [(depthSpec, [1, 0])] [] = .ok (stream, infos) ∧
      BlockStreamRoundTrip storedZstd depthBlake3 {} "read past end" [(depthSpec, [1, 0])] stream
        infos := by
  obtain ⟨stream, infos, written, size⟩ : ∃ stream infos,
      writeBlocks (writeBlock storedZstd depthBlake3) [(depthSpec, [1, 0])] [] = .ok (stream, infos) ∧
        stream.length ≤ kMaxU64 := ⟨_, _, rfl, by decide +kernel⟩
  refine ⟨stream, infos, written, blockStream_roundTrip storedZstd_undoes rfl (by decide) (by simp)
    (fun block mem => ?_) (fun block mem => ?_) written size⟩
  · obtain rfl := List.mem_singleton.mp mem
    exact ⟨by simp, by decide, .inl ⟨rfl, rfl⟩, rfl, rfl, ⟨by decide, by decide⟩, rfl⟩
  · obtain rfl := List.mem_singleton.mp mem
    constructor
    case type => exact fun _ required => by cases required
    case raster => exact fun _ required => by cases required
    case size => decide
    case compressedSize =>
      intro frame compressed
      obtain rfl := Except.ok.inj compressed
      decide

end Svp.Blocks

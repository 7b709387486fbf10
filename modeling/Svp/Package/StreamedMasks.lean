import Svp.Vision.MaskStream

/-!
# Streamed masks and their reader

The relationship writer reads the masks that a mask stream left: the records of the index,
and the block of each record, whose payload it decompresses.

Whatever entities were retained, the index lists their masks in the order they were appended,
the records tile the block file, and each block gives back the run lengths that were appended
(`finish_streamedMasks`).
-/

namespace Svp.Package

open Blocks Vision.MaskStream
open Exec (Bytes Blake3Digest Json JsonLibrary dump member LineFree)
open Lib (slice)

/-! ## Reading -/

/-- The values on the lines of a file; what the library does not read is skipped. -/
def readJsonl (lib : JsonLibrary) (file : Bytes) : List Json :=
  (textLines file).filterMap fun line => (lib.parse line).toOption

/-- A member that is an unsigned number. -/
def unsignedMember (record : Json) (key : String) : Nat :=
  match member record key with
  | some (.integer value) => if 0 ≤ value then value.toNat else 0
  | _ => 0

/-- `ZSTD_decompress` of a frame, given the size of the output buffer. -/
abbrev ZstdDecompress := Bytes → Nat → Option Bytes

def readAndDecompressBlock (decompress : ZstdDecompress) (blockFile : Option Bytes)
    (blockOffset blockLength uncompressedSize : Nat) (compression : UInt8) : Bytes :=
  match blockFile with
  | none => []
  | some file =>
    let blockData := slice file blockOffset blockLength
    if blockData.length ≠ blockLength then []
    else if blockData.length < 160 then []
    else
      let payload := blockData.drop 160
      if compression = 0x01 then
        match decompress payload uncompressedSize with
        | none => []
        | some output => if output.length ≠ uncompressedSize then [] else output
      else if payload.length ≠ uncompressedSize then []
      else payload

/-- The block of a record, as the relationship writer reads it. -/
def readMaskBlock (decompress : ZstdDecompress) (blockFile : Bytes) (record : Json) : Bytes :=
  readAndDecompressBlock decompress (some blockFile) (unsignedMember record "block_offset")
    (unsignedMember record "block_length") (unsignedMember record "uncompressed_size") 0x01

/-- Decompression of what was compressed, given room for it. -/
def Decompresses {σ : Type} (zstd : Zstd σ) (decompress : ZstdDecompress) : Prop :=
  ∀ payload frame, zstd.compress payload = .ok frame → decompress frame payload.length = some payload

/-! ## Streamed masks -/

/-- The blocks of the records cover the file from `start` to `stop`, one behind the other. -/
def RecordsTile : Nat → List Json → Nat → Prop
  | start, [], stop => start = stop
  | start, record :: rest, stop =>
    unsignedMember record "block_offset" = start ∧
      unsignedMember record "payload_offset" = start + kBlockHeaderSize ∧
      RecordsTile (start + unsignedMember record "block_length") rest stop

/-- The files hold these masks and no others. -/
structure StreamedMasks {σ : Type} (zstd : Zstd σ) (blake3 : Bytes → Blake3Digest)
    (lib : JsonLibrary) (decompress : ZstdDecompress) (masks : List MaskWriteEntry)
    (files : MaskFiles) : Prop where
  /-- The block file is the blocks of the masks in order. -/
  blocks : files.blocks = maskBlocks zstd blake3 masks
  /-- The index has a record for each mask, in order. -/
  listed : List.Forall₂ (fun mask record =>
      member record "id" = some (.string mask.maskId) ∧
      member record "region_id" = some (.string mask.regionId) ∧
      member record "frame_id" = some (.string mask.frameId) ∧
      member record "width" = some (.integer mask.width.toInt) ∧
      member record "height" = some (.integer mask.height.toInt))
    masks (readJsonl lib files.index)
  tiled : RecordsTile 0 (readJsonl lib files.index) files.blocks.length
  /-- The block of each record holds what was appended. -/
  read : List.Forall₂ (fun mask record => readMaskBlock decompress files.blocks record = mask.rleData)
    masks (readJsonl lib files.index)

section Read

variable {σ : Type} {zstd : Zstd σ} {blake3 : Bytes → Blake3Digest} {lib : JsonLibrary}
  {decompress : ZstdDecompress} {masks : List MaskWriteEntry}

theorem readJsonl_jsonLines (floats : ∀ bits, LineFree (lib.floatText bits)) {values : List Json}
    (some_ : ∀ value ∈ values, dump lib value ≠ [])
    (parses : ∀ value ∈ values, lib.parse (dump lib value) = .ok value) :
    readJsonl lib (values.flatMap (jsonLine lib)) = values := by
  rw [readJsonl, textLines_jsonLines floats some_, List.filterMap_map]
  refine (List.filterMap_congr fun value mem => ?_).trans List.filterMap_some
  show (lib.parse (dump lib value)).toOption = some value
  rw [parses value mem]
  rfl

theorem unsignedMember_of {record : Json} {key : String} {number : Nat}
    (found : member record key = some (.integer number)) : unsignedMember record key = number := by
  rw [unsignedMember, found]
  exact if_pos (Int.natCast_nonneg number)

theorem recordsTile_indexRecords (accepted : ∀ mask ∈ masks, Accepted zstd (maskBlock mask))
    (offset : Nat) :
    RecordsTile offset (recordsFrom zstd blake3 indexRecord offset masks)
      (offset + (maskBlocks zstd blake3 masks).length) := by
  induction masks generalizing offset with
  | nil => exact (Nat.add_zero offset).symm
  | cons mask rest ih =>
    obtain ⟨first, others⟩ := List.forall_mem_cons.mp accepted
    have length := @blockInfo_length _ _ blake3 _ first offset
    rw [recordsFrom_cons, maskBlocks_cons, List.length_append, ← Nat.add_assoc]
    refine ⟨(unsignedMember_of rfl).trans (blockInfo_offset _ _),
      (unsignedMember_of rfl).trans (blockInfo_payloadOffset _ _), ?_⟩
    rw [@unsignedMember_of _ "block_length" _ rfl, length]
    exact ih others _

/-- The reader takes the payload of the block a record points to. -/
theorem readMaskBlock_indexRecord (undoes : Decompresses zstd decompress) {file : Bytes}
    {mask : MaskWriteEntry} (accepted : Accepted zstd (maskBlock mask)) {info : WrittenBlockInfo}
    (same : info = blockInfo zstd blake3 info.blockOffset (maskBlock mask))
    (found : slice file info.blockOffset info.blockLength = blockBytes zstd blake3 (maskBlock mask)) :
    readMaskBlock decompress file (indexRecord mask info) = mask.rleData := by
  have length : (blockBytes zstd blake3 (maskBlock mask)).length = info.blockLength := by
    rw [same, blockInfo_length accepted]
  have size : info.uncompressedSize = mask.rleData.length := by
    rw [same, blockInfo_uncompressedSize]
    rfl
  obtain ⟨-, frame, compressed, -⟩ := accepted
  obtain ⟨header, payload⟩ := @drop_blockBytes _ _ blake3 _ _ compressed
  have long : ¬ (blockBytes zstd blake3 (maskBlock mask)).length < 160 := Nat.not_lt.mpr header
  have frameIs : (blockBytes zstd blake3 (maskBlock mask)).drop 160 = frame := payload
  rw [readMaskBlock, @unsignedMember_of _ "block_offset" info.blockOffset rfl,
    @unsignedMember_of _ "block_length" info.blockLength rfl,
    @unsignedMember_of _ "uncompressed_size" info.uncompressedSize rfl, readAndDecompressBlock]
  dsimp only
  rw [found, if_neg (not_not.mpr length), if_neg long, if_pos rfl, frameIs, size,
    undoes mask.rleData _ compressed]
  exact if_neg (not_not.mpr rfl)

theorem forall₂_zipWith {α β γ : Type} {R : α → γ → Prop} {f : α → β → γ} {l : List α} {m : List β}
    (same : l.length = m.length) (each : ∀ entry ∈ l.zip m, R entry.1 (f entry.1 entry.2)) :
    List.Forall₂ R l (List.zipWith f l m) := by
  induction l generalizing m with
  | nil => exact .nil
  | cons a rest ih =>
    cases m with
    | nil => cases same
    | cons b later =>
      rw [List.zip_cons_cons] at each
      obtain ⟨first, others⟩ := List.forall_mem_cons.mp each
      exact .cons first (ih (Nat.succ.inj same) others)

theorem dump_indexRecords_ne_nil : ∀ record ∈ recordsFrom zstd blake3 indexRecord 0 masks,
    dump lib record ≠ [] := by
  intro record mem
  rw [recordsFrom, ← List.map_uncurry_zip_eq_zipWith] at mem
  obtain ⟨entry, -, rfl⟩ := List.mem_map.mp mem
  exact List.cons_ne_nil _ _

/-- Masks written one behind the other are found again. -/
theorem streamedMasks_of_written (undoes : Decompresses zstd decompress)
    (floats : ∀ bits, LineFree (lib.floatText bits))
    (accepted : ∀ mask ∈ masks, Accepted zstd (maskBlock mask))
    (parses : ∀ record ∈ recordsFrom zstd blake3 indexRecord 0 masks,
      lib.parse (dump lib record) = .ok record)
    {files : MaskFiles} (blocks : files.blocks = maskBlocks zstd blake3 masks)
    (index : files.index = (recordsFrom zstd blake3 indexRecord 0 masks).flatMap (jsonLine lib)) :
    StreamedMasks zstd blake3 lib decompress masks files := by
  have records : readJsonl lib files.index = recordsFrom zstd blake3 indexRecord 0 masks := by
    rw [index]
    exact readJsonl_jsonLines floats dump_indexRecords_ne_nil parses
  have same : masks.length = (blockInfos zstd blake3 0 (masks.map maskBlock)).length := by
    rw [length_blockInfos, List.length_map]
  constructor
  case blocks => exact blocks
  case listed =>
    rw [records]
    exact forall₂_zipWith same fun entry _ => ⟨rfl, rfl, rfl, rfl, rfl⟩
  case tiled =>
    rw [records, blocks, ← Nat.zero_add (maskBlocks zstd blake3 masks).length]
    exact recordsTile_indexRecords accepted 0
  case read =>
    rw [records, blocks]
    refine forall₂_zipWith same fun entry mem => ?_
    have placed : (maskBlock entry.1, entry.2) ∈
        (masks.map maskBlock).zip (blockInfos zstd blake3 0 (masks.map maskBlock)) := by
      rw [List.zip_map_left]
      exact List.mem_map.mpr ⟨entry, mem, rfl⟩
    obtain ⟨info, -, found⟩ := slice_blockInfos (List.forall_mem_map.mpr accepted) [] placed
    exact readMaskBlock_indexRecord undoes (accepted _ (List.of_mem_zip mem).1) info found

end Read

/-- Whatever is retained, a stream of appended masks holds the retained ones when it is
finished. Before, its temporary file holds the blocks of them all. The size of a file is a
`std::streamoff`. -/
theorem finish_streamedMasks {σ : Type} {zstd : Zstd σ} {blake3 : Bytes → Blake3Digest}
    {io : StreamIo} {lib : JsonLibrary} {toUInt64 : ToUInt64} {decompress : ZstdDecompress}
    (undoes : Decompresses zstd decompress) (floats : ∀ bits, LineFree (lib.floatText bits))
    {masks : List MaskWriteEntry} {indexPath blockPath : String} {retainSummaryRecords : Bool}
    {writer : MaskStreamWriter}
    (appended : appendAll zstd blake3 io lib { indexPath, blockPath, retainSummaryRecords } masks =
      .ok writer)
    (size : writer.blockTmp.length < 2 ^ 63) (retainedEntityIds : Option (Finset String))
    (staged : ∀ record ∈ recordsFrom zstd blake3 stagedRecord 0 masks,
      lib.parse (dump lib record) = .ok record)
    (indexed : ∀ record ∈ recordsFrom zstd blake3 indexRecord 0 (keptMasks retainedEntityIds masks),
      lib.parse (dump lib record) = .ok record) :
    writer.blockTmp = maskBlocks zstd blake3 masks ∧
      ∃ files finished, finish lib toUInt64 writer retainedEntityIds = .ok (files, finished) ∧
        files.summary.maskCount = (keptMasks retainedEntityIds masks).length ∧
        StreamedMasks zstd blake3 lib decompress (keptMasks retainedEntityIds masks) files := by
  obtain ⟨accepted, same⟩ := appendAll_eq_ok rfl appended
  refine ⟨congrArg MaskStreamWriter.blockTmp same, _, _,
    finish_appendAll floats appended size staged, rfl, ?_⟩
  exact streamedMasks_of_written undoes floats
    (fun mask mem => accepted mask (List.mem_of_mem_filter mem)) indexed rfl rfl

/-! Two masks of two entities, of which one is retained. -/

def twoMasks : List MaskWriteEntry :=
  [⟨"m1", "e1", "r1", "f1", 2, 2, [4, 4]⟩, ⟨"m2", "e2", "r2", "f1", 2, 2, [1, 2, 1]⟩]

/-- A library without a parser. -/
def plainLibrary : JsonLibrary where
  floatText _ := []
  floatText_plain := Exec.noFloatText_plain
  parse _ := .error "unknown"

/-- A library whose parser knows the texts of some values. -/
def knownLibrary (values : List Json) : JsonLibrary where
  floatText _ := []
  floatText_plain := Exec.noFloatText_plain
  parse text :=
    match values.find? fun value => dump plainLibrary value == text with
    | some value => .ok value
    | none => .error "unknown"

theorem parse_known {values : List Json}
    (distinct : values.Pairwise fun v w => dump plainLibrary v ≠ dump plainLibrary w) {value : Json}
    (mem : value ∈ values) :
    (knownLibrary values).parse (dump (knownLibrary values) value) = .ok value := by
  have found : values.find? (fun other => dump plainLibrary other == dump plainLibrary value) =
      some value := by
    induction values with
    | nil => cases mem
    | cons first rest ih =>
      obtain ⟨new, distinct⟩ := List.pairwise_cons.mp distinct
      rcases List.mem_cons.mp mem with rfl | mem
      · exact List.find?_cons_of_pos (beq_self_eq_true _)
      · rw [List.find?_cons_of_neg (by simpa using new value mem)]
        exact ih distinct mem
  have text : dump (knownLibrary values) value = dump plainLibrary value :=
    @Exec.dump_congr (knownLibrary values) plainLibrary rfl value
  show (match values.find? _ with | some value => _ | none => _) = _
  rw [text, found]

def zeroBlake3 (_ : Bytes) : Blake3Digest := .fill 0

def twoMasksLibrary : JsonLibrary :=
  knownLibrary (recordsFrom storedZstd zeroBlake3 stagedRecord 0 twoMasks ++
    recordsFrom storedZstd zeroBlake3 indexRecord 0 (keptMasks (some {"e2"}) twoMasks))

def openIo : StreamIo := ⟨fun _ => true, fun _ => true⟩

theorem storedZstd_decompresses : Decompresses storedZstd fun frame _ => some (frame.drop 9) := by
  intro payload frame compressed
  simp only [storedZstd] at compressed
  split_ifs at compressed
  cases compressed
  exact congrArg some (List.drop_left' (length_storedLead _))

theorem finish_streamedMasks_two :
    ∃ writer, appendAll storedZstd zeroBlake3 openIo twoMasksLibrary ⟨"index", "blocks", true, [], [],
        false⟩ twoMasks = .ok writer ∧
      writer.blockTmp = maskBlocks storedZstd zeroBlake3 twoMasks ∧
      ∃ files finished, finish twoMasksLibrary id writer (some {"e2"}) = .ok (files, finished) ∧
        files.summary.maskCount = (keptMasks (some {"e2"}) twoMasks).length ∧
        StreamedMasks storedZstd zeroBlake3 twoMasksLibrary (fun frame _ => some (frame.drop 9))
          (keptMasks (some {"e2"}) twoMasks) files := by
  have distinct : (recordsFrom storedZstd zeroBlake3 stagedRecord 0 twoMasks ++
      recordsFrom storedZstd zeroBlake3 indexRecord 0 (keptMasks (some {"e2"}) twoMasks)).Pairwise
      fun v w => dump plainLibrary v ≠ dump plainLibrary w := by decide +kernel
  have accepted : ∀ mask ∈ twoMasks, Accepted storedZstd (maskBlock mask) := by
    refine List.forall_mem_cons.mpr ⟨⟨?_, _, rfl, ?_⟩, List.forall_mem_cons.mpr ⟨⟨?_, _, rfl, ?_⟩,
      List.forall_mem_nil _⟩⟩
    all_goals exact List.cons_ne_nil _ _
  have floats : ∀ bits, LineFree (twoMasksLibrary.floatText bits) := fun _ => List.forall_mem_nil _
  have short : (maskBlocks storedZstd zeroBlake3 twoMasks).length = 343 := by decide +kernel
  obtain ⟨writer, appended⟩ := @appendAll_of_accepted _ storedZstd zeroBlake3 openIo twoMasksLibrary
    ⟨"index", "blocks", true, [], [], false⟩ twoMasks ⟨fun _ => rfl, fun _ => rfl⟩ rfl accepted
    (by rw [short]; decide)
  have blocks := congrArg MaskStreamWriter.blockTmp (appendAll_eq_ok rfl appended).2
  refine ⟨writer, appended, ?_⟩
  exact finish_streamedMasks storedZstd_decompresses floats appended
    (by rw [blocks]; exact short.trans_lt (by decide)) (some {"e2"})
    (fun record mem => parse_known distinct (List.mem_append_left _ mem))
    (fun record mem => parse_known distinct (List.mem_append_right _ mem))

end Svp.Package

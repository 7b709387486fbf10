import Svp.Blocks.WrittenBlocks
import Svp.Exec.JsonText
import Svp.Exec.JsonLines
import Svp.Lib.OrderedMap

/-!
# The mask stream

`MaskStreamWriter` appends masks to two temporary files: their blocks, and a line for each
mask with the record of its block. `finish` copies the blocks of the masks whose entity is
retained, one behind the other, and moves the offsets in their records.

The files it leaves are those that writing the retained masks alone would have given
(`finish_appendAll`).
-/

namespace Svp.Vision

open Blocks
open Exec (Bytes Blake3Digest Json JsonLibrary dump member blake3Hex LineFree)
open Lib (slice)

namespace MaskStream

/-- A mask, its run lengths encoded. -/
structure MaskWriteEntry where
  maskId : String
  entityId : String
  regionId : String
  frameId : String
  width : Int32
  height : Int32
  rleData : Bytes

/-- What the writer throws. -/
inductive MaskStreamError
  | logic (message : String)
  | runtime (message : String)
  /-- The library does not read the line. -/
  | parse (what : String)
  /-- `at` of a key that is not there. -/
  | outOfRange (key : String)
  | typeError (expected : String)

/-! ## Appending -/

def maskSpec (mask : MaskWriteEntry) : BlockWriteSpec where
  blockType := .mask
  extent0 := mask.width.toUInt32
  extent1 := mask.height.toUInt32
  extent2 := 1
  dtype := .svpRleV1
  frameCount := 1

/-- The block of a mask and its payload. -/
def maskBlock (mask : MaskWriteEntry) : BlockWriteSpec × Bytes := (maskSpec mask, mask.rleData)

def kMaskBlockFile : String := "spatial/masks.blocks.svpmz"

/-- The members stand in the order of their keys. -/
def indexRecord (mask : MaskWriteEntry) (info : WrittenBlockInfo) : Json :=
  .object [("block_blake3", .string (blake3Hex info.headerBlake3)),
    ("block_file", .string kMaskBlockFile), ("block_length", .integer info.blockLength),
    ("block_offset", .integer info.blockOffset), ("compressed_size", .integer info.compressedSize),
    ("encoding", .string "svp-rle-v1"), ("frame_id", .string mask.frameId),
    ("height", .integer mask.height.toInt), ("id", .string mask.maskId),
    ("payload_blake3", .string (blake3Hex info.payloadBlake3)),
    ("payload_offset", .integer info.payloadOffset), ("region_id", .string mask.regionId),
    ("uncompressed_size", .integer info.uncompressedSize), ("width", .integer mask.width.toInt)]

def blockRecord (mask : MaskWriteEntry) (info : WrittenBlockInfo) : Json :=
  .object [("block_blake3", .string ("blake3:" ++ blake3Hex info.payloadBlake3)),
    ("block_file", .string kMaskBlockFile), ("block_id", .string mask.maskId),
    ("block_length", .integer info.blockLength), ("block_offset", .integer info.blockOffset),
    ("block_type", .string "mask"), ("compressed_size", .integer info.compressedSize),
    ("dtype", .integer DType.svpRleV1.code.toNat), ("end_us", .integer (-1)),
    ("extent_0", .integer mask.width.toUInt32.toNat),
    ("extent_1", .integer mask.height.toUInt32.toNat), ("extent_2", .integer 1),
    ("frame_count", .integer 1),
    ("header_blake3", .string ("blake3:" ++ blake3Hex info.headerBlake3)),
    ("payload_blake3", .string ("blake3:" ++ blake3Hex info.payloadBlake3)),
    ("payload_offset", .integer info.payloadOffset), ("start_frame", .integer 0),
    ("start_us", .integer (-1)), ("uncompressed_size", .integer info.uncompressedSize)]

/-- What the temporary index says of a mask. -/
def stagedRecord (mask : MaskWriteEntry) (info : WrittenBlockInfo) : Json :=
  .object [("block_record", blockRecord mask info), ("entity_id", .string mask.entityId),
    ("index_record", indexRecord mask info)]

/-- The writer, with what its temporary files hold. -/
structure MaskStreamWriter where
  indexPath : String
  blockPath : String
  retainSummaryRecords : Bool := false
  indexTmp : Bytes := []
  blockTmp : Bytes := []
  finished : Bool := false

variable {σ : Type} (zstd : Zstd σ) (blake3 : Bytes → Blake3Digest) (io : StreamIo)
  (lib : JsonLibrary)

/-- A value on a line of its own. -/
def jsonLine (value : Json) : Bytes := dump lib value ++ [0x0A]

def append (writer : MaskStreamWriter) (mask : MaskWriteEntry) :
    Except MaskStreamError MaskStreamWriter :=
  if writer.finished then .error (.logic "cannot append to a finished mask stream")
  else
    match writeBlockToStream zstd blake3 io writer.blockTmp (maskSpec mask) mask.rleData with
    | .error message => .error (.runtime message)
    | .ok (blockTmp, blockInfo) =>
      .ok { writer with
        blockTmp
        indexTmp := writer.indexTmp ++ jsonLine lib (stagedRecord mask blockInfo) }

def appendAll (writer : MaskStreamWriter) (masks : List MaskWriteEntry) :
    Except MaskStreamError MaskStreamWriter :=
  masks.foldlM (append zstd blake3 io lib) writer

/-! ## Finishing -/

/-- How the language converts a double to an unsigned number. -/
abbrev ToUInt64 := UInt64 → UInt64

variable (toUInt64 : ToUInt64)

def memberAt (value : Json) (key : String) : Except MaskStreamError Json :=
  match value with
  | .object _ =>
    match member value key with
    | some found => .ok found
    | none => .error (.outOfRange key)
  | _ => .error (.typeError "object")

def getString : Json → Except MaskStreamError String
  | .string text => .ok text
  | _ => .error (.typeError "string")

/-- `get<std::uint64_t>` keeps the low 64 bits of an integer. -/
def getUInt64 : Json → Except MaskStreamError UInt64
  | .integer value => .ok (UInt64.ofInt value)
  | .float bits => .ok (toUInt64 bits)
  | _ => .error (.typeError "number")

/-- `value[key] = number`. -/
def assignUInt64 (value : Json) (key : String) (number : UInt64) : Except MaskStreamError Json :=
  match value with
  | .object fields =>
    if fields.any fun field => field.1 == key then
      .ok (.object (fields.map fun field =>
        if field.1 == key then (key, .integer number.toNat) else field))
    else .ok (.object (Lib.OrderedMap.insertEntry key (.integer number.toNat) fields))
  | .null => .ok (.object [(key, .integer number.toNat)])
  | _ => .error (.typeError "object")

def assignOffsets (record : Json) (blockOffset payloadOffset : UInt64) : Except MaskStreamError Json := do
  let record ← assignUInt64 record "block_offset" blockOffset
  assignUInt64 record "payload_offset" payloadOffset

structure MaskWriteSummary where
  masksIndexPath : String := ""
  masksBlockPath : String := ""
  maskCount : Nat := 0
  indexRecords : List Json := []
  blockManifestEntries : List Json := []

/-- What finishing has written so far. -/
structure MaskFiles where
  index : Bytes := []
  blocks : Bytes := []
  summary : MaskWriteSummary := {}

/-- Whether masks of the entity stay. -/
def isRetained (retainedEntityIds : Option (Finset String)) (entityId : String) : Bool :=
  match retainedEntityIds with
  | none => true
  | some ids => decide (entityId ∈ ids)

/-- The lines of a text that are not empty. -/
def textLines (text : Bytes) : List Bytes := (text.splitOn 0x0A).filter (! ·.isEmpty)

/-- One line of the temporary index. -/
def finishLine (writer : MaskStreamWriter) (retainedEntityIds : Option (Finset String))
    (files : MaskFiles) (line : Bytes) : Except MaskStreamError MaskFiles := do
  let staged ← (lib.parse line).mapError MaskStreamError.parse
  let entityId ← memberAt staged "entity_id" >>= getString
  if !isRetained retainedEntityIds entityId then .ok files
  else
    let indexRecord ← memberAt staged "index_record"
    let blockRecord ← memberAt staged "block_record"
    let oldBlockOffset ← memberAt indexRecord "block_offset" >>= getUInt64 toUInt64
    let oldPayloadOffset ← memberAt indexRecord "payload_offset" >>= getUInt64 toUInt64
    let blockLength ← memberAt indexRecord "block_length" >>= getUInt64 toUInt64
    let blockBytes := slice writer.blockTmp oldBlockOffset.toNat blockLength.toNat
    if blockBytes.length ≠ blockLength.toNat then
      .error (.runtime "failed to read a staged mask block")
    else
      let newBlockOffset := UInt64.ofNat files.blocks.length
      let newPayloadOffset := newBlockOffset + oldPayloadOffset - oldBlockOffset
      let indexRecord ← assignOffsets indexRecord newBlockOffset newPayloadOffset
      let blockRecord ← assignOffsets blockRecord newBlockOffset newPayloadOffset
      let summary := { files.summary with maskCount := files.summary.maskCount + 1 }
      .ok
        { index := files.index ++ jsonLine lib indexRecord
          blocks := files.blocks ++ blockBytes
          summary :=
            if writer.retainSummaryRecords then
              { summary with
                indexRecords := summary.indexRecords ++ [indexRecord]
                blockManifestEntries := summary.blockManifestEntries ++ [blockRecord] }
            else summary }

/-- The two files and the summary; the temporary files are removed. -/
def finish (writer : MaskStreamWriter) (retainedEntityIds : Option (Finset String)) :
    Except MaskStreamError (MaskFiles × MaskStreamWriter) :=
  if writer.finished then .error (.logic "mask stream was already finished")
  else do
    let files ← (textLines writer.indexTmp).foldlM
      (finishLine lib toUInt64 writer retainedEntityIds) {}
    let summary := { files.summary with
      masksIndexPath := writer.indexPath, masksBlockPath := writer.blockPath }
    .ok ({ files with summary }, { writer with indexTmp := [], blockTmp := [], finished := true })

/-! ## Lines -/

section Lines

variable {lib}

theorem textLines_line {line : Bytes} (free : LineFree line) (some_ : line ≠ []) (rest : Bytes) :
    textLines (line ++ [0x0A] ++ rest) = line :: textLines rest := by
  have before : (0x0A : UInt8) ∉ line := fun mem => free _ mem rfl
  rw [textLines, List.append_assoc, List.singleton_append,
    List.splitOn_append_cons_self_of_not_mem before, List.filter_cons_of_pos, textLines]
  simpa using some_

/-- The texts of values on lines of their own are the lines. -/
theorem textLines_jsonLines (floats : ∀ bits, LineFree (lib.floatText bits)) {values : List Json}
    (some_ : ∀ value ∈ values, dump lib value ≠ []) :
    textLines (values.flatMap (jsonLine lib)) = values.map (dump lib) := by
  induction values with
  | nil => rfl
  | cons value rest ih =>
    obtain ⟨first, others⟩ := List.forall_mem_cons.mp some_
    rw [List.flatMap_cons, List.map_cons, jsonLine,
      textLines_line (Exec.dump_lineFree floats value) first, ih others]

end Lines

/-! ## One mask -/

theorem getUInt64_natCast {number : Nat} (small : number < 2 ^ 64) :
    getUInt64 toUInt64 (.integer number) = .ok (UInt64.ofNat number) := by
  have low : ((number : Int) % 2 ^ 64).toNat = number := by omega
  rw [getUInt64, UInt64.ofInt, low]

theorem assignOffsets_indexRecord (mask : MaskWriteEntry) (info : WrittenBlockInfo)
    (blockOffset payloadOffset : UInt64) :
    assignOffsets (indexRecord mask info) blockOffset payloadOffset =
      .ok (indexRecord mask { info with
        blockOffset := blockOffset.toNat, payloadOffset := payloadOffset.toNat }) := rfl

theorem assignOffsets_blockRecord (mask : MaskWriteEntry) (info : WrittenBlockInfo)
    (blockOffset payloadOffset : UInt64) :
    assignOffsets (blockRecord mask info) blockOffset payloadOffset =
      .ok (blockRecord mask { info with
        blockOffset := blockOffset.toNat, payloadOffset := payloadOffset.toNat }) := rfl

/-- A mask and its record stand in the temporary files. -/
structure Staged (writer : MaskStreamWriter) (entry : MaskWriteEntry × WrittenBlockInfo) : Prop where
  accepted : Accepted zstd (maskBlock entry.1)
  info : entry.2 = blockInfo zstd blake3 entry.2.blockOffset (maskBlock entry.1)
  inside : entry.2.blockOffset + entry.2.blockLength ≤ writer.blockTmp.length
  found : slice writer.blockTmp entry.2.blockOffset entry.2.blockLength =
    blockBytes zstd blake3 (maskBlock entry.1)
  parses : lib.parse (dump lib (stagedRecord entry.1 entry.2)) = .ok (stagedRecord entry.1 entry.2)

/-- The files with a mask behind what they hold. -/
def keepMask (retainSummaryRecords : Bool) (files : MaskFiles) (mask : MaskWriteEntry) : MaskFiles :=
  let info := blockInfo zstd blake3 files.blocks.length (maskBlock mask)
  let summary := { files.summary with maskCount := files.summary.maskCount + 1 }
  { index := files.index ++ jsonLine lib (indexRecord mask info)
    blocks := files.blocks ++ blockBytes zstd blake3 (maskBlock mask)
    summary :=
      if retainSummaryRecords then
        { summary with
          indexRecords := summary.indexRecords ++ [indexRecord mask info]
          blockManifestEntries := summary.blockManifestEntries ++ [blockRecord mask info] }
      else summary }

section Step

variable {zstd blake3 lib toUInt64} {writer : MaskStreamWriter}
  {retainedEntityIds : Option (Finset String)} {entry : MaskWriteEntry × WrittenBlockInfo}

theorem finishLine_dropped (staged : Staged zstd blake3 lib writer entry)
    (dropped : isRetained retainedEntityIds entry.1.entityId = false) (files : MaskFiles) :
    finishLine lib toUInt64 writer retainedEntityIds files
      (dump lib (stagedRecord entry.1 entry.2)) = .ok files := by
  have entity : (memberAt (stagedRecord entry.1 entry.2) "entity_id" >>= getString) =
      .ok entry.1.entityId := rfl
  simp only [bind, Except.bind] at entity
  rw [finishLine, staged.parses]
  simp only [Except.mapError, bind, Except.bind, entity, dropped, Bool.not_false, if_true]

/-- Copying a block moves the offsets of its record to where it stands now. -/
theorem finishLine_kept (staged : Staged zstd blake3 lib writer entry)
    (kept : isRetained retainedEntityIds entry.1.entityId = true) {files : MaskFiles}
    (size : writer.blockTmp.length < 2 ^ 63)
    (room : files.blocks.length + (blockBytes zstd blake3 (maskBlock entry.1)).length < 2 ^ 63) :
    finishLine lib toUInt64 writer retainedEntityIds files
      (dump lib (stagedRecord entry.1 entry.2)) =
      .ok (keepMask zstd blake3 lib writer.retainSummaryRecords files entry.1) := by
  obtain ⟨mask, info⟩ := entry
  obtain ⟨accepted, same, inside, found, parses⟩ := staged
  dsimp only at accepted same inside found parses kept room ⊢
  have header : kBlockHeaderSize = 160 := rfl
  have payload : info.payloadOffset = info.blockOffset + 160 := by
    rw [same, blockInfo_payloadOffset, blockInfo_offset, header]
  have length : info.blockLength = (blockBytes zstd blake3 (maskBlock mask)).length := by
    rw [same, blockInfo_length accepted]
  have small : ∀ number < 2 ^ 63, (UInt64.ofNat number).toNat = number := fun number bound =>
    UInt64.toNat_ofNat_of_lt' (lt_trans bound (by decide))
  have newPayload : (UInt64.ofNat files.blocks.length + UInt64.ofNat info.payloadOffset -
      UInt64.ofNat info.blockOffset).toNat = files.blocks.length + 160 := by
    rw [payload, UInt64.ofNat_add, UInt64.add_comm (.ofNat info.blockOffset), ← UInt64.add_assoc,
      UInt64.add_sub_cancel, ← UInt64.ofNat_add]
    exact UInt64.toNat_ofNat_of_lt' (lt_of_le_of_lt (by omega) (by decide : 2 ^ 63 + 160 < 2 ^ 64))
  have moved : { info with blockOffset := files.blocks.length
                           payloadOffset := files.blocks.length + 160 } =
      blockInfo zstd blake3 files.blocks.length (maskBlock mask) := by
    rw [same]
    exact blockInfo_moved _ _ _
  have entity : (memberAt (stagedRecord mask info) "entity_id" >>= getString) =
      .ok mask.entityId := rfl
  have index : memberAt (stagedRecord mask info) "index_record" = .ok (indexRecord mask info) := rfl
  have block : memberAt (stagedRecord mask info) "block_record" = .ok (blockRecord mask info) := rfl
  have offset : (memberAt (indexRecord mask info) "block_offset" >>= getUInt64 toUInt64) =
      .ok (UInt64.ofNat info.blockOffset) := getUInt64_natCast toUInt64 (by omega)
  have payloadOffset : (memberAt (indexRecord mask info) "payload_offset" >>= getUInt64 toUInt64) =
      .ok (UInt64.ofNat info.payloadOffset) := getUInt64_natCast toUInt64 (by omega)
  have read : (memberAt (indexRecord mask info) "block_length" >>= getUInt64 toUInt64) =
      .ok (UInt64.ofNat info.blockLength) := getUInt64_natCast toUInt64 (by omega)
  simp only [bind, Except.bind] at entity offset payloadOffset read
  rw [finishLine, parses]
  simp only [Except.mapError, bind, Except.bind, entity, kept, index, block, offset, payloadOffset,
    read, small info.blockOffset (by omega), small info.blockLength (by omega), found, ← length,
    ne_eq, not_true_eq_false, Bool.not_true, Bool.false_eq_true, if_false,
    assignOffsets_indexRecord, assignOffsets_blockRecord, small files.blocks.length (by omega),
    newPayload, moved]
  rfl

end Step

/-! ## All masks -/

/-- The bytes of the masks' blocks. -/
def maskBlocks (masks : List MaskWriteEntry) : Bytes :=
  (masks.map maskBlock).flatMap (blockBytes zstd blake3)

/-- The records of masks whose blocks stand one behind the other. -/
def recordsFrom (record : MaskWriteEntry → WrittenBlockInfo → Json) (offset : Nat)
    (masks : List MaskWriteEntry) : List Json :=
  List.zipWith record masks (blockInfos zstd blake3 offset (masks.map maskBlock))

def keptMasks (retainedEntityIds : Option (Finset String)) (masks : List MaskWriteEntry) :
    List MaskWriteEntry :=
  masks.filter fun mask => isRetained retainedEntityIds mask.entityId

section Run

variable {zstd blake3 io lib toUInt64} {writer next : MaskStreamWriter} {masks : List MaskWriteEntry}
  {retainedEntityIds : Option (Finset String)}

theorem recordsFrom_cons (record : MaskWriteEntry → WrittenBlockInfo → Json) (offset : Nat)
    (mask : MaskWriteEntry) :
    recordsFrom zstd blake3 record offset (mask :: masks) =
      record mask (blockInfo zstd blake3 offset (maskBlock mask)) ::
        recordsFrom zstd blake3 record (offset + (blockBytes zstd blake3 (maskBlock mask)).length)
          masks := rfl

theorem maskBlocks_cons (mask : MaskWriteEntry) :
    maskBlocks zstd blake3 (mask :: masks) =
      blockBytes zstd blake3 (maskBlock mask) ++ maskBlocks zstd blake3 masks := rfl

theorem length_keptMasks_le :
    (maskBlocks zstd blake3 (keptMasks retainedEntityIds masks)).length ≤
      (maskBlocks zstd blake3 masks).length := by
  have fewer : (keptMasks retainedEntityIds masks).Sublist masks := List.filter_sublist
  exact ((fewer.map maskBlock).flatMap _).length_le

/-- An append writes the block of the mask and its record. -/
theorem append_eq_ok {mask : MaskWriteEntry}
    (appended : append zstd blake3 io lib writer mask = .ok next) :
    writer.finished = false ∧ Accepted zstd (maskBlock mask) ∧
      next = { writer with
        blockTmp := writer.blockTmp ++ blockBytes zstd blake3 (maskBlock mask)
        indexTmp := writer.indexTmp ++ jsonLine lib (stagedRecord mask
          (blockInfo zstd blake3 writer.blockTmp.length (maskBlock mask))) } := by
  unfold append at appended
  split at appended
  · cases appended
  · next live =>
    split at appended
    · cases appended
    · next blockTmp info wrote =>
      cases appended
      obtain ⟨accepted, same⟩ := writeBlock_eq_ok_iff.mp (writeBlockToStream_eq_ok.mp wrote).1
      obtain ⟨rfl, rfl⟩ := Prod.mk.inj same
      exact ⟨Bool.eq_false_iff.mpr live, accepted, rfl⟩

theorem appendAll_eq_ok (live : writer.finished = false)
    (appended : appendAll zstd blake3 io lib writer masks = .ok next) :
    (∀ mask ∈ masks, Accepted zstd (maskBlock mask)) ∧
      next = { writer with
        blockTmp := writer.blockTmp ++ maskBlocks zstd blake3 masks
        indexTmp := writer.indexTmp ++ (recordsFrom zstd blake3 stagedRecord writer.blockTmp.length
          masks).flatMap (jsonLine lib) } := by
  induction masks generalizing writer with
  | nil =>
    obtain rfl : writer = next := Except.ok.inj appended
    refine ⟨List.forall_mem_nil _, ?_⟩
    simp only [recordsFrom, maskBlocks, List.map_nil, List.flatMap_nil, List.zipWith_nil_left,
      List.append_nil]
  | cons mask rest ih =>
    rw [appendAll, List.foldlM_cons] at appended
    obtain ⟨middle, first, others⟩ := Exec.bind_eq_ok.mp appended
    obtain ⟨-, accepted, same⟩ := append_eq_ok first
    have stillLive : middle.finished = false := by
      rw [same]
      exact live
    obtain ⟨allAccepted, rfl⟩ := ih stillLive others
    refine ⟨List.forall_mem_cons.mpr ⟨accepted, allAccepted⟩, ?_⟩
    subst same
    simp only [maskBlocks_cons, recordsFrom_cons, List.flatMap_cons, List.append_assoc,
      List.length_append]

/-- Masks the block writer accepts are appended, as long as the file keeps to 64 bits. -/
theorem appendAll_of_accepted (works : io.Works) (live : writer.finished = false)
    (accepted : ∀ mask ∈ masks, Accepted zstd (maskBlock mask))
    (small : writer.blockTmp.length + (maskBlocks zstd blake3 masks).length ≤ kMaxU64) :
    ∃ next, appendAll zstd blake3 io lib writer masks = .ok next := by
  induction masks generalizing writer with
  | nil => exact ⟨writer, rfl⟩
  | cons mask rest ih =>
    obtain ⟨first, others⟩ := List.forall_mem_cons.mp accepted
    obtain ⟨frame, compressed, -⟩ := first.2
    have header := (@drop_blockBytes _ _ blake3 _ _ compressed).1
    rw [maskBlocks_cons, List.length_append] at small
    have wrote : writeBlockToStream zstd blake3 io writer.blockTmp (maskSpec mask) mask.rleData =
        .ok (writer.blockTmp ++ blockBytes zstd blake3 (maskBlock mask),
          blockInfo zstd blake3 writer.blockTmp.length (maskBlock mask)) :=
      writeBlockToStream_eq_ok.mpr ⟨writeBlock_eq_ok_iff.mpr ⟨first, rfl⟩, works.positioned _,
        by omega, works.writes _⟩
    have added : append zstd blake3 io lib writer mask = .ok { writer with
        blockTmp := writer.blockTmp ++ blockBytes zstd blake3 (maskBlock mask)
        indexTmp := writer.indexTmp ++ jsonLine lib (stagedRecord mask
          (blockInfo zstd blake3 writer.blockTmp.length (maskBlock mask))) } := by
      rw [append, live, wrote]
      rfl
    rw [appendAll, List.foldlM_cons, added]
    exact ih live others (by rw [List.length_append]; omega)

/-- The loop keeps the masks of retained entities, in order. -/
theorem foldlM_finishLine {entries : List (MaskWriteEntry × WrittenBlockInfo)}
    (staged : ∀ entry ∈ entries, Staged zstd blake3 lib writer entry)
    (size : writer.blockTmp.length < 2 ^ 63) (files : MaskFiles)
    (room : files.blocks.length +
      (maskBlocks zstd blake3 (keptMasks retainedEntityIds (entries.map Prod.fst))).length < 2 ^ 63) :
    (entries.map fun entry => dump lib (stagedRecord entry.1 entry.2)).foldlM
        (finishLine lib toUInt64 writer retainedEntityIds) files =
      .ok ((keptMasks retainedEntityIds (entries.map Prod.fst)).foldl
        (keepMask zstd blake3 lib writer.retainSummaryRecords) files) := by
  induction entries generalizing files with
  | nil => rfl
  | cons entry rest ih =>
    obtain ⟨first, others⟩ := List.forall_mem_cons.mp staged
    rw [List.map_cons, List.foldlM_cons]
    rw [List.map_cons] at room ⊢
    cases kept : isRetained retainedEntityIds entry.1.entityId with
    | false =>
      have skip : keptMasks retainedEntityIds (entry.1 :: rest.map Prod.fst) =
          keptMasks retainedEntityIds (rest.map Prod.fst) :=
        List.filter_cons_of_neg (by rw [kept]; decide)
      rw [skip] at room ⊢
      rw [finishLine_dropped first kept files]
      exact ih others files room
    | true =>
      have keep : keptMasks retainedEntityIds (entry.1 :: rest.map Prod.fst) =
          entry.1 :: keptMasks retainedEntityIds (rest.map Prod.fst) := List.filter_cons_of_pos kept
      rw [keep, maskBlocks_cons, List.length_append] at room
      rw [keep, List.foldl_cons, finishLine_kept first kept size (by omega)]
      refine ih others _ ?_
      rw [keepMask, List.length_append]
      omega

/-- What keeping masks adds to the files. -/
theorem foldl_keepMask (retainSummaryRecords : Bool) (files : MaskFiles) :
    masks.foldl (keepMask zstd blake3 lib retainSummaryRecords) files =
      { index := files.index ++ (recordsFrom zstd blake3 indexRecord files.blocks.length
          masks).flatMap (jsonLine lib)
        blocks := files.blocks ++ maskBlocks zstd blake3 masks
        summary := { files.summary with
          maskCount := files.summary.maskCount + masks.length
          indexRecords := files.summary.indexRecords ++ if retainSummaryRecords then
            recordsFrom zstd blake3 indexRecord files.blocks.length masks else []
          blockManifestEntries := files.summary.blockManifestEntries ++ if retainSummaryRecords then
            recordsFrom zstd blake3 blockRecord files.blocks.length masks else [] } } := by
  induction masks generalizing files with
  | nil =>
    show files = _
    simp only [recordsFrom, maskBlocks, List.map_nil, List.flatMap_nil, blockInfos,
      List.zipWith_nil_left, List.append_nil, ite_self, List.length_nil, Nat.add_zero]
  | cons mask rest ih =>
    rw [List.foldl_cons, ih, keepMask]
    cases retainSummaryRecords with
    | false =>
      simp only [recordsFrom_cons, maskBlocks_cons, List.flatMap_cons, List.append_assoc,
        List.length_append, List.length_cons, Bool.false_eq_true, if_false, List.append_nil,
        Nat.add_assoc, Nat.add_comm 1]
    | true =>
      simp only [recordsFrom_cons, maskBlocks_cons, List.flatMap_cons, List.append_assoc,
        List.length_append, List.length_cons, if_true, List.singleton_append, Nat.add_assoc,
        Nat.add_comm 1]

/-- Every mask of a run of appends stands in the temporary files. -/
theorem staged_of_accepted (accepted : ∀ mask ∈ masks, Accepted zstd (maskBlock mask))
    (blocks : writer.blockTmp = maskBlocks zstd blake3 masks)
    (parses : ∀ record ∈ recordsFrom zstd blake3 stagedRecord 0 masks,
      lib.parse (dump lib record) = .ok record)
    {entry : MaskWriteEntry × WrittenBlockInfo}
    (mem : entry ∈ masks.zip (blockInfos zstd blake3 0 (masks.map maskBlock))) :
    Staged zstd blake3 lib writer entry := by
  have allAccepted : ∀ block ∈ masks.map maskBlock, Accepted zstd block := List.forall_mem_map.mpr accepted
  have placed : (maskBlock entry.1, entry.2) ∈
      (masks.map maskBlock).zip (blockInfos zstd blake3 0 (masks.map maskBlock)) := by
    rw [List.zip_map_left]
    exact List.mem_map.mpr ⟨entry, mem, rfl⟩
  obtain ⟨info, inside, found⟩ := slice_blockInfos allAccepted [] placed
  rw [List.nil_append] at inside found
  refine ⟨accepted _ (List.of_mem_zip mem).1, info, blocks ▸ inside, blocks ▸ found, parses _ ?_⟩
  rw [recordsFrom, ← List.map_uncurry_zip_eq_zipWith]
  exact List.mem_map.mpr ⟨entry, mem, rfl⟩

/-- Finishing leaves what writing the retained masks alone would have given. -/
theorem finish_appendAll (floats : ∀ bits, LineFree (lib.floatText bits))
    {indexPath blockPath : String} {retainSummaryRecords : Bool}
    (appended : appendAll zstd blake3 io lib { indexPath, blockPath, retainSummaryRecords } masks =
      .ok writer)
    (size : writer.blockTmp.length < 2 ^ 63)
    (parses : ∀ record ∈ recordsFrom zstd blake3 stagedRecord 0 masks,
      lib.parse (dump lib record) = .ok record) :
    finish lib toUInt64 writer retainedEntityIds =
      .ok
        ({ index := (recordsFrom zstd blake3 indexRecord 0
             (keptMasks retainedEntityIds masks)).flatMap (jsonLine lib)
           blocks := maskBlocks zstd blake3 (keptMasks retainedEntityIds masks)
           summary :=
             { masksIndexPath := indexPath
               masksBlockPath := blockPath
               maskCount := (keptMasks retainedEntityIds masks).length
               indexRecords := if retainSummaryRecords then
                 recordsFrom zstd blake3 indexRecord 0 (keptMasks retainedEntityIds masks) else []
               blockManifestEntries := if retainSummaryRecords then
                 recordsFrom zstd blake3 blockRecord 0 (keptMasks retainedEntityIds masks) else [] } },
          { indexPath, blockPath, retainSummaryRecords, finished := true }) := by
  obtain ⟨accepted, rfl⟩ := appendAll_eq_ok rfl appended
  let entries := masks.zip (blockInfos zstd blake3 0 (masks.map maskBlock))
  have firsts : entries.map Prod.fst = masks := List.map_fst_zip (by
    rw [length_blockInfos, List.length_map])
  have lines : textLines ((recordsFrom zstd blake3 stagedRecord 0 masks).flatMap (jsonLine lib)) =
      entries.map fun entry => dump lib (stagedRecord entry.1 entry.2) := by
    have written : recordsFrom zstd blake3 stagedRecord 0 masks =
        entries.map fun entry => stagedRecord entry.1 entry.2 :=
      List.map_uncurry_zip_eq_zipWith.symm
    rw [written, textLines_jsonLines floats, List.map_map]
    · rfl
    · rintro value mem
      obtain ⟨entry, -, rfl⟩ := List.mem_map.mp mem
      exact List.cons_ne_nil _ _
  have run := @foldlM_finishLine _ zstd blake3 lib toUInt64
    { indexPath, blockPath, retainSummaryRecords
      blockTmp := maskBlocks zstd blake3 masks
      indexTmp := (recordsFrom zstd blake3 stagedRecord 0 masks).flatMap (jsonLine lib) }
    retainedEntityIds entries (fun entry mem => staged_of_accepted accepted rfl parses mem) size {}
    (by
      rw [firsts]
      exact lt_of_le_of_lt ((Nat.zero_add _).trans_le length_keptMasks_le) size)
  rw [firsts, foldl_keepMask] at run
  show finish lib toUInt64 { indexPath, blockPath, retainSummaryRecords
                             blockTmp := maskBlocks zstd blake3 masks
                             indexTmp := (recordsFrom zstd blake3 stagedRecord 0 masks).flatMap
                               (jsonLine lib) } retainedEntityIds = _
  rw [finish, if_neg Bool.false_ne_true]
  dsimp only
  rw [lines, run]
  simp only [bind, Except.bind, List.nil_append, Nat.zero_add, List.length_nil]

end Run

end MaskStream

end Svp.Vision

import Svp.Package.MediaBindingText
import Svp.Media.CanonicalTiming

/-!
# Creating a media binding

`createMediaBinding` records what is needed to tell a media file from any other: its size, its
digest, what ffprobe says of it, and how it splits into chunks.

The loops that read a file stop where it ends; with enough rounds they return, and what they
return is a function of the bytes (`createMediaBinding_eq`). The chunk loop counts the chunks
and keeps the last one (`computeChunkProof_eq`).
-/

namespace Svp.Package

open Exec (Bytes Blake3Digest blake3Hex)
open Media (Rational)

/-! ## Media files -/

structure StreamTiming where
  timebase : Rational := ⟨0, 1⟩
  durationPts : Option Int64 := none
  averageFrameRate : Option Rational := none

structure VideoStreamProbe where
  codecName : String
  width : Int32
  height : Int32
  timing : StreamTiming

structure AudioStreamProbe where
  codecName : String
  sampleRate : Int32
  channels : Int32
  timing : StreamTiming

structure MediaProbe where
  formatName : String := ""
  containerTiming : Option StreamTiming := none
  videoStreams : List VideoStreamProbe := []
  audioStreams : List AudioStreamProbe := []

/-- What a path leads to. The size of a file that cannot be opened is what the system says. -/
inductive FileAt
  | missing
  | unreadable (size : Nat)
  | readable (bytes : Bytes)

/-- What the program uses of the machine. -/
structure Machine where
  blake3 : Bytes → Blake3Digest
  /-- What the ffprobe at a path says of a file's bytes, or what running it throws. -/
  ffprobe : String → Bytes → Except String MediaProbe
  /-- What a conversion of time stamps gives that overflows. -/
  overflow : Int64 → Rational → Except String Int64
  /-- The bits of the quotient of two integers, as doubles. -/
  quotient : Int64 → Int64 → UInt64

variable (machine : Machine)

def probeMediaWithFfprobe (file : FileAt) (ffprobePath : String) : Except String MediaProbe :=
  match file with
  | .readable bytes => machine.ffprobe ffprobePath bytes
  | _ => .error "ffprobe failed"

def fileSizeBytes : FileAt → Int64
  | .missing => 0
  | .unreadable size => .ofNat size
  | .readable bytes => .ofNat bytes.length

/-! ## Probes -/

def ptsToMicroseconds (pts : Int64) (timebase : Rational) : Except String Int64 :=
  match Media.ptsToMicroseconds pts timebase with
  | .returned value => .ok (.ofInt value)
  | .thrown message => .error message
  | .overflowed => machine.overflow pts timebase

def durationOf (timing : StreamTiming) : Except String (Option Int64) :=
  match timing.durationPts with
  | some pts =>
    if timing.timebase.denominator > 0 then some <$> ptsToMicroseconds machine pts timing.timebase
    else .ok none
  | none => .ok none

def containerFormatFromProbe (probe : MediaProbe) : String :=
  if probe.formatName ≠ "" then probe.formatName else "unknown"

def durationUsFromProbe (probe : MediaProbe) : Except String Int64 :=
  match probe.containerTiming with
  | some timing => (fun duration => duration.getD 0) <$> durationOf machine timing
  | none => .ok 0

def frameRateOf (timing : StreamTiming) : Option UInt64 :=
  match timing.averageFrameRate with
  | some rate =>
    if rate.denominator > 0 then some (machine.quotient rate.numerator rate.denominator) else none
  | none => none

def videoMetadata (vs : VideoStreamProbe) : Except String StreamMetadata := do
  let durationUs ← durationOf machine vs.timing
  return {
    codecName := vs.codecName
    width := some vs.width.toInt64
    height := some vs.height.toInt64
    frameRate := frameRateOf machine vs.timing
    durationUs }

def audioMetadata (as : AudioStreamProbe) : Except String StreamMetadata := do
  let durationUs ← durationOf machine as.timing
  return {
    codecName := as.codecName
    sampleRate := some as.sampleRate.toInt64
    channels := some as.channels.toInt64
    durationUs }

def streamsFromProbe (probe : MediaProbe) : Except String (List StreamMetadata) := do
  let video ← probe.videoStreams.mapM (videoMetadata machine)
  let audio ← probe.audioStreams.mapM (audioMetadata machine)
  return video ++ audio

/-! ## Digests -/

def kReadBufferSize : Nat := 64 * 1024

/-- The text of the digest of what was hashed. -/
def digestText (hashed : Bytes) : String := "blake3:" ++ blake3Hex (machine.blake3 hashed)

/-- Reads what is left of a file, a buffer at a time. -/
def readAll : Nat → Bytes → Bytes → Option Bytes
  | 0, _, _ => none
  | fuel + 1, rest, hashed =>
    let buffer := rest.take kReadBufferSize
    if buffer.length < kReadBufferSize then some (hashed ++ buffer)
    else readAll fuel (rest.drop kReadBufferSize) (hashed ++ buffer)

/-- Empty where the file cannot be opened. -/
def blake3HexForFile (fuel : Nat) (file : FileAt) : Option String :=
  match file with
  | .readable bytes => (readAll fuel bytes []).map (digestText machine)
  | _ => some ""

/-- Reads one chunk: what was hashed, and what is left of the file. -/
def readChunk : Nat → Bytes → Int → Int → Bytes → Option (Bytes × Bytes)
  | 0, _, _, _, _ => none
  | fuel + 1, rest, thisChunkSize, chunkRead, hashed =>
    if chunkRead < thisChunkSize then
      let toRead := (min (kReadBufferSize : Int) (thisChunkSize - chunkRead)).toNat
      let buffer := rest.take toRead
      if buffer.length = 0 then some (hashed, rest)
      else readChunk fuel (rest.drop toRead) thisChunkSize (chunkRead + buffer.length)
        (hashed ++ buffer)
    else some (hashed, rest)

/-- The chunks from `offset` on, of a file of which `rest` is left. -/
def chunkLoop (fuel : Nat) (chunkSize totalSize : Int) :
    Nat → Bytes → Int → Int → ChunkProof → Option ChunkProof
  | 0, _, _, _, _ => none
  | rounds + 1, rest, offset, chunkIndex, proof =>
    if offset < totalSize then do
      let thisChunkSize := min chunkSize (totalSize - offset)
      let (hashed, rest) ← readChunk fuel rest thisChunkSize 0 []
      chunkLoop fuel chunkSize totalSize rounds rest (offset + thisChunkSize) (chunkIndex + 1)
        { proof with
          lastChunkHash := digestText machine hashed
          lastChunkSize := .ofInt thisChunkSize
          chunkCount := .ofInt (chunkIndex + 1) }
    else some proof

def computeChunkProof (fuel : Nat) (file : FileAt) (chunkSize totalSize : Int64) :
    Option ChunkProof :=
  let proof : ChunkProof := { chunkSizeBytes := chunkSize }
  match file with
  | .readable bytes =>
    chunkLoop machine fuel chunkSize.toInt totalSize.toInt fuel bytes 0 0 proof
  | _ => some proof

/-! ## The binding -/

structure MediaBindingFactoryOptions where
  ffprobePath : String := "ffprobe"
  bindingId : String := "mb_primary_000001"
  mediaId : String := "media_src_000001"
  computeFullBlake3 : Bool := true
  computeChunkProof : Bool := true
  chunkSizeBytes : Int64 := 16777216

/-- The texts the program takes from the path of the source. -/
structure SourcePath where
  filename : String
  absolute : String
  rootName : String

/-- What a probe says, as far as it could be read. -/
def probed (binding : MediaBinding) (probe : Except String MediaProbe) : MediaBinding :=
  match probe with
  | .error _ => { binding with containerFormat := "unknown" }
  | .ok probe =>
    match durationUsFromProbe machine probe with
    | .error _ => { binding with containerFormat := "unknown" }
    | .ok durationUs =>
      match streamsFromProbe machine probe with
      | .error _ => { binding with durationUs, containerFormat := "unknown" }
      | .ok streams =>
        { binding with durationUs, containerFormat := containerFormatFromProbe probe, streams }

def createDigest (fuel : Nat) (file : FileAt) (options : MediaBindingFactoryOptions)
    (sizeBytes : Int64) : Option MediaIdentity :=
  if options.computeFullBlake3 ∧ sizeBytes > 0 then do
    let blake3Hash ← blake3HexForFile machine fuel file
    if blake3Hash ≠ "" then return { blake3State := .present, blake3Hash }
    else
      return { blake3State := .unavailable, blake3Hash, blake3StateReason := "BLAKE3 computation failed" }
  else if !options.computeFullBlake3 then
    some { blake3State := .pending, blake3StateReason := "Full-file BLAKE3 not requested" }
  else
    some { blake3State := .unavailable, blake3StateReason := "Source file is empty or unreadable" }

def createChunkProof (fuel : Nat) (file : FileAt) (options : MediaBindingFactoryOptions)
    (sizeBytes : Int64) : Option (Option ChunkProof) :=
  if options.computeChunkProof ∧ sizeBytes > 0 then
    some <$> computeChunkProof machine fuel file options.chunkSizeBytes sizeBytes
  else some none

/-- The document of a file with that identity. -/
def bindingDocument (path : SourcePath) (file : FileAt) (options : MediaBindingFactoryOptions)
    (identity : MediaIdentity) : MediaBindingDocument :=
  let binding := probed machine
    { bindingId := options.bindingId
      mediaRole := "primary_source"
      mediaId := options.mediaId
      bindingContract := kSvpiBindingContract
      verificationState := "pending"
      sizeBytes := fileSizeBytes file }
    (probeMediaWithFfprobe machine file options.ffprobePath)
  { primaryBindingId := options.bindingId
    bindings :=
      [{ binding with
          identity
          locationHints :=
            { originalFilename := path.filename
              relativePath := "./" ++ path.filename
              originalAbsolutePath := path.absolute
              volumeHint := path.rootName } }] }

def createMediaBinding (fuel : Nat) (path : SourcePath) (file : FileAt)
    (options : MediaBindingFactoryOptions) : Option MediaBindingDocument := do
  let identity ← createDigest machine fuel file options (fileSizeBytes file)
  let chunkProof ← createChunkProof machine fuel file options (fileSizeBytes file)
  return bindingDocument machine path file options { identity with chunkProof }

/-! ## What the loops return -/

theorem readAll_eq (fuel : Nat) {rest hashed : Bytes} (enough : rest.length < fuel) :
    readAll fuel rest hashed = some (hashed ++ rest) := by
  induction fuel generalizing rest hashed with
  | zero => exact absurd enough (Nat.not_lt_zero _)
  | succ fuel ih =>
    have positive : 0 < kReadBufferSize := by decide
    rw [readAll]
    split
    · next short =>
      rw [List.length_take] at short
      rw [List.take_of_length_le (by omega)]
    · next full =>
      rw [List.length_take] at full
      rw [ih (by rw [List.length_drop]; omega), List.append_assoc, List.take_append_drop]

/-- A chunk is what is left of it in the file. -/
theorem readChunk_eq (fuel : Nat) {rest hashed : Bytes} {thisChunkSize chunkRead : Int} {need : Nat}
    (left : thisChunkSize - chunkRead = need) (inside : need ≤ rest.length) (enough : need < fuel) :
    readChunk fuel rest thisChunkSize chunkRead hashed =
      some (hashed ++ rest.take need, rest.drop need) := by
  induction fuel generalizing rest hashed chunkRead need with
  | zero => exact absurd enough (Nat.not_lt_zero _)
  | succ fuel ih =>
    have positive : 0 < kReadBufferSize := by decide
    rw [readChunk]
    by_cases more : chunkRead < thisChunkSize
    swap
    · obtain rfl : need = 0 := by omega
      rw [if_neg more, List.take_zero, List.append_nil, List.drop_zero]
    · have toRead : (min (kReadBufferSize : Int) (thisChunkSize - chunkRead)).toNat =
          min kReadBufferSize need := by omega
      have buffer : (rest.take (min kReadBufferSize need)).length = min kReadBufferSize need := by
        rw [List.length_take]
        omega
      rw [if_pos more, toRead]
      dsimp only
      rw [buffer, if_neg (by omega), @ih _ _ _ (need - min kReadBufferSize need) (by omega)
        (by rw [List.length_drop]; omega) (by omega), List.append_assoc, List.drop_drop]
      have joined : rest.take (min kReadBufferSize need) ++
          (rest.drop (min kReadBufferSize need)).take (need - min kReadBufferSize need) =
          rest.take need := by
        rw [← List.take_add]
        congr 1
        omega
      rw [joined]
      congr 3
      omega

/-- The number of chunks. -/
def chunkCount (size chunkSize : Nat) : Nat := size ⌈/⌉ chunkSize

/-- What is before the last chunk. -/
def beforeLast (size chunkSize : Nat) : Nat := (chunkCount size chunkSize - 1) * chunkSize

theorem chunkCount_small {size chunkSize : Nat} (positive : 0 < size) (small : size ≤ chunkSize) :
    chunkCount size chunkSize = 1 := by
  rw [chunkCount, Nat.ceilDiv_eq_add_pred_div]
  exact Nat.div_eq_of_lt_le (by omega) (by omega)

theorem chunkCount_large {size chunkSize : Nat} (positive : 0 < chunkSize) (large : chunkSize < size) :
    chunkCount size chunkSize = chunkCount (size - chunkSize) chunkSize + 1 := by
  rw [chunkCount, chunkCount, Nat.ceilDiv_eq_add_pred_div, Nat.ceilDiv_eq_add_pred_div,
    ← Nat.add_div_right _ positive]
  congr 1
  omega

theorem chunkCount_pos {size chunkSize : Nat} (positive : 0 < size) (chunk : 0 < chunkSize) :
    0 < chunkCount size chunkSize := by
  rw [chunkCount, Nat.ceilDiv_eq_add_pred_div]
  exact Nat.div_pos (by omega) chunk

/-- The last chunk has the remaining size: more than nothing, no more than a chunk. -/
theorem beforeLast_lt {size chunkSize : Nat} (positive : 0 < size) (chunk : 0 < chunkSize) :
    beforeLast size chunkSize < size ∧ size ≤ beforeLast size chunkSize + chunkSize := by
  have count := chunkCount_pos positive chunk
  have low : chunkCount size chunkSize * chunkSize ≤ size + chunkSize - 1 := by
    rw [chunkCount, Nat.ceilDiv_eq_add_pred_div]
    exact Nat.div_mul_le_self _ _
  have high : size + chunkSize - 1 < (chunkCount size chunkSize + 1) * chunkSize := by
    rw [chunkCount, Nat.ceilDiv_eq_add_pred_div]
    exact Nat.lt_mul_of_div_lt (Nat.lt_succ_self _) chunk
  rw [beforeLast, Nat.sub_mul, Nat.one_mul]
  rw [Nat.add_mul, Nat.one_mul] at high
  have more : chunkSize ≤ chunkCount size chunkSize * chunkSize := Nat.le_mul_of_pos_left _ count
  omega

/-- The proof of a file's chunks. -/
def chunkProofOf (bytes : Bytes) (chunkSize : Int64) : ChunkProof :=
  let size := chunkSize.toInt.toNat
  { chunkSizeBytes := chunkSize
    chunkCount := .ofInt (chunkCount bytes.length size)
    lastChunkHash := digestText machine (bytes.drop (beforeLast bytes.length size))
    lastChunkSize := .ofInt (bytes.length - beforeLast bytes.length size : Nat) }

section Loop

variable {machine}

theorem chunkLoop_eq (fuel : Nat) {chunkSize : Nat} (positive : 0 < chunkSize) {totalSize : Int}
    (rounds : Nat) {rest : Bytes} {offset chunkIndex : Int} {proof : ChunkProof}
    (left : totalSize - offset = rest.length) (some_ : 0 < rest.length)
    (enough : rest.length < rounds) (deep : rest.length < fuel) :
    chunkLoop machine fuel chunkSize totalSize rounds rest offset chunkIndex proof =
      some { proof with
        chunkCount := .ofInt (chunkIndex + chunkCount rest.length chunkSize)
        lastChunkHash := digestText machine (rest.drop (beforeLast rest.length chunkSize))
        lastChunkSize := .ofInt (rest.length - beforeLast rest.length chunkSize : Nat) } := by
  induction rounds generalizing rest offset chunkIndex proof with
  | zero => exact absurd enough (Nat.not_lt_zero _)
  | succ rounds ih =>
    have size : min (chunkSize : Int) (totalSize - offset) = (min chunkSize rest.length : Nat) := by
      omega
    have read : readChunk fuel rest (min chunkSize rest.length : Nat) 0 [] =
        some (rest.take (min chunkSize rest.length), rest.drop (min chunkSize rest.length)) :=
      readChunk_eq fuel (Int.sub_zero _) (Nat.min_le_right _ _) (by omega)
    rw [chunkLoop, if_pos (by omega), size]
    dsimp only
    rw [read]
    simp only [Option.bind_eq_bind, Option.bind_some]
    by_cases last : rest.length ≤ chunkSize
    · -- The last chunk: the loop stops behind it.
      have whole : min chunkSize rest.length = rest.length := Nat.min_eq_right last
      have one : chunkCount rest.length chunkSize = 1 := chunkCount_small some_ last
      have front : beforeLast rest.length chunkSize = 0 := by
        rw [beforeLast, one, Nat.sub_self, Nat.zero_mul]
      obtain ⟨rounds, rfl⟩ := Nat.exists_eq_succ_of_ne_zero (by omega : rounds ≠ 0)
      rw [whole, List.drop_length, List.take_length, chunkLoop, if_neg (by omega), front, one,
        List.drop_zero, Nat.sub_zero]
      rfl
    · have whole : min chunkSize rest.length = chunkSize := Nat.min_eq_left (by omega)
      have count := chunkCount_large positive (Nat.lt_of_not_le last)
      have shorter : (rest.drop chunkSize).length = rest.length - chunkSize := List.length_drop
      have more := chunkCount_pos (by omega : 0 < rest.length - chunkSize) positive
      have front : beforeLast rest.length chunkSize =
          chunkSize + beforeLast (rest.length - chunkSize) chunkSize := by
        rw [beforeLast, beforeLast, count, Nat.add_sub_cancel, Nat.sub_mul, Nat.one_mul]
        have := Nat.le_mul_of_pos_left chunkSize more
        omega
      rw [whole, ih (by rw [shorter]; omega) (by omega) (by omega) (by omega), shorter, front, count,
        List.drop_drop, ← Nat.sub_sub]
      congr 3
      omega

theorem computeChunkProof_eq {bytes : Bytes} {chunkSize : Int64} (positive : 0 < chunkSize)
    (some_ : bytes ≠ []) (small : bytes.length < 2 ^ 63) {fuel : Nat} (enough : bytes.length < fuel) :
    computeChunkProof machine fuel (.readable bytes) chunkSize (.ofNat bytes.length) =
      some (chunkProofOf machine bytes chunkSize) := by
  have chunk : 0 < chunkSize.toInt := Int64.lt_iff_toInt_lt.mp positive
  have size : ((chunkSize.toInt.toNat : Nat) : Int) = chunkSize.toInt := Int.toNat_of_nonneg chunk.le
  have total : (Int64.ofNat bytes.length).toInt = bytes.length := Int64.toInt_ofNat_of_lt small
  have loop := @chunkLoop_eq machine fuel chunkSize.toInt.toNat (by omega) bytes.length fuel bytes 0 0
    { chunkSizeBytes := chunkSize } (Int.sub_zero _) (List.length_pos_iff.mpr some_) enough enough
  rw [computeChunkProof, total, ← size, loop, chunkProofOf, Int.zero_add]

end Loop

/-! ## The created document -/

def createdIdentity (bytes : Bytes) (options : MediaBindingFactoryOptions) : MediaIdentity where
  blake3State := .present
  blake3Hash := digestText machine bytes
  chunkProof :=
    if options.computeChunkProof then some (chunkProofOf machine bytes options.chunkSizeBytes) else none

def createdDocument (path : SourcePath) (bytes : Bytes) (options : MediaBindingFactoryOptions) :
    MediaBindingDocument :=
  bindingDocument machine path (.readable bytes) options (createdIdentity machine bytes options)

/-- The loop's count is the number of chunks, and the last chunk has the remaining size. -/
structure CountsChunks (bytes : Bytes) (chunkSize : Int64) (proof : ChunkProof) : Prop where
  count : proof.chunkCount.toInt = (bytes.length ⌈/⌉ chunkSize.toInt.toNat : Nat)
  remaining : proof.lastChunkSize.toInt =
    bytes.length - (proof.chunkCount.toInt - 1) * chunkSize.toInt
  sized : 0 < proof.lastChunkSize.toInt ∧ proof.lastChunkSize.toInt ≤ chunkSize.toInt
  hash : proof.lastChunkHash =
    digestText machine (bytes.drop (bytes.length - proof.lastChunkSize.toInt.toNat))

section Create

variable {machine} {bytes : Bytes}

theorem digestText_ne_empty (hashed : Bytes) : digestText machine hashed ≠ "" := by
  intro empty
  have texts := congrArg String.toList empty
  rw [digestText, String.toList_append] at texts
  cases texts

theorem fileSizeBytes_pos (some_ : bytes ≠ []) (small : bytes.length < 2 ^ 63) :
    fileSizeBytes (.readable bytes) > 0 := by
  have positive := List.length_pos_iff.mpr some_
  rw [fileSizeBytes, gt_iff_lt, Int64.lt_iff_toInt_lt, Int64.toInt_ofNat_of_lt small]
  exact Int.natCast_pos.mpr positive

theorem blake3HexForFile_eq {fuel : Nat} (enough : bytes.length < fuel) :
    blake3HexForFile machine fuel (.readable bytes) = some (digestText machine bytes) := by
  rw [blake3HexForFile, readAll_eq fuel enough, List.nil_append, Option.map_some]

/-- With enough rounds for the file, creating returns. -/
theorem createMediaBinding_eq (some_ : bytes ≠ []) (small : bytes.length < 2 ^ 63)
    {options : MediaBindingFactoryOptions} (full : options.computeFullBlake3 = true)
    (positive : 0 < options.chunkSizeBytes) (path : SourcePath) {fuel : Nat}
    (enough : bytes.length < fuel) :
    createMediaBinding machine fuel path (.readable bytes) options =
      some (createdDocument machine path bytes options) := by
  have size := fileSizeBytes_pos some_ small
  have digest : createDigest machine fuel (.readable bytes) options (fileSizeBytes (.readable bytes)) =
      some { blake3State := .present, blake3Hash := digestText machine bytes } := by
    rw [createDigest, if_pos ⟨full, size⟩, blake3HexForFile_eq enough]
    simp only [Option.bind_eq_bind, Option.bind_some]
    rw [if_pos (digestText_ne_empty bytes)]
    rfl
  have chunks : createChunkProof machine fuel (.readable bytes) options
      (fileSizeBytes (.readable bytes)) = some (createdIdentity machine bytes options).chunkProof := by
    rw [createChunkProof, createdIdentity]
    by_cases wanted : options.computeChunkProof = true
    · rw [if_pos ⟨wanted, size⟩, if_pos wanted]
      exact congrArg (Option.map some) (computeChunkProof_eq positive some_ small enough)
    · rw [if_neg fun both => wanted both.1, if_neg wanted]
  rw [createMediaBinding, digest, chunks]
  rfl

theorem forall_mem_of_mapM {ε α β : Type} {f : α → Except ε β} {p : β → Prop}
    (each : ∀ a b, f a = .ok b → p b) {l : List α} {bs : List β} (mapped : l.mapM f = .ok bs) :
    ∀ b ∈ bs, p b := by
  induction l generalizing bs with
  | nil =>
    cases mapped
    exact List.forall_mem_nil _
  | cons a rest ih =>
    obtain ⟨b, others, first, later, rfl⟩ := Exec.mapM_cons_eq_ok.mp mapped
    exact List.forall_mem_cons.mpr ⟨each a b first, ih later⟩

/-- A probe tells no bit rate. -/
theorem bitRate_of_streamsFromProbe {probe : MediaProbe} {streams : List StreamMetadata}
    (read : streamsFromProbe machine probe = .ok streams) : ∀ stream ∈ streams, stream.bitRate = 0 := by
  obtain ⟨video, videoRead, read⟩ := Exec.bind_eq_ok.mp read
  obtain ⟨audio, audioRead, read⟩ := Exec.bind_eq_ok.mp read
  cases read
  refine List.forall_mem_append.mpr ⟨forall_mem_of_mapM (fun vs stream made => ?_) videoRead,
    forall_mem_of_mapM (fun as stream made => ?_) audioRead⟩
  · obtain ⟨durationUs, -, made⟩ := Exec.bind_eq_ok.mp made
    cases made
    rfl
  · obtain ⟨durationUs, -, made⟩ := Exec.bind_eq_ok.mp made
    cases made
    rfl

theorem bitRatesNonneg_created (path : SourcePath) (options : MediaBindingFactoryOptions) :
    BitRatesNonneg (createdDocument machine path bytes options) := by
  intro binding mem stream memStream
  obtain rfl := List.mem_singleton.mp mem
  change stream ∈ (probed machine _ _).streams at memStream
  unfold probed at memStream
  split at memStream
  · cases memStream
  · split at memStream
    · cases memStream
    · split at memStream
      · cases memStream
      · next read =>
        rw [bitRate_of_streamsFromProbe read stream memStream]
        exact Int64.le_refl 0

theorem chunkProofOf_counts {chunkSize : Int64} (positive : 0 < chunkSize) (some_ : bytes ≠ [])
    (small : bytes.length < 2 ^ 63) :
    CountsChunks machine bytes chunkSize (chunkProofOf machine bytes chunkSize) := by
  have chunk : 0 < chunkSize.toInt := Int64.lt_iff_toInt_lt.mp positive
  have length := List.length_pos_iff.mpr some_
  obtain ⟨size, sizeIs⟩ := Int.eq_ofNat_of_zero_le chunk.le
  have sizePos : 0 < size := by omega
  have count := chunkCount_pos length sizePos
  obtain ⟨before, after⟩ := beforeLast_lt length sizePos
  have few : chunkCount bytes.length size ≤ bytes.length := by
    have each := Nat.le_mul_of_pos_right (chunkCount bytes.length size - 1) sizePos
    rw [beforeLast] at before
    omega
  have fits : ∀ number ≤ bytes.length, (Int64.ofInt (number : Nat)).toInt = (number : Nat) :=
    fun number _ => Int64.toInt_ofInt_of_le (by omega) (by omega)
  have counted := fits (chunkCount bytes.length size) few
  have last := fits (bytes.length - beforeLast bytes.length size) (Nat.sub_le _ _)
  have sizeNat : chunkSize.toInt.toNat = size := by omega
  constructor
  case count =>
    rw [chunkProofOf, sizeNat]
    exact counted
  case remaining =>
    rw [chunkProofOf, sizeNat]
    dsimp only
    rw [counted, last, sizeIs]
    have front : ((beforeLast bytes.length size : Nat) : Int) =
        ((chunkCount bytes.length size : Nat) - 1) * (size : Int) := by
      rw [beforeLast, Nat.cast_mul, Nat.cast_sub count, Nat.cast_one]
    rw [Nat.cast_sub before.le, front]
  case sized =>
    rw [chunkProofOf, sizeNat]
    dsimp only
    rw [last, sizeIs]
    omega
  case hash =>
    rw [chunkProofOf, sizeNat]
    dsimp only
    rw [last, Int.toNat_natCast, Nat.sub_sub_self before.le]

end Create

end Svp.Package

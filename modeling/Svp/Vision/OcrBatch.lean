import Svp.Vision.OcrReuse

/-!
# OCR frame batches

`runOcrFrameBatch` decodes a slice of the OCR sample plan and reads every frame, and
`partitionOcrSamples` cuts the plan into such slices. The decoder, the detector and
the recognizer are parameters.
-/

namespace Svp.Vision

open Exec (Bytes utf8)
open Lib (round64)

variable {Score : Type}

/-! ## Sample records -/

/-- The replacement character, for every byte that is not part of valid UTF-8. -/
def kReplacement : Bytes := [0xEF, 0xBF, 0xBD]

def isContinuation (byte : UInt8) : Bool := byte &&& 0xC0 == 0x80

def sanitizeUtf8 : Bytes → Bytes
  | [] => []
  | c :: rest =>
    if c ≤ 0x7F then c :: sanitizeUtf8 rest
    else if c &&& 0xE0 = 0xC0 then
      match rest with
      | c1 :: tail =>
        if isContinuation c1 && 0xC2 ≤ c then c :: c1 :: sanitizeUtf8 tail
        else kReplacement ++ sanitizeUtf8 (c1 :: tail)
      | [] => kReplacement
    else if c &&& 0xF0 = 0xE0 then
      match rest with
      | c1 :: c2 :: tail =>
        let surrogate := c == 0xED && 0xA0 ≤ c1
        let overlong := c == 0xE0 && c1 < 0xA0
        if isContinuation c1 && isContinuation c2 && !surrogate && !overlong then
          c :: c1 :: c2 :: sanitizeUtf8 tail
        else kReplacement ++ sanitizeUtf8 (c1 :: c2 :: tail)
      | [c1] => kReplacement ++ sanitizeUtf8 [c1]
      | [] => kReplacement
    else if c &&& 0xF8 = 0xF0 then
      match rest with
      | c1 :: c2 :: c3 :: tail =>
        let validBounds := c < 0xF4 || (c == 0xF4 && c1 ≤ 0x8F)
        let overlong := c == 0xF0 && c1 < 0x90
        if isContinuation c1 && isContinuation c2 && isContinuation c3 && 0xF0 ≤ c && c ≤ 0xF4 &&
            validBounds && !overlong then
          c :: c1 :: c2 :: c3 :: sanitizeUtf8 tail
        else kReplacement ++ sanitizeUtf8 (c1 :: c2 :: c3 :: tail)
      | [c1, c2] => kReplacement ++ sanitizeUtf8 [c1, c2]
      | [c1] => kReplacement ++ sanitizeUtf8 [c1]
      | [] => kReplacement
    else kReplacement ++ sanitizeUtf8 rest

inductive OcrSampleStatus
  | ok
  | decodeMissed
  | frameInvalid
  | ocrFailed
  | notStarted
deriving DecidableEq

structure OcrTextDetection (Score : Type) where
  text : Bytes
  confidence : Score
  bboxLeft : Int
  bboxTop : Int
  bboxRight : Int
  bboxBottom : Int
  reused : Bool
deriving DecidableEq

structure OcrSampleDetections (Score : Type) where
  sampleOrdinal : Nat
  timestampUs : Int
  status : OcrSampleStatus
  error : Bytes := []
  frameWidth : Int := 0
  frameHeight : Int := 0
  detections : List (OcrTextDetection Score) := []
deriving DecidableEq

structure OcrSample where
  ordinal : Nat
  timestampUs : Int
deriving DecidableEq

/-- The sample schedule: ordinals count the timestamps. -/
def makeOcrSamplePlan (timestampsUs : List Int) : List OcrSample :=
  timestampsUs.zipIdx.map fun (timestampUs, ordinal) => { ordinal, timestampUs }

/-! ## One frame -/

/-- A loaded PP-OCR session with its options. -/
structure PpOcr (Score : Type) where
  available : Bool
  /-- The boxes found on a frame; none where detection fails or finds no output. -/
  detect : ColorRasterFrame → Except Bytes (Option (List PpOcrTextBox))
  recognize : ColorRasterFrame → PpOcrRecognizer Score
  /-- The score is at least `min_text_score`. -/
  keepsScore : Score → Bool

/-- Detection, then a reading for every detected box by the reuse state. -/
def runPpOcrOnFrame (ocr : PpOcr Score) (frame : ColorRasterFrame) (ordinal : Nat)
    (reuse : OcrRecognitionReuse Score) :
    Except Bytes (List (PpOcrDetection Score)) × OcrRecognitionReuse Score :=
  if !ocr.available || frame.pixels.isEmpty then (.ok [], reuse)
  else
    match ocr.detect frame with
    | .error error => (.error error, reuse)
    | .ok none => (.ok [], reuse)
    | .ok (some boxes) =>
      match reuse.read ordinal frame boxes (ocr.recognize frame) with
      | (.error error, reuse) => (.error error, reuse)
      | (.ok readings, reuse) =>
        if readings.length ≠ boxes.length then
          (.error (utf8 s!"PP-OCR box reader returned {readings.length} readings for {boxes.length} boxes"),
            reuse)
        else
          (.ok (readings.filter fun reading =>
            !reading.text.isEmpty && ocr.keepsScore reading.score), reuse)

def ocrTextDetection (detection : PpOcrDetection Score) : OcrTextDetection Score where
  text := detection.text
  confidence := detection.score
  bboxLeft := detection.bboxLeft
  bboxTop := detection.bboxTop
  bboxRight := detection.bboxRight
  bboxBottom := detection.bboxBottom
  reused := detection.reused

def runOcrOnDecodedFrame (ocr : PpOcr Score) (frame : ColorRasterFrame) (sampleOrdinal : Nat)
    (reuse : OcrRecognitionReuse Score) :
    OcrSampleDetections Score × OcrRecognitionReuse Score :=
  let record (status : OcrSampleStatus) (error : Bytes)
      (detections : List (OcrTextDetection Score)) : OcrSampleDetections Score :=
    { sampleOrdinal, timestampUs := frame.timestampUs, status, error, frameWidth := frame.width
      frameHeight := frame.height, detections }
  if frame.width ≤ 0 ∨ frame.height ≤ 0 ∨ frame.pixels = [] then
    (record .frameInvalid (utf8 "Empty or invalid frame pixels") [], reuse)
  else
    match runPpOcrOnFrame ocr frame sampleOrdinal reuse with
    | (.error error, reuse) => (record .ocrFailed (sanitizeUtf8 error) [], reuse)
    | (.ok detections, reuse) => (record .ok [] (detections.map ocrTextDetection), reuse)

/-! ## A batch -/

structure OcrFrameBatchRequest where
  ffmpegPath : Bytes
  frameWidth : Int
  frameHeight : Int
  samples : List OcrSample

/-- What runs outside: ffmpeg, and PP-OCR. A decode gives pixels and an error text; no
pixels are a miss. -/
structure OcrHost (Score : Type) where
  ffmpegExecutableAvailable : Bool
  decodeRgbFrameAt : OcrSample → List Srgb8Pixel × Bytes
  ocr : PpOcr Score

structure OcrFrameBatchOutcome (Score : Type) where
  decodingAttempted : Bool := false
  skippedReason : Bytes := []
  samples : List (OcrSampleDetections Score) := []
  recognizedBoxes : Nat := 0
  reusedBoxes : Nat := 0

def sampleLabel (ordinal : Nat) : String := s!"ocr_sample_{ordinal}"

def decodeMissed (sample : OcrSample) (error : Bytes) : OcrSampleDetections Score where
  sampleOrdinal := sample.ordinal
  timestampUs := sample.timestampUs
  status := .decodeMissed
  error := error

/-- The frame a sample is decoded to. -/
def decodedFrame (frameWidth frameHeight : Int) (sample : OcrSample) (pixels : List Srgb8Pixel) :
    ColorRasterFrame where
  frameId := sampleLabel sample.ordinal
  timestampUs := sample.timestampUs
  width := frameWidth
  height := frameHeight
  pixels := pixels

/-- One round of the batch's loop. -/
def runSample (host : OcrHost Score) (frameWidth frameHeight : Int)
    (reuse : OcrRecognitionReuse Score) (sample : OcrSample) :
    OcrSampleDetections Score × OcrRecognitionReuse Score :=
  let (pixels, decodeError) := host.decodeRgbFrameAt sample
  if pixels.isEmpty then (decodeMissed sample decodeError, reuse)
  else
    runOcrOnDecodedFrame host.ocr (decodedFrame frameWidth frameHeight sample pixels)
      sample.ordinal reuse

def runSamples (host : OcrHost Score) (frameWidth frameHeight : Int)
    (reuse : OcrRecognitionReuse Score) :
    List OcrSample → List (OcrSampleDetections Score) × OcrRecognitionReuse Score
  | [] => ([], reuse)
  | sample :: samples =>
    let (record, reuse) := runSample host frameWidth frameHeight reuse sample
    let (records, reuse) := runSamples host frameWidth frameHeight reuse samples
    (record :: records, reuse)

def runOcrFrameBatch (host : OcrHost Score) (request : OcrFrameBatchRequest) :
    Except String (OcrFrameBatchOutcome Score) := do
  if let first :: _ := request.samples then
    if !ocrReuseGroupStartsAt first.ordinal then
      throw s!"OCR frame batch starts at sample {first.ordinal}, inside a recognition reuse group"
  if !host.ffmpegExecutableAvailable then
    return { skippedReason := utf8 "ffmpeg not found at: " ++ request.ffmpegPath }
  if request.frameWidth ≤ 0 ∨ request.frameHeight ≤ 0 then
    return { skippedReason := utf8 "target frame dimensions are not positive" }
  let (records, reuse) := runSamples host request.frameWidth request.frameHeight {} request.samples
  return {
    decodingAttempted := true
    samples := records
    recognizedBoxes := reuse.recognized
    reusedBoxes := reuse.reused }

/-! ## Batch sizes -/

structure OcrBatchPolicy where
  targetTaskSeconds : ℚ := 10
  /-- The double nearest to 0.6. -/
  estimatedSecondsPerSample : ℚ := round64 (6 / 10)

structure OcrSampleBatch where
  firstOrdinal : Nat
  count : Nat
deriving DecidableEq

def validateOcrBatchPolicy (policy : OcrBatchPolicy) : Except String Unit := do
  if policy.targetTaskSeconds ≤ 0 then
    throw "OcrBatchPolicy.target_task_seconds must be finite and > 0"
  if policy.estimatedSecondsPerSample ≤ 0 then
    throw "OcrBatchPolicy.estimated_seconds_per_sample must be finite and > 0"

def kMaxCount : Nat := 2 ^ 64 - 1

/-- Samples per batch, in whole reuse groups. -/
def ocrBatchSampleCount (policy : OcrBatchPolicy) : Except String Nat := do
  validateOcrBatchPolicy policy
  let samples := ⌊round64 (policy.targetTaskSeconds / policy.estimatedSecondsPerSample)⌋
  let largestAligned := kMaxCount / kOcrReuseGroupSamples * kOcrReuseGroupSamples
  if ¬ (samples : ℚ) < round64 largestAligned then return kMaxCount
  let count := max 1 samples.toNat
  return (count + kOcrReuseGroupSamples - 1) / kOcrReuseGroupSamples * kOcrReuseGroupSamples

/-- Consecutive batches of `perBatch` samples from `first` on. -/
def batchesFrom (perBatch : Nat) : (left : Nat) → (first : Nat) → List OcrSampleBatch
  | 0, _ => []
  | left + 1, first =>
    let count := min perBatch (left + 1)
    { firstOrdinal := first, count } :: batchesFrom perBatch (left - (count - 1)) (first + count)
termination_by left => left
decreasing_by omega

def partitionOcrSamples (sampleCount : Nat) (policy : OcrBatchPolicy) :
    Except String (List OcrSampleBatch) := do
  let perBatch ← ocrBatchSampleCount policy
  return batchesFrom perBatch sampleCount 0

end Svp.Vision

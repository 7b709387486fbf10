import Svp.Exec.Digest
import Svp.Lib.Timeline

/-!
# ASR chunks and their reconciliation

`buildAsrChunkPlan` cuts an audio track into chunks that overlap, and
`reconcileOverlappingChunks` folds the words recognized in each chunk into one
transcript. Times are in microseconds; confidences are copied, never computed with.
-/

namespace Svp.Audio

open Exec (Bytes utf8)

/-! ## Plan -/

structure AsrChunkPlan where
  chunkId : String
  sourceStartUs : Int
  sourceEndUs : Int
  overlapBeforeUs : Int
  overlapAfterUs : Int
  inputRef : String
  outputRef : String
  modelId : String
  runtime : String
  asrStatus : String
deriving DecidableEq

/-- What is asked of a plan. -/
structure AsrPlanRequest where
  totalDurationUs : Int
  chunkDurationUs : Int := 15000000
  overlapUs : Int := 2000000
  inputRef : String := "media/audio/analysis_mono_16k.wav"
  modelId : String
  runtime : String := "whisper.cpp"

def AsrPlanRequest.step (request : AsrPlanRequest) : Int :=
  request.chunkDurationUs - request.overlapUs

/-- The ordinal with at least six digits. -/
def paddedOrdinal (ordinal : Nat) : String :=
  let digits := toString ordinal
  "".pushn '0' (6 - digits.length) ++ digits

def chunkIdForOrdinal (ordinal : Nat) : String := "asr_chunk_" ++ paddedOrdinal ordinal

def chunkOutputRef (ordinal : Nat) : String :=
  "transcript/words.chunk_" ++ paddedOrdinal ordinal ++ ".jsonl"

/-- The chunk that starts at `cursor`. -/
def plannedChunk (request : AsrPlanRequest) (ordinal : Nat) (cursor : Int) : AsrChunkPlan where
  chunkId := chunkIdForOrdinal ordinal
  sourceStartUs := cursor
  sourceEndUs := min (cursor + request.chunkDurationUs) request.totalDurationUs
  overlapBeforeUs := if ordinal = 0 then 0 else min request.overlapUs cursor
  overlapAfterUs :=
    let nextStart := cursor + request.step
    if nextStart < request.totalDurationUs then
      min request.overlapUs (request.totalDurationUs - nextStart)
    else 0
  inputRef := request.inputRef
  outputRef := chunkOutputRef ordinal
  modelId := request.modelId
  runtime := request.runtime
  asrStatus := "planned"

/-- The chunks from `cursor` on. -/
def plannedFrom (request : AsrPlanRequest) (ordinal : Nat) (cursor : Int) : List AsrChunkPlan :=
  if cursor < request.totalDurationUs ∧ 0 < request.step then
    plannedChunk request ordinal cursor ::
      plannedFrom request (ordinal + 1) (cursor + request.step)
  else []
termination_by (request.totalDurationUs - cursor).toNat
decreasing_by omega

def buildAsrChunkPlan (request : AsrPlanRequest) : Except String (List AsrChunkPlan) := do
  if request.totalDurationUs < 0 then throw "total_duration_us must be non-negative"
  if request.chunkDurationUs ≤ 0 then throw "chunk_duration_us must be positive"
  if request.overlapUs < 0 then throw "overlap_us must be non-negative"
  if request.chunkDurationUs ≤ request.overlapUs then
    throw "overlap_us must be less than chunk_duration_us"
  if request.totalDurationUs = 0 then return []
  if request.step ≤ 0 then throw "effective step (chunk_duration - overlap) must be positive"
  return plannedFrom request 0 0

/-! ## Words -/

structure AsrWord (Score : Type) where
  text : Bytes
  startUs : Int
  endUs : Int
  confidence : Score
  chunkOrdinal : Int
  timingSource : String := "whisper_cpp_dtw"
deriving DecidableEq

variable {Score : Type}

/-- The word on source time. -/
def AsrWord.shift (word : AsrWord Score) (offset : Int) : AsrWord Score :=
  { word with startUs := word.startUs + offset, endUs := word.endUs + offset }

def AsrWord.endAt (word : AsrWord Score) (endUs : Int) : AsrWord Score := { word with endUs }

@[simp] theorem AsrWord.startUs_endAt (word : AsrWord Score) (seam : Int) :
    (word.endAt seam).startUs = word.startUs := rfl

@[simp] theorem AsrWord.endUs_endAt (word : AsrWord Score) (seam : Int) :
    (word.endAt seam).endUs = seam := rfl

def globallyTimedWords (words : List (AsrWord Score)) (chunk : AsrChunkPlan) :
    List (AsrWord Score) :=
  (words.filter fun word => word.startUs < word.endUs).map (·.shift chunk.sourceStartUs)

/-! ## Anchors -/

def isAlnum (character : UInt8) : Bool :=
  (48 ≤ character && character ≤ 57) || (65 ≤ character && character ≤ 90) ||
    (97 ≤ character && character ≤ 122)

def toLower (character : UInt8) : UInt8 :=
  if 65 ≤ character && character ≤ 90 then character + 32 else character

def normalizedToken (text : Bytes) : Bytes := (text.filter isAlnum).map toLower

/-- Four consecutive tokens anchor a chunk boundary. -/
def kMinimumAlignedOverlapTokens : Nat := 4

structure ContiguousMatch where
  priorStart : Nat := 0
  currentStart : Nat := 0
  length : Nat := 0
deriving DecidableEq

def ContiguousMatch.currentEnd (found : ContiguousMatch) : Nat := found.currentStart + found.length

/-- Row `i` of the table of common runs: entry `j` is the length of the run that ends with
the prior word `i` and the current word `j`. -/
def runRow (priorToken : Bytes) (tokens : List Bytes) (previous : List Nat) : List Nat :=
  0 :: List.zipWith (fun token length =>
    if !priorToken.isEmpty && priorToken == token then length + 1 else 0) tokens previous

/-- Of two matches the longer, and of equally long ones the one that ends later. -/
def betterMatch (best candidate : ContiguousMatch) : ContiguousMatch :=
  if best.length < candidate.length ∨
      candidate.length = best.length ∧ best.currentEnd < candidate.currentEnd then candidate
  else best

def bestOfRow (i : Nat) (row : List Nat) (best : ContiguousMatch) : ContiguousMatch :=
  row.zipIdx.foldl (fun best (length, j) =>
    if length = 0 then best
    else betterMatch best { priorStart := i - length, currentStart := j - length, length }) best

def longestContiguousMatch (prior current : List (AsrWord Score)) : ContiguousMatch :=
  let tokens := current.map fun word => normalizedToken word.text
  ((prior.zipIdx 1).foldl (fun (previous, best) (word, i) =>
    let row := runRow (normalizedToken word.text) tokens previous
    (row, bestOfRow i row best)) (List.replicate (current.length + 1) 0, {})).2

/-! ## Seams -/

/-- Where a chunk continues the result: its first word that is appended, and how much of
the result is not its copy. -/
structure Seam where
  appendFrom : Nat
  keptPriorEnd : Nat
deriving DecidableEq

/-- The words of the result's tail that the predecessor of chunk `index` gave. -/
def fromPredecessor (index : Nat) (word : AsrWord Score) : Bool :=
  word.chunkOrdinal == (index : Int) - 1

/-- The two copies of the anchor overlap in time. -/
def sameAudio (result current : List (AsrWord Score)) (priorAnchorBegin priorAnchorEnd
    currentBegin currentEnd : Nat) : Bool :=
  match result[priorAnchorEnd - 1]?, current[currentBegin]?, current[currentEnd - 1]?,
      result[priorAnchorBegin]? with
  | some priorLast, some currentFirst, some currentLast, some priorFirst =>
    currentFirst.startUs < priorLast.endUs && priorFirst.startUs < currentLast.endUs
  | _, _, _, _ => false

/-- The words of the chunk that start in its overlap with the predecessor. -/
def currentOverlap (current : List (AsrWord Score)) (chunk : AsrChunkPlan) : List (AsrWord Score) :=
  current.filter fun word => word.startUs < chunk.sourceStartUs + chunk.overlapBeforeUs

/-- Where the predecessor's words begin. -/
def priorBegin (result : List (AsrWord Score)) (index : Nat) : Nat :=
  (result.rdropWhile (fromPredecessor index)).length

/-- The anchor, where the result ends with words of the predecessor. -/
def overlapMatch (result current : List (AsrWord Score)) (last : AsrWord Score) (index : Nat)
    (chunk : AsrChunkPlan) : ContiguousMatch :=
  if 0 < index ∧ fromPredecessor index last then
    longestContiguousMatch (result.drop (priorBegin result index)) (currentOverlap current chunk)
  else {}

def findSeam (result current : List (AsrWord Score)) (last : AsrWord Score) (index : Nat)
    (chunk : AsrChunkPlan) : Seam :=
  let found := overlapMatch result current last index chunk
  if kMinimumAlignedOverlapTokens ≤ found.length then
    let priorAnchorBegin := priorBegin result index + found.priorStart
    let priorAnchorEnd := priorAnchorBegin + found.length
    { appendFrom := found.currentEnd
      keptPriorEnd :=
        if sameAudio result current priorAnchorBegin priorAnchorEnd found.currentStart
            found.currentEnd then priorAnchorEnd
        else result.length }
  else
    { appendFrom := (current.takeWhile fun word => word.startUs < last.endUs).length
      keptPriorEnd := result.length }

/-- Chunk `index` of the fold. -/
def reconcileChunk (result : List (AsrWord Score)) (index : Nat) (chunk : AsrChunkPlan)
    (words : List (AsrWord Score)) : List (AsrWord Score) :=
  let current := globallyTimedWords words chunk
  if current.isEmpty then result
  else
    match result.getLast? with
    | none => current
    | some last =>
      let seam := findSeam result current last index chunk
      match current.drop seam.appendFrom with
      | [] => result
      | first :: rest =>
        Lib.cutAt AsrWord.startUs AsrWord.endUs AsrWord.endAt first.startUs
          (result.take seam.keptPriorEnd) ++ first :: rest

def reconcileFrom (result : List (AsrWord Score)) (index : Nat) :
    List AsrChunkPlan → List (List (AsrWord Score)) → List (AsrWord Score)
  | chunk :: chunks, words :: family =>
    reconcileFrom (reconcileChunk result index chunk words) (index + 1) chunks family
  | _, _ => result

def reconcileOverlappingChunks (chunkWords : List (List (AsrWord Score)))
    (chunks : List AsrChunkPlan) : Except String (List (AsrWord Score)) := do
  if chunkWords.length ≠ chunks.length then
    throw "chunk_words size must match chunks size for reconciliation"
  return reconcileFrom [] 0 chunks chunkWords

end Svp.Audio

import Svp.Lib.KeySort

/-!
# The visual entity tracker

The loop of `run_visual_entity_tracker` over pairs of neighbouring keyframes. The
candidates of a keyframe are the detector proposals, motion clusters and depth regions,
merged; each joins a track by the overlap of boxes or by appearance, or opens a new
identity. Across a shot boundary overlap counts for nothing and appearance is held to a
stronger rule.

What proposes regions, the Kalman filter, the overlaps and the embeddings are parameters.
Numbers the code keeps as doubles are rational.
-/

namespace Svp.Vision

open Lib (sortByKey)

/-! ## Data -/

structure Rect where
  x : Int := 0
  y : Int := 0
  width : Int := 0
  height : Int := 0
deriving DecidableEq

def Rect.area (r : Rect) : Int := r.width * r.height

def Rect.isEmpty (r : Rect) : Bool := r.width ≤ 0 || r.height ≤ 0

/-- `a & b` of `cv::Rect`. -/
def Rect.inter (a b : Rect) : Rect :=
  let x := max a.x b.x
  let y := max a.y b.y
  let width := min (a.x + a.width) (b.x + b.width) - x
  let height := min (a.y + a.height) (b.y + b.height) - y
  if width ≤ 0 || height ≤ 0 then {} else ⟨x, y, width, height⟩

structure ExternalEntityProposal where
  frameId : String
  /-- left, top, right and bottom -/
  boxPx : Int × Int × Int × Int
  confidence : ℚ := 0
  detectorCategoryIndex : Int := -1
  source : String

structure VisualEntityTrackerOptions where
  minRegionAreaRatio : ℚ := 5 / 1000
  maxLostFrames : Int := 10
  appearanceSimilarityThreshold : ℚ := 75 / 100
  sceneCutSimilarityThreshold : ℚ := 90 / 100
  associationIouThreshold : ℚ := 1 / 10
  detectorDiscoveryConfidenceThreshold : ℚ := 15 / 100
  weakDetectorContinuationIouThreshold : ℚ := 50 / 100
  candidateMergeIouThreshold : ℚ := 3 / 10
  externalProposals : List ExternalEntityProposal := []

/-- A keyframe with what motion and depth propose on it. -/
structure Keyframe where
  frameIdx : Int
  frameId : String
  timestampUs : Int
  clusters : List Rect := []
  motionGroupCandidate : Bool := false
  depthCandidates : List Rect := []

structure UnifiedCandidate where
  bbox : Rect
  source : String
  confidence : ℚ := 1 / 2
  detectorCategoryIndex : Int := -1

structure ActiveTrack (Kalman Embedding : Type) where
  kalman : Kalman
  entityIdx : Nat
  trackIdx : Nat
  lastEmbedding : Option Embedding := none
  embeddingHistory : List Embedding := []
  embeddingObservationCount : Nat := 0
  lastBbox : Rect
  firstFrameIdx : Int
  lastFrameIdx : Int
  regionCount : Nat := 1
  lostCount : Int := 0
  reacquired : Bool := false
  startUs : Int
  endUs : Int
  candidateSource : String
  detectorCategoryIndex : Int

/-- What the tracker calls. An embedding is missing without a session, for an empty crop
and where the model fails. -/
structure TrackingFunctions (Kalman Embedding : Type) where
  computeIou : Rect → Rect → ℚ
  computeIom : Rect → Rect → ℚ
  hasGlobalMotionShape : List Rect → Bool
  init : Rect → Kalman
  predict : Kalman → Kalman × Rect
  correct : Kalman → Rect → Kalman
  markLost : Kalman → Kalman
  visualEmbedding : Keyframe → Rect → Option Embedding
  cosineSimilarity : Embedding → Embedding → ℚ

structure TrackerInput (Kalman Embedding : Type) where
  options : VisualEntityTrackerOptions
  functions : TrackingFunctions Kalman Embedding
  frameWidth : Int
  frameHeight : Int
  shotBoundaries : List (String × Int)

/-! ## Candidates -/

def containsText (text piece : String) : Bool := decide (piece.toList <:+: text.toList)

def isDetectorCandidate (candidate : UnifiedCandidate) : Bool :=
  containsText candidate.source "detector" || candidate.source == "objectness_detector"

def isMotionGroupCandidate (candidate : UnifiedCandidate) : Bool :=
  candidate.source == "motion_group"

section
variable {Kalman Embedding : Type} (input : TrackerInput Kalman Embedding)

/-- Whether a box is too small to be a region. -/
def tooSmall (bbox : Rect) : Bool :=
  bbox.isEmpty || decide ((bbox.area : ℚ) <
    input.options.minRegionAreaRatio * input.frameWidth * input.frameHeight)

def motionCandidates (keyframe : Keyframe) : List UnifiedCandidate :=
  (keyframe.clusters.filter fun bbox => !tooSmall input bbox).map fun bbox =>
    { bbox := bbox, source := if keyframe.motionGroupCandidate then "motion_group" else "motion" }

/-- Changes the first candidate that passes, or adds one. -/
def fuseOrAdd (passes : UnifiedCandidate → Bool) (fuse : UnifiedCandidate → UnifiedCandidate)
    (added : UnifiedCandidate) : List UnifiedCandidate → List UnifiedCandidate
  | [] => [added]
  | candidate :: rest =>
    if passes candidate then fuse candidate :: rest
    else candidate :: fuseOrAdd passes fuse added rest

def addProposal (candidates : List UnifiedCandidate) (proposal : ExternalEntityProposal) :
    List UnifiedCandidate :=
  let (left, top, right, bottom) := proposal.boxPx
  let box := Rect.inter ⟨left, top, right - left, bottom - top⟩
    ⟨0, 0, input.frameWidth, input.frameHeight⟩
  if box.isEmpty then candidates
  else
    fuseOrAdd
      (fun candidate => candidate.source == "motion" &&
        decide (input.options.candidateMergeIouThreshold <
          input.functions.computeIom candidate.bbox box))
      (fun _ => ⟨box, "detector_motion", proposal.confidence, proposal.detectorCategoryIndex⟩)
      ⟨box, proposal.source, proposal.confidence, proposal.detectorCategoryIndex⟩ candidates

def addDepth (candidates : List UnifiedCandidate) (bbox : Rect) : List UnifiedCandidate :=
  if tooSmall input bbox then candidates
  else
    fuseOrAdd
      (fun candidate =>
        (candidate.source == "motion" || candidate.source == "fused_motion_depth" ||
          isDetectorCandidate candidate) &&
        (decide (input.options.candidateMergeIouThreshold <
            input.functions.computeIou candidate.bbox bbox) ||
          decide (input.options.candidateMergeIouThreshold <
            input.functions.computeIom candidate.bbox bbox)))
      (fun candidate =>
        { candidate with
          source := if isDetectorCandidate candidate then "detector_motion_depth"
            else "fused_motion_depth" })
      { bbox := bbox, source := "depth" } candidates

/-- The group observation of an effect that spans the screen in pieces. -/
def addGroup (keyframe : Keyframe) (candidates : List UnifiedCandidate) : List UnifiedCandidate :=
  if !keyframe.motionGroupCandidate &&
      candidates.any (fun candidate => containsText candidate.source "motion") &&
      input.functions.hasGlobalMotionShape (candidates.map UnifiedCandidate.bbox) then
    candidates ++
      [{ bbox := ⟨0, 0, input.frameWidth, input.frameHeight⟩, source := "motion_group" }]
  else candidates

def frameProposals (keyframe : Keyframe) : List ExternalEntityProposal :=
  input.options.externalProposals.filter fun proposal => proposal.frameId == keyframe.frameId

/-- Detector evidence comes first and groups last. -/
def unifiedCandidates (keyframe : Keyframe) : List UnifiedCandidate :=
  let merged := keyframe.depthCandidates.foldl (addDepth input)
    ((frameProposals input keyframe).foldl (addProposal input) (motionCandidates input keyframe))
  sortByKey
    (fun candidate =>
      if isDetectorCandidate candidate then 0
      else if isMotionGroupCandidate candidate then 2 else 1)
    (addGroup input keyframe merged)

/-- Without any of these the keyframe is skipped. -/
def hasCandidates (keyframe : Keyframe) : Bool :=
  !(keyframe.clusters.isEmpty && keyframe.depthCandidates.isEmpty &&
    (frameProposals input keyframe).isEmpty)

/-- A shot boundary falls between two keyframes. -/
def isolatedSceneCut (previous next : Keyframe) : Bool :=
  input.shotBoundaries.any fun boundary =>
    decide (previous.timestampUs < boundary.2) && decide (boundary.2 ≤ next.timestampUs)

end

/-! ## One candidate -/

/-- The first of the largest scores above the floor. -/
def bestScored (floor : ℚ) (score : Nat → Option ℚ) (count : Nat) : ℚ × Option Nat :=
  (List.range count).foldl
    (fun best t =>
      match score t with
      | none => best
      | some value => if best.1 < value then (value, some t) else best)
    (floor, none)

structure TrackerState (Kalman Embedding : Type) where
  tracks : List (ActiveTrack Kalman Embedding) := []
  /-- The tracks that have a region on the keyframe. -/
  assigned : List Nat := []
  nextEntityIdx : Nat := 0
  nextTrackIdx : Nat := 0

/-- A region the tracker records, with the state it was decided in. -/
structure RegionEvent (Kalman Embedding : Type) where
  keyframe : Keyframe
  sceneCut : Bool
  candidate : UnifiedCandidate
  embedding : Option Embedding
  /-- Whether overlap decided. -/
  overlaps : Bool
  before : TrackerState Kalman Embedding
  joined : Option Nat

section
variable {Kalman Embedding : Type} (input : TrackerInput Kalman Embedding)

/-- The tests both ways of joining share: groups join groups, and two detector categories
agree. -/
def compatible (candidate : UnifiedCandidate) (track : ActiveTrack Kalman Embedding) : Bool :=
  ((track.candidateSource == "motion_group") == isMotionGroupCandidate candidate) &&
    !(decide (0 ≤ candidate.detectorCategoryIndex) && decide (0 ≤ track.detectorCategoryIndex) &&
      decide (candidate.detectorCategoryIndex ≠ track.detectorCategoryIndex))

def overlapScore (state : TrackerState Kalman Embedding) (predictedBoxes : List Rect)
    (sceneCut : Bool) (candidate : UnifiedCandidate) (t : Nat) : Option ℚ :=
  match state.tracks[t]? with
  | none => none
  | some track =>
    if state.assigned.contains t then none
    else if !sceneCut && decide (input.options.maxLostFrames < track.lostCount) then none
    else if !compatible candidate track then none
    else some (input.functions.computeIou (predictedBoxes.getD t {}) candidate.bbox)

/-- Similarity to the weakest of the embeddings a track holds. -/
def weakestSimilarity (embedding : Embedding) (history : List Embedding) : ℚ :=
  history.foldl (fun sim prior => min sim (input.functions.cosineSimilarity embedding prior)) 1

def appearanceScore (state : TrackerState Kalman Embedding) (sceneCut : Bool)
    (candidate : UnifiedCandidate) (embedding : Embedding) (t : Nat) : Option ℚ :=
  match state.tracks[t]? with
  | none => none
  | some track =>
    if state.assigned.contains t then none
    else if input.options.maxLostFrames < track.lostCount then none
    else if !compatible candidate track then none
    else
      match track.lastEmbedding with
      | none => none
      | some last =>
        if sceneCut then
          if track.embeddingHistory.length < 2 then none
          else some (weakestSimilarity input embedding track.embeddingHistory)
        else some (input.functions.cosineSimilarity embedding last)

/-- Reacquisition by appearance. -/
def reacquire (state : TrackerState Kalman Embedding) (sceneCut : Bool)
    (candidate : UnifiedCandidate) (embedding : Embedding) : Option Nat :=
  let best := bestScored (-1) (appearanceScore input state sceneCut candidate embedding)
    state.tracks.length
  let required := if sceneCut then input.options.sceneCutSimilarityThreshold
    else input.options.appearanceSimilarityThreshold
  if best.1 < required then none else best.2

def mergedSource (track : ActiveTrack Kalman Embedding) (candidate : UnifiedCandidate) : String :=
  if candidate.source == "depth" && track.candidateSource == "motion" then "fused_motion_depth"
  else if candidate.source == "motion" && track.candidateSource == "depth" then "fused_motion_depth"
  else if track.candidateSource == "" then candidate.source
  else track.candidateSource

/-- A track with one more region. -/
def updatedTrack (keyframe : Keyframe) (candidate : UnifiedCandidate) (embedding : Option Embedding)
    (reacquired : Bool) (track : ActiveTrack Kalman Embedding) : ActiveTrack Kalman Embedding :=
  { track with
    kalman := input.functions.correct track.kalman candidate.bbox
    lastBbox := candidate.bbox
    lastFrameIdx := keyframe.frameIdx
    endUs := keyframe.timestampUs
    regionCount := track.regionCount + 1
    lostCount := 0
    reacquired := track.reacquired || (reacquired && decide (0 < track.lostCount))
    lastEmbedding := embedding.or track.lastEmbedding
    embeddingObservationCount := track.embeddingObservationCount + embedding.toList.length
    -- the last two embeddings are kept
    embeddingHistory :=
      let history := track.embeddingHistory ++ embedding.toList
      if 2 < history.length then history.drop 1 else history
    candidateSource := mergedSource track candidate
    detectorCategoryIndex :=
      if 0 ≤ candidate.detectorCategoryIndex then candidate.detectorCategoryIndex
      else track.detectorCategoryIndex }

def newTrack (state : TrackerState Kalman Embedding) (keyframe : Keyframe)
    (candidate : UnifiedCandidate) (embedding : Option Embedding) : ActiveTrack Kalman Embedding where
  kalman := input.functions.init candidate.bbox
  entityIdx := state.nextEntityIdx
  trackIdx := state.nextTrackIdx
  lastEmbedding := embedding
  embeddingHistory := embedding.toList
  embeddingObservationCount := embedding.toList.length
  lastBbox := candidate.bbox
  firstFrameIdx := keyframe.frameIdx
  lastFrameIdx := keyframe.frameIdx
  startUs := keyframe.timestampUs
  endUs := keyframe.timestampUs
  candidateSource := candidate.source
  detectorCategoryIndex := candidate.detectorCategoryIndex

/-- Records a region on the track it joins or on a new one. -/
def recordRegion (keyframe : Keyframe) (candidate : UnifiedCandidate) (embedding : Option Embedding)
    (reacquired : Bool) (joined : Option Nat) (state : TrackerState Kalman Embedding) :
    TrackerState Kalman Embedding :=
  match joined with
  | some t =>
    { state with
      tracks := state.tracks.modify t (updatedTrack input keyframe candidate embedding reacquired)
      assigned := t :: state.assigned }
  | none =>
    { tracks := state.tracks ++ [newTrack input state keyframe candidate embedding]
      assigned := state.tracks.length :: state.assigned
      nextEntityIdx := state.nextEntityIdx + 1
      nextTrackIdx := state.nextTrackIdx + 1 }

/-- An embedding is computed for a detector region that overlap does not settle, and for
the first regions of a track. -/
def needsEmbedding (state : TrackerState Kalman Embedding) (sceneCut : Bool)
    (candidate : UnifiedCandidate) (best : ℚ × Option Nat) : Bool :=
  isDetectorCandidate candidate &&
    (sceneCut ||
      match best.2.bind fun t => state.tracks[t]? with
      | none => true
      | some track => decide (best.1 < input.options.associationIouThreshold) ||
          track.lastEmbedding.isNone || decide (track.embeddingObservationCount < 2))

/-- Enough overlap joins without a look at appearance. -/
def byOverlap (best : ℚ × Option Nat) : Bool :=
  best.2.isSome && decide (input.options.associationIouThreshold ≤ best.1)

/-- The track a region joins. -/
def joinedTrack (state : TrackerState Kalman Embedding) (sceneCut : Bool)
    (candidate : UnifiedCandidate) (best : ℚ × Option Nat) (embedding : Option Embedding) :
    Option Nat :=
  if byOverlap input best then best.2
  else embedding.bind (reacquire input state sceneCut candidate)

/-- The body of the loop over the candidates. A region is recorded unless its box is too
small or it is weak evidence without a track under it. -/
def processCandidate (keyframe : Keyframe) (sceneCut : Bool) (predictedBoxes : List Rect)
    (state : TrackerState Kalman Embedding) (candidate : UnifiedCandidate) :
    TrackerState Kalman Embedding × Option (RegionEvent Kalman Embedding) :=
  if tooSmall input candidate.bbox then (state, none)
  else
    let overlap := bestScored 0 (overlapScore input state predictedBoxes sceneCut candidate)
      state.tracks.length
    let supported := overlap.2.isSome &&
      decide (input.options.weakDetectorContinuationIouThreshold ≤ overlap.1)
    if candidate.source == "objectness_detector" &&
        decide (candidate.confidence < input.options.detectorDiscoveryConfidenceThreshold) &&
        !supported then
      (state, none)
    else
      -- a cut leaves no spatial continuity
      let best : ℚ × Option Nat := if sceneCut then (0, none) else overlap
      let embedding := if needsEmbedding input state sceneCut candidate best then
          input.functions.visualEmbedding keyframe candidate.bbox
        else none
      let joined := joinedTrack input state sceneCut candidate best embedding
      (recordRegion input keyframe candidate embedding (!byOverlap input best) joined state,
        some ⟨keyframe, sceneCut, candidate, embedding, byOverlap input best, state, joined⟩)

/-- The loop over the candidates. -/
def processCandidates (keyframe : Keyframe) (sceneCut : Bool) (predictedBoxes : List Rect) :
    TrackerState Kalman Embedding → List UnifiedCandidate →
      TrackerState Kalman Embedding × List (RegionEvent Kalman Embedding)
  | state, [] => (state, [])
  | state, candidate :: rest =>
    let done := processCandidate input keyframe sceneCut predictedBoxes state candidate
    let later := processCandidates keyframe sceneCut predictedBoxes done.1 rest
    (later.1, done.2.toList ++ later.2)

/-! ## The run -/

/-- Tracks without a region on the keyframe are lost for one keyframe more. -/
def markLost (keyframe : Keyframe) (track : ActiveTrack Kalman Embedding) :
    ActiveTrack Kalman Embedding :=
  if track.lastFrameIdx < keyframe.frameIdx then
    { track with
      kalman := input.functions.markLost track.kalman
      lostCount := track.lostCount + 1 }
  else track

/-- What the loop over the candidates starts from: after a cut every track counts as
lost, and every filter has predicted. -/
def enterKeyframe (sceneCut : Bool) (track : ActiveTrack Kalman Embedding) :
    ActiveTrack Kalman Embedding :=
  { track with
    lostCount := if sceneCut then input.options.maxLostFrames + 1 else track.lostCount
    kalman := (input.functions.predict track.kalman).1 }

def enteredState (sceneCut : Bool) (state : TrackerState Kalman Embedding) :
    TrackerState Kalman Embedding :=
  { state with
    tracks := state.tracks.map (enterKeyframe input sceneCut)
    assigned := [] }

def leftState (keyframe : Keyframe) (state : TrackerState Kalman Embedding) :
    TrackerState Kalman Embedding :=
  { state with tracks := state.tracks.map (markLost input keyframe) }

/-- One pair of neighbouring keyframes. -/
def trackKeyframe (previous next : Keyframe) (state : TrackerState Kalman Embedding) :
    TrackerState Kalman Embedding × List (RegionEvent Kalman Embedding) :=
  if hasCandidates input next then
    let sceneCut := isolatedSceneCut input previous next
    let predictedBoxes := state.tracks.map fun track => (input.functions.predict track.kalman).2
    let done := processCandidates input next sceneCut predictedBoxes
      (enteredState input sceneCut state) (unifiedCandidates input next)
    (leftState input next done.1, done.2)
  else (leftState input next state, [])

/-- The regions of a run over the keyframes after `previous`. -/
def trackKeyframes : Keyframe → List Keyframe → TrackerState Kalman Embedding →
    List (RegionEvent Kalman Embedding)
  | _, [], _ => []
  | previous, next :: rest, state =>
    (trackKeyframe input previous next state).2 ++
      trackKeyframes next rest (trackKeyframe input previous next state).1

/-- The regions of a run. -/
def runVisualEntityTracker : List Keyframe → List (RegionEvent Kalman Embedding)
  | [] => []
  | first :: rest => trackKeyframes input first rest {}

end

end Svp.Vision

import Svp.Exec.Json
import Svp.Lib.Binary64
import Svp.Lib.OrderedMap

/-!
# Visual entities across decode windows

`VisualEntityWindowAssembler` takes the tracker's result of one window at a time. It
cuts the window's regions into fragments, gives each fragment a global entity (an
entity it overlaps or resembles, the entity of an earlier fragment of the window, or
a new one), rewrites the ids of the regions that pass, and sends them on once they
are old enough. `appendWindow` and `finish` follow the source; the similarity scores
are a parameter, `IdentityReconciliation`.
-/

namespace Svp.Vision

open Exec (Json)
open Lib (OrderedMap round64)

/-! ## Records -/

/-- A region of the tracker. `evidence` is what the assembler only copies and the
scores read: boxes, centroid, depth summary, confidence. -/
structure TrackedRegion (ε : Type) where
  regionId : String
  entityId : String
  trackId : String
  frameId : String
  timestampUs : Int
  screenAreaRatio : ℚ
  maskPixels : List UInt8
  maskWidth : Int
  maskHeight : Int
  embedding : List ℚ
  maskRef : String
  candidateSource : String
  detectorCategoryIndex : Int
  evidence : ε
deriving DecidableEq

structure MaskWriteEntry where
  maskId : String
  entityId : String
  trackId : String
  regionId : String
  frameId : String
  timestampUs : Int
  width : Int
  height : Int
  rleData : List UInt8
deriving DecidableEq

structure EntityRecord where
  entityId : String
  entityType : String
  firstSeenUs : Int
  lastSeenUs : Int
  trackIds : List String
  averageVisibility : ℚ
  averageScreenArea : ℚ
  processorId : String
  evidenceSources : List Json

structure TrackRecord where
  trackId : String
  entityId : String
  startUs : Int
  endUs : Int
  startFrameId : String
  endFrameId : String
  regionCount : Int
  reacquired : Bool
  confidence : ℚ
  processorId : String
  trackingMethod : String
  candidateSource : String
deriving DecidableEq

/-- What an `EntityTrackResult` says of how it was made. -/
structure Provenance where
  processorId : String := ""
  modelRefs : List String := []
  runtime : String := ""
  executionProvider : String := ""
  confidenceCalibrationStatus : String := ""
  limitationsNote : String := ""
  opencvVersion : String := ""
  parametersJson : Json := .null

/-- The similarity scores of `visual_entity_identity_reconciliation.cpp`. -/
structure IdentityReconciliation (ε : Type) where
  overlapScore : List (TrackedRegion ε) → List (TrackedRegion ε) → Int → ℚ
  supportedReacquisitionScore : List (TrackedRegion ε) → List (TrackedRegion ε) → ℚ
  motionGroupReacquisitionScore : List (TrackedRegion ε) → List (TrackedRegion ε) → ℚ

/-- `artifactSink` says whether there is a sink. -/
structure VisualEntityWindowAssemblerOptions where
  minimumOverlapIou : ℚ := 1 / 2
  maximumEntityAreaRatio : ℚ := round64 (95 / 100)
  minimumObservationCount : Nat := 3
  minimumReacquisitionSimilarity : ℚ := round64 (90 / 100)
  minimumReacquisitionEmbeddingObservations : Nat := 2
  minimumSupportedFragmentSimilarity : ℚ := round64 (85 / 100)
  minimumSupportedFragmentAreaSimilarity : ℚ := round64 (60 / 100)
  minimumSupportedFragmentGapUs : Int := 1000000
  maximumMotionGroupGapUs : Int := 1000000
  minimumMotionGroupEndpointIou : ℚ := 1 / 2
  handoffRetentionUs : Int := 1000000
  maximumIdentityEvidenceRegions : Nat := 16
  artifactSink : Bool := false
  retainArtifactsInMemory : Bool := false

def outsideRatio (ratio : ℚ) : Bool := decide (ratio ≤ 0) || decide (1 < ratio)

/-- The constructor's checks, in its order. -/
def VisualEntityWindowAssemblerOptions.check (options : VisualEntityWindowAssemblerOptions) :
    Except String Unit :=
  if outsideRatio options.minimumOverlapIou then .error "overlap IoU must be in (0, 1]"
  else if outsideRatio options.maximumEntityAreaRatio then
    .error "maximum entity area ratio must be in (0, 1]"
  else if options.minimumObservationCount < 2 then
    .error "persistent entities require at least two observations"
  else if outsideRatio options.minimumReacquisitionSimilarity then
    .error "reacquisition similarity must be in (0, 1]"
  else if options.minimumReacquisitionEmbeddingObservations < 2 then
    .error "reacquisition requires repeated appearance observations"
  else if outsideRatio options.minimumSupportedFragmentSimilarity ∨
      outsideRatio options.minimumSupportedFragmentAreaSimilarity ∨
      options.minimumSupportedFragmentGapUs < 0 ∨ options.maximumMotionGroupGapUs < 0 ∨
      outsideRatio options.minimumMotionGroupEndpointIou then
    .error "local fragment evidence thresholds must be in (0, 1]"
  else if options.handoffRetentionUs ≤ 0 then .error "handoff retention must be positive"
  else if options.maximumIdentityEvidenceRegions <
      options.minimumReacquisitionEmbeddingObservations then
    .error "identity evidence retention must satisfy reacquisition"
  else if !options.artifactSink && !options.retainArtifactsInMemory then
    .error "visual entity assembly requires a streaming artifact sink"
  else .ok ()

structure TrackState where
  trackId : String
  startUs : Int := 0
  endUs : Int := 0
  startFrameId : String := ""
  endFrameId : String := ""
  regionCount : Nat := 0
  reacquired : Bool := false
  candidateSources : Finset String := ∅

structure EntityState (ε : Type) where
  entityId : String
  trackIds : List String := []
  tracks : OrderedMap String TrackState := .empty
  regions : List (TrackedRegion ε) := []
  identityEvidence : List (TrackedRegion ε) := []
  observationCount : Nat := 0
  firstSeenUs : Int := 0
  lastSeenUs : Int := 0
  screenAreaSum : ℚ := 0
  candidateSources : Finset String := ∅

/-- The assembler. `sunk` is what `artifact_sink` was called with, call by call. -/
structure VisualEntityWindowAssembler (ε : Type) where
  options : VisualEntityWindowAssemblerOptions
  accepted : options.check = .ok ()
  entities : OrderedMap String (EntityState ε) := .empty
  sampledTimestampCount : Nat := 0
  latestSampledTimestampUs : Int := -1
  pendingMasks : OrderedMap String MaskWriteEntry := .empty
  sunk : List (List (TrackedRegion ε) × List MaskWriteEntry) := []
  collectedRegions : List (TrackedRegion ε) := []
  collectedMasks : List MaskWriteEntry := []
  provenance : Provenance := {}
  nextEntityIndex : Nat := 1
  nextTrackIndex : Nat := 1
  nextRegionIndex : Nat := 1

/-- The arguments of one call of `append_window`. -/
structure WindowCall (ε : Type) where
  regions : List (TrackedRegion ε)
  provenance : Provenance
  sampledTimestampsUs : List Int
  overlapStartUs : Int
  emitAfterUs : Int
  discontinuityTimestampsUs : List Int

structure AssembledVisualEntityResult (ε : Type) where
  regions : List (TrackedRegion ε)
  entities : List EntityRecord
  tracks : List TrackRecord
  provenance : Provenance
  masks : List MaskWriteEntry

/-! ## Identifiers and masks -/

/-- Padded with zeros to six digits. -/
def numberedId (start : String) (index : Nat) : String :=
  let digits := Nat.toDigits 10 index
  start ++ String.ofList (List.replicate (6 - digits.length) '0' ++ digits)

theorem numberedId_injective {start : String} {i j : Nat}
    (same : numberedId start i = numberedId start j) : i = j := by
  have chars := congrArg String.toList same
  simp only [numberedId, String.toList_append, String.toList_ofList] at chars
  have digits := List.append_cancel_left chars
  have value := congrArg (fun l => Nat.ofDigitChars 10 l 0) digits
  simpa [Nat.ofDigitChars_append, Nat.ofDigitChars_replicate_zero,
    Nat.ofDigitChars_ten_toDigits] using value

theorem numberedId_ne_empty {start : String} (named : start ≠ "") (i : Nat) :
    numberedId start i ≠ "" := by
  intro empty
  exact named (String.append_eq_empty_iff.mp empty).1

/-- Unsigned LEB128, of at most `rounds + 1` bytes. -/
def writeLeb128 : Nat → Nat → List UInt8
  | 0, value => [UInt8.ofNat value]
  | rounds + 1, value =>
    if value / 128 = 0 then [UInt8.ofNat value]
    else UInt8.ofNat (value % 128 + 128) :: writeLeb128 rounds (value / 128)

/-- Runs of equal pixels; the first run is background. -/
def maskRuns : List UInt8 → UInt8 → Nat → List UInt8
  | [], _, runLength => writeLeb128 64 runLength
  | pixel :: rest, currentVal, runLength =>
    if pixel = currentVal then maskRuns rest currentVal (runLength + 1)
    else writeLeb128 64 runLength ++ maskRuns rest (1 - currentVal) 1

def encodeMaskRle (maskPixels : List UInt8) (width height : Int) : List UInt8 :=
  if width ≤ 0 ∨ height ≤ 0 then []
  else maskRuns (maskPixels.take (width * height).toNat) 0 0

example : encodeMaskRle [1, 1, 0, 1] 2 2 = [0, 2, 1, 1] := by decide

def combinedCandidateSource (sources : Finset String) : String :=
  if "motion_group" ∈ sources then "motion_group"
  else if "fused_motion_depth" ∈ sources ∨ ("motion" ∈ sources ∧ "depth" ∈ sources) then
    "fused_motion_depth"
  else (sources.min : WithTop String).untopD "motion"

/-! ## Appending a fragment to an entity -/

section Program

variable {ε : Type}

def frontUs : List (TrackedRegion ε) → Int
  | [] => 0
  | region :: _ => region.timestampUs

def backUs (regions : List (TrackedRegion ε)) : Int :=
  (regions.getLast?.map TrackedRegion.timestampUs).getD 0

/-- The regions `append_window` keeps: those after `emit_after_us`, but not those that
cover the raster unless they are a motion group. -/
def passes (options : VisualEntityWindowAssemblerOptions) (emitAfterUs : Int)
    (region : TrackedRegion ε) : Bool :=
  decide (emitAfterUs < region.timestampUs) &&
    !(decide (options.maximumEntityAreaRatio ≤ region.screenAreaRatio) &&
      region.candidateSource != "motion_group")

/-- The ids the assembler writes into a region. -/
def TrackedRegion.stamp (region : TrackedRegion ε) (entityId trackId : String) (index : Nat) :
    TrackedRegion ε :=
  { region with
    entityId := entityId
    trackId := trackId
    regionId := numberedId "region_" index
    maskRef := "mask_" ++ numberedId "region_" index }

def TrackState.observe (track : TrackState) (region : TrackedRegion ε) : TrackState :=
  { track with
    startUs := if track.regionCount = 0 then region.timestampUs else track.startUs
    startFrameId := if track.regionCount = 0 then region.frameId else track.startFrameId
    endUs := region.timestampUs
    endFrameId := region.frameId
    regionCount := track.regionCount + 1
    candidateSources := insert region.candidateSource track.candidateSources }

/-- `state.tracks.at(region.track_id)` with the region counted. -/
def observeTrack (tracks : OrderedMap String TrackState) (region : TrackedRegion ε) :
    OrderedMap String TrackState :=
  match tracks.find? region.trackId with
  | none => tracks
  | some track => tracks.insert region.trackId (track.observe region)

def EntityState.observe (state : EntityState ε) (region : TrackedRegion ε) : EntityState ε :=
  { state with
    firstSeenUs := if state.observationCount = 0 then region.timestampUs else state.firstSeenUs
    lastSeenUs := region.timestampUs
    observationCount := state.observationCount + 1
    screenAreaSum := round64 (state.screenAreaSum + region.screenAreaRatio)
    candidateSources := insert region.candidateSource state.candidateSources
    tracks := observeTrack state.tracks region }

def rememberIdentityEvidence (options : VisualEntityWindowAssemblerOptions)
    (state : EntityState ε) (region : TrackedRegion ε) : EntityState ε :=
  if (region.detectorCategoryIndex < 0 ∨ region.embedding = []) ∧
      region.candidateSource ≠ "motion_group" then state
  else
    let remembered := state.identityEvidence ++ [{ region with maskPixels := [] }]
    { state with
      identityEvidence :=
        if options.maximumIdentityEvidenceRegions < remembered.length then remembered.tail
        else remembered }

def TrackedRegion.hasMask (region : TrackedRegion ε) : Bool :=
  !region.maskPixels.isEmpty && decide (0 < region.maskWidth) && decide (0 < region.maskHeight)

def TrackedRegion.maskEntry (region : TrackedRegion ε) : MaskWriteEntry where
  maskId := region.maskRef
  entityId := region.entityId
  trackId := region.trackId
  regionId := region.regionId
  frameId := region.frameId
  timestampUs := region.timestampUs
  width := region.maskWidth
  height := region.maskHeight
  rleData := encodeMaskRle region.maskPixels region.maskWidth region.maskHeight

/-- The region as it is stored once its mask is pending. -/
def TrackedRegion.withoutMask (region : TrackedRegion ε) : TrackedRegion ε :=
  if region.hasMask then { region with maskPixels := [] } else region

/-- The loop over a fragment's regions: the entity, the track once it is known, the
counters and the pending masks. -/
structure FragmentAppend (ε : Type) where
  state : EntityState ε
  outputTrackId : String
  nextTrackIndex : Nat
  nextRegionIndex : Nat
  pendingMasks : OrderedMap String MaskWriteEntry

def FragmentAppend.newTrack (f : FragmentAppend ε) : FragmentAppend ε :=
  let trackId := numberedId "track_" f.nextTrackIndex
  { f with
    outputTrackId := trackId
    nextTrackIndex := f.nextTrackIndex + 1
    state := { f.state with
      trackIds := f.state.trackIds ++ [trackId]
      tracks := f.state.tracks.emplace trackId
        { trackId := trackId, reacquired := decide (1 < f.state.trackIds.length + 1) } } }

/-- The entity's last track, or a new one. -/
def FragmentAppend.openTrack (f : FragmentAppend ε) (continuesTrack : Bool) : FragmentAppend ε :=
  match f.state.trackIds.getLast? with
  | some trackId => if continuesTrack then { f with outputTrackId := trackId } else f.newTrack
  | none => f.newTrack

def FragmentAppend.record (options : VisualEntityWindowAssemblerOptions) (f : FragmentAppend ε)
    (region : TrackedRegion ε) : FragmentAppend ε :=
  let stamped := region.stamp f.state.entityId f.outputTrackId f.nextRegionIndex
  let observed := f.state.observe stamped
  let remembered := rememberIdentityEvidence options observed stamped.withoutMask
  { f with
    state := { remembered with regions := remembered.regions ++ [stamped.withoutMask] }
    nextRegionIndex := f.nextRegionIndex + 1
    pendingMasks :=
      if stamped.hasMask then f.pendingMasks.emplace stamped.maskRef stamped.maskEntry
      else f.pendingMasks }

def appendRegion (options : VisualEntityWindowAssemblerOptions) (emitAfterUs : Int)
    (continuesTrack : Bool) (f : FragmentAppend ε) (region : TrackedRegion ε) : FragmentAppend ε :=
  if passes options emitAfterUs region then
    let opened := if f.outputTrackId = "" then f.openTrack continuesTrack else f
    opened.record options region
  else f

/-! ## Fragments of a window -/

/-- `upper_bound`: how many of the discontinuities are at or before the region. -/
def segment (discontinuityTimestampsUs : List Int) (timestampUs : Int) : Nat :=
  (discontinuityTimestampsUs.takeWhile fun t => decide (t ≤ timestampUs)).length

def localSegmentId (discontinuityTimestampsUs : List Int) (region : TrackedRegion ε) : String :=
  region.entityId ++ "#segment_" ++
    toString (segment discontinuityTimestampsUs region.timestampUs)

/-- The regions of each fragment, in the window's order. -/
def localRegions (call : WindowCall ε) : OrderedMap String (List (TrackedRegion ε)) :=
  call.regions.foldl
    (fun fragments region =>
      fragments.push (localSegmentId call.discontinuityTimestampsUs region) region) .empty

/-- By first timestamp, then by id: the order of `chronological_local_ids` and of
`local_order`. -/
def localOrder (fragments : OrderedMap String (List (TrackedRegion ε))) :
    List (String × List (TrackedRegion ε)) :=
  fragments.entries.insertionSort fun left right =>
    if frontUs left.2 ≠ frontUs right.2 then frontUs left.2 < frontUs right.2
    else left.1 ≤ right.1

/-- The evidence and the regions still held, by time, each region once. -/
def reconciliationRegions (state : EntityState ε) : List (TrackedRegion ε) :=
  dropRepeats ((state.identityEvidence ++ state.regions).insertionSort fun left right =>
    if left.timestampUs ≠ right.timestampUs then left.timestampUs < right.timestampUs
    else left.regionId ≤ right.regionId)
where
  /-- `std::unique` by `region_id`. -/
  dropRepeats (regions : List (TrackedRegion ε)) : List (TrackedRegion ε) :=
    regions.foldl
      (fun kept region =>
        if kept.getLast?.map TrackedRegion.regionId = some region.regionId then kept
        else kept ++ [region]) []

variable (scores : IdentityReconciliation ε)

/-- The better of the appearance score and one more than the motion-group score. -/
def fragmentScore (options : VisualEntityWindowAssemblerOptions)
    (prior current : List (TrackedRegion ε)) : ℚ :=
  let appearance := scores.supportedReacquisitionScore prior current
  let group := scores.motionGroupReacquisitionScore prior current
  max appearance
    (if options.minimumMotionGroupEndpointIou ≤ group then round64 (1 + group) else -1)

/-- One round of the search for the best score, ties to the smaller id. -/
def betterMatch (options : VisualEntityWindowAssemblerOptions) (best : String × ℚ) (id : String)
    (score : ℚ) : String × ℚ :=
  if options.minimumSupportedFragmentSimilarity ≤ score ∧
      (best.2 < score ∨ (score = best.2 ∧ id < best.1)) then (id, score)
  else best

/-- The earlier fragment a fragment most resembles, `""` where there is none. -/
def bestPriorId (options : VisualEntityWindowAssemblerOptions)
    (priors : List (String × List (TrackedRegion ε))) (current : List (TrackedRegion ε)) : String :=
  (priors.foldl
    (fun best prior =>
      if prior.2 = [] ∨ frontUs current ≤ backUs prior.2 then best
      else betterMatch options best prior.1 (fragmentScore scores options prior.2 current))
    ("", -1)).1

/-- `local_identity_parent`: for a fragment that resembles an earlier one, the first
fragment of that chain. -/
def localIdentityParents (options : VisualEntityWindowAssemblerOptions) :
    List (String × List (TrackedRegion ε)) → List (String × List (TrackedRegion ε)) →
      OrderedMap String String → OrderedMap String String
  | _, [], parents => parents
  | priors, current :: rest, parents =>
    let prior := bestPriorId scores options priors current.2
    localIdentityParents options (priors ++ [current]) rest
      (if current.2 = [] ∨ prior = "" then parents
       else parents.insert current.1 ((parents.find? prior).getD prior))

structure CandidateMatch where
  localId : String
  globalId : String
  score : ℚ
  continuesTrack : Bool

/-- The candidate that pairs a fragment with an entity. -/
def candidateMatch (options : VisualEntityWindowAssemblerOptions) (overlapStartUs : Int)
    (fragment : String × List (TrackedRegion ε)) (entity : String × EntityState ε) :
    Option CandidateMatch :=
  let spatialScore := scores.overlapScore entity.2.regions fragment.2 overlapStartUs
  if options.minimumOverlapIou ≤ spatialScore then
    some ⟨fragment.1, entity.1, round64 (2 + spatialScore), true⟩
  else if 0 < entity.2.observationCount ∧ fragment.2 ≠ [] ∧
      entity.2.lastSeenUs < frontUs fragment.2 then
    let prior := reconciliationRegions entity.2
    let visualScore := scores.supportedReacquisitionScore prior fragment.2
    let groupScore := scores.motionGroupReacquisitionScore prior fragment.2
    if options.minimumSupportedFragmentSimilarity ≤ visualScore then
      some ⟨fragment.1, entity.1, visualScore, false⟩
    else if options.minimumMotionGroupEndpointIou ≤ groupScore then
      some ⟨fragment.1, entity.1, round64 (1 + groupScore), false⟩
    else none
  else none

/-- Every pair worth a match, the best score first. -/
def candidates (options : VisualEntityWindowAssemblerOptions) (overlapStartUs : Int)
    (fragments : OrderedMap String (List (TrackedRegion ε)))
    (entities : OrderedMap String (EntityState ε)) : List CandidateMatch :=
  (fragments.entries.flatMap fun fragment => entities.entries.filterMap
    (candidateMatch scores options overlapStartUs fragment)).insertionSort fun left right =>
      if left.score ≠ right.score then right.score < left.score
      else if left.localId ≠ right.localId then left.localId < right.localId
      else left.globalId ≤ right.globalId

/-- The window's maps while its fragments are appended. -/
structure Handoff (ε : Type) where
  assembler : VisualEntityWindowAssembler ε
  localToGlobal : OrderedMap String String
  localContinuesTrack : OrderedMap String Bool

/-- The greedy choice among the candidates: each fragment and each entity once. -/
def assignCandidates (candidates : List CandidateMatch) :
    OrderedMap String String × OrderedMap String Bool × Finset String :=
  candidates.foldl
    (fun maps candidate =>
      if maps.1.contains candidate.localId ∨ candidate.globalId ∈ maps.2.2 then maps
      else
        (maps.1.insert candidate.localId candidate.globalId,
          maps.2.1.insert candidate.localId candidate.continuesTrack,
          insert candidate.globalId maps.2.2))
    (.empty, .empty, ∅)

/-- The entity, seen before the fragment begins, that it most resembles. -/
def reacquiredEntityId (options : VisualEntityWindowAssemblerOptions)
    (entities : OrderedMap String (EntityState ε)) (regions : List (TrackedRegion ε)) : String :=
  (entities.entries.foldl
    (fun best existing =>
      if existing.2.observationCount = 0 ∨ frontUs regions ≤ existing.2.lastSeenUs then best
      else betterMatch options best existing.1
        (fragmentScore scores options (reconciliationRegions existing.2) regions))
    ("", -1)).1

/-- The entity a fragment goes to, `""` for a new one, and whether it continues the
entity's track. -/
def Handoff.globalIdOf (h : Handoff ε) (parents : OrderedMap String String)
    (fragment : String × List (TrackedRegion ε)) : String × Bool :=
  match h.localToGlobal.find? fragment.1 with
  | some globalId => (globalId, (h.localContinuesTrack.find? fragment.1).getD false)
  | none =>
    let inherited := ((parents.find? fragment.1).bind h.localToGlobal.find?).getD ""
    if inherited = "" then
      (reacquiredEntityId scores h.assembler.options h.assembler.entities fragment.2, false)
    else (inherited, false)

def VisualEntityWindowAssembler.newEntity (a : VisualEntityWindowAssembler ε) :
    VisualEntityWindowAssembler ε × String :=
  let globalId := numberedId "entity_" a.nextEntityIndex
  ({ a with
      entities := a.entities.emplace globalId { entityId := globalId }
      nextEntityIndex := a.nextEntityIndex + 1 }, globalId)

/-- The fragment's regions appended to the entity `globalId`. -/
def VisualEntityWindowAssembler.appendRegions (a : VisualEntityWindowAssembler ε)
    (globalId : String) (continuesTrack : Bool) (emitAfterUs : Int)
    (regions : List (TrackedRegion ε)) : VisualEntityWindowAssembler ε :=
  match a.entities.find? globalId with
  | none => a
  | some state =>
    let appended := regions.foldl (appendRegion a.options emitAfterUs continuesTrack)
      ⟨state, "", a.nextTrackIndex, a.nextRegionIndex, a.pendingMasks⟩
    { a with
      entities := a.entities.insert globalId appended.state
      nextTrackIndex := appended.nextTrackIndex
      nextRegionIndex := appended.nextRegionIndex
      pendingMasks := appended.pendingMasks }

def Handoff.appendFragment (emitAfterUs : Int) (parents : OrderedMap String String)
    (h : Handoff ε) (fragment : String × List (TrackedRegion ε)) : Handoff ε :=
  let chosen := h.globalIdOf scores parents fragment
  let target :=
    if chosen.1 = "" then h.assembler.newEntity else (h.assembler, chosen.1)
  { assembler := target.1.appendRegions target.2 chosen.2 emitAfterUs fragment.2
    localToGlobal := h.localToGlobal.insert fragment.1 target.2
    localContinuesTrack := h.localContinuesTrack.insert fragment.1 chosen.2 }

/-! ## Windows -/

/-- A region that leaves takes its pending mask along. -/
def takeMask (taken : List MaskWriteEntry × OrderedMap String MaskWriteEntry)
    (region : TrackedRegion ε) : List MaskWriteEntry × OrderedMap String MaskWriteEntry :=
  match taken.2.find? region.maskRef with
  | none => taken
  | some mask => (taken.1 ++ [mask], taken.2.erase region.maskRef)

/-- The regions before `timestampUs` leave their entities, with their masks. -/
def VisualEntityWindowAssembler.emitFinalizedBefore (a : VisualEntityWindowAssembler ε)
    (timestampUs : Int) : VisualEntityWindowAssembler ε :=
  let regions := a.entities.values.flatMap fun state =>
    state.regions.filter fun region => !decide (timestampUs ≤ region.timestampUs)
  let masks := regions.foldl takeMask ([], a.pendingMasks)
  let kept := { a with
    entities := a.entities.map fun _ state =>
      { state with
        regions := state.regions.filter fun region => decide (timestampUs ≤ region.timestampUs) }
    pendingMasks := masks.2 }
  if regions = [] ∧ masks.1 = [] then kept
  else
    { kept with
      sunk := if a.options.artifactSink then a.sunk ++ [(regions, masks.1)] else a.sunk
      collectedRegions :=
        if a.options.retainArtifactsInMemory then a.collectedRegions ++ regions
        else a.collectedRegions
      collectedMasks :=
        if a.options.retainArtifactsInMemory then a.collectedMasks ++ masks.1
        else a.collectedMasks }

/-- Timestamps later than all before them are counted. -/
def countSampled (sampled : Nat × Int) (timestampUs : Int) : Nat × Int :=
  if sampled.2 < timestampUs then (sampled.1 + 1, timestampUs) else sampled

/-- The state in which a window's first fragment is appended. -/
def VisualEntityWindowAssembler.beginWindow (a : VisualEntityWindowAssembler ε)
    (call : WindowCall ε) : Handoff ε :=
  let sampled := call.sampledTimestampsUs.foldl countSampled
    (a.sampledTimestampCount, a.latestSampledTimestampUs)
  let assigned := assignCandidates
    (candidates scores a.options call.overlapStartUs (localRegions call) a.entities)
  { assembler := { a with
      sampledTimestampCount := sampled.1
      latestSampledTimestampUs := sampled.2
      provenance := if a.provenance.processorId = "" then call.provenance else a.provenance }
    localToGlobal := assigned.1
    localContinuesTrack := assigned.2.1 }

/-- How a window's fragments are appended. -/
def windowStep (options : VisualEntityWindowAssemblerOptions) (call : WindowCall ε) :
    Handoff ε → String × List (TrackedRegion ε) → Handoff ε :=
  Handoff.appendFragment scores call.emitAfterUs
    (localIdentityParents scores options [] (localOrder (localRegions call)) .empty)

def VisualEntityWindowAssembler.appendWindow (a : VisualEntityWindowAssembler ε)
    (call : WindowCall ε) : VisualEntityWindowAssembler ε :=
  let appended := ((localOrder (localRegions call)).foldl (windowStep scores a.options call)
    (a.beginWindow scores call)).assembler
  match call.sampledTimestampsUs.getLast? with
  | none => appended
  | some last => appended.emitFinalizedBefore (last - a.options.handoffRetentionUs)

/-! ## Results -/

/-- `std::numeric_limits<std::int64_t>::max()`. -/
def maxTimestampUs : Int := 2 ^ 63 - 1

def EntityState.record (state : EntityState ε) (processorId : String) (sampled : Nat) :
    EntityRecord where
  entityId := state.entityId
  entityType := "visual_entity"
  firstSeenUs := state.firstSeenUs
  lastSeenUs := state.lastSeenUs
  trackIds := state.trackIds
  averageVisibility := if sampled = 0 then 0 else round64 (state.observationCount / sampled)
  averageScreenArea := round64 (state.screenAreaSum / state.observationCount)
  processorId := processorId
  evidenceSources :=
    [.object [("method", .string "windowed_optical_flow_kalman"),
      ("region_count", .integer state.observationCount), ("type", .string "visual_tracking")]]

/-- `region_count` is an `int`: the count modulo `2 ^ 32`. -/
def TrackState.record (track : TrackState) (trackId entityId processorId : String)
    (sampled : Nat) : TrackRecord where
  trackId := trackId
  entityId := entityId
  startUs := track.startUs
  endUs := track.endUs
  startFrameId := track.startFrameId
  endFrameId := track.endFrameId
  regionCount := (track.regionCount : Int).bmod (2 ^ 32)
  reacquired := track.reacquired
  confidence := min 1 (if sampled = 0 then 0 else round64 (track.regionCount / sampled))
  processorId := processorId
  trackingMethod := "windowed_optical_flow_kalman"
  candidateSource := combinedCandidateSource track.candidateSources

def VisualEntityWindowAssembler.retained (a : VisualEntityWindowAssembler ε) :
    OrderedMap String (EntityState ε) :=
  a.entities.filter fun _ state => decide (a.options.minimumObservationCount ≤ state.observationCount)

/-- The result of an assembler that has emitted everything. -/
def VisualEntityWindowAssembler.result (a : VisualEntityWindowAssembler ε) :
    AssembledVisualEntityResult ε :=
  let processorId := a.provenance.processorId
  { regions :=
      if a.options.retainArtifactsInMemory then
        a.collectedRegions.filter fun region => a.retained.contains region.entityId
      else []
    entities := a.retained.values.map fun state =>
      state.record processorId a.sampledTimestampCount
    tracks := a.retained.values.flatMap fun state => state.trackIds.filterMap fun trackId =>
      (state.tracks.find? trackId).map fun track =>
        track.record trackId state.entityId processorId a.sampledTimestampCount
    provenance := a.provenance
    masks :=
      if a.options.retainArtifactsInMemory then
        a.collectedMasks.filter fun mask => a.retained.contains mask.entityId
      else [] }

/-- `finish` emits what is left; its result is `result` of the assembler it leaves. -/
def VisualEntityWindowAssembler.finish (a : VisualEntityWindowAssembler ε) :
    VisualEntityWindowAssembler ε :=
  a.emitFinalizedBefore maxTimestampUs

end Program

/-! ## The fold over a plan's windows -/

structure VisualEntitySamplingWindow where
  startUs : Int
  endUs : Int
  timestampsUs : List Int

/-- What a tracked window hands to the fold; `none` for a window that failed. -/
structure TrackedWindow (ε : Type) where
  regions : List (TrackedRegion ε)
  provenance : Provenance
  cutTimestampsUs : List Int

/-- The calls of `append_window` that `VisualEntityWindowFold::append` makes, from the
end of the last window that was tracked. -/
def foldedCalls {ε : Type} :
    Int → List (VisualEntitySamplingWindow × Option (TrackedWindow ε)) → List (WindowCall ε)
  | _, [] => []
  | previousWindowEndUs, (_, none) :: rest => foldedCalls previousWindowEndUs rest
  | previousWindowEndUs, (window, some tracked) :: rest =>
    { regions := tracked.regions
      provenance := tracked.provenance
      sampledTimestampsUs := window.timestampsUs
      overlapStartUs := window.startUs
      emitAfterUs := previousWindowEndUs
      discontinuityTimestampsUs := tracked.cutTimestampsUs } :: foldedCalls window.endUs rest

end Svp.Vision

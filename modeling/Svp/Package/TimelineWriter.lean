import Svp.Lib.CutPoints
import Svp.Lib.OrderedMap

/-!
# Timeline artifacts

`writeTimelineArtifacts` turns the sampled frames and their grouping into the records of
`shots.jsonl`, `scenes.jsonl` and `frames.jsonl`. `placeInShots` is the other reader of the
shots: the relationship writer places a region by the interval its `pts_us` lies in.
Timestamps are 64-bit signed microseconds, read as integers.
-/

namespace Svp.Package

open Lib (OrderedMap Spaced)

/-! ## Sampled input -/

structure ColorRasterFrame where
  frameId : String
  timestampUs : Int
deriving DecidableEq

structure ColorTimelineRange where
  targetId : String
  startUs : Int
  endUs : Int
  frameIds : List String
deriving DecidableEq

structure ColorFrameSamplingInput where
  frames : List ColorRasterFrame
  scenes : List ColorTimelineRange
  shots : List ColorTimelineRange

/-! ## Shot boundaries -/

/-- The media duration, or what stands in for it when the plan has none. -/
def timelineDurationUs (mediaDurationUs : Int) (frames : List ColorRasterFrame) : Int :=
  if mediaDurationUs ≤ 0 then
    match frames.getLast? with
    | some last => if last.timestampUs = 0 then 1000000 else last.timestampUs
    | none => 1000000
  else mediaDurationUs

def frameTsMap (frames : List ColorRasterFrame) : OrderedMap String Int :=
  frames.foldl (fun map frame => map.insert frame.frameId frame.timestampUs) .empty

/-- One frame of a shot; -1 stands for no timestamp yet. -/
def widenRange (tsMap : OrderedMap String Int) (range : Int × Int) (frameId : String) : Int × Int :=
  match tsMap.find? frameId with
  | some ts =>
    (if range.1 = -1 ∨ ts < range.1 then ts else range.1,
      if range.2 = -1 ∨ range.2 < ts then ts else range.2)
  | none => range

/-- The first and the last timestamp of a shot's frames. -/
def getShotTimestamps (tsMap : OrderedMap String Int) (shot : ColorTimelineRange) : Int × Int :=
  let range := shot.frameIds.foldl (widenRange tsMap) (-1, -1)
  if range.1 = -1 then (shot.startUs, shot.endUs) else range

/-- A signed 64-bit sum; none where it overflows, which the language leaves undefined. -/
def addTimestamps (left right : Int) : Option Int :=
  if -2 ^ 63 ≤ left + right ∧ left + right < 2 ^ 63 then some (left + right) else none

/-- Between two shots, half way from the last frame of one to the first of the next. -/
def midpoints (tsMap : OrderedMap String Int) : List ColorTimelineRange → Option (List Int)
  | prev :: curr :: rest => do
    let sum ← addTimestamps (getShotTimestamps tsMap prev).2 (getShotTimestamps tsMap curr).1
    let later ← midpoints tsMap (curr :: rest)
    return sum.tdiv 2 :: later
  | _ => some []

/-- The forward pass raises the boundaries; where the last one ends up behind the duration
it is put back, and the backward pass lowers the others. -/
def enforceMonotonicity (durationUs delta : Int) (boundaries : List Int) : List Int :=
  let raised := 0 :: Lib.raise delta 0 boundaries
  if durationUs < raised.getLastD 0 then Lib.lower delta durationUs raised.dropLast else raised

/-- A microsecond for each shot where there are enough of them. -/
def shotDelta (durationUs : Int) (numShots : Nat) : Int := if numShots ≤ durationUs then 1 else 0

/-- `B`: shot `i` is from `B[i]` to `B[i + 1]`. -/
def shotBoundaries (durationUs : Int) (tsMap : OrderedMap String Int)
    (shots : List ColorTimelineRange) : Option (List Int) := do
  let cuts ← midpoints tsMap shots
  return enforceMonotonicity durationUs (shotDelta durationUs shots.length) (cuts ++ [durationUs])

/-! ## Records -/

/-- A record of `shots.jsonl`, less its constant fields. -/
structure ShotRecord where
  id : String
  startUs : Int
  endUs : Int
  startFrameId : String
  endFrameId : String
  cutTypeIn : String
  cutTypeOut : String
deriving DecidableEq

def shotRecord (numShots index : Nat) (shot : ColorTimelineRange) (startUs endUs : Int) :
    ShotRecord where
  id := shot.targetId
  startUs := startUs
  endUs := endUs
  startFrameId := shot.frameIds.head?.getD ""
  endFrameId := shot.frameIds.getLast?.getD ""
  cutTypeIn := if index = 0 then "source_start" else "hard_cut"
  cutTypeOut := if index + 1 = numShots then "source_end" else "hard_cut"

def shotRecords (shots : List ColorTimelineRange) (boundaries : List Int) : List ShotRecord :=
  (shots.zip (Lib.spans boundaries)).mapIdx fun index placed =>
    shotRecord shots.length index placed.1 placed.2.1 placed.2.2

/-- A record of `scenes.jsonl`, less its constant fields. -/
structure SceneRecord where
  id : String
  startUs : Int
  endUs : Int
  shotIds : List String
deriving DecidableEq

def overlaps (scene shot : ColorTimelineRange) : Bool :=
  shot.frameIds.any fun frameId => scene.frameIds.contains frameId

/-- From the start of the first shot that shares a frame with the scene to the end of the
last one. -/
def sceneRecord (shots : List ColorTimelineRange) (records : List ShotRecord)
    (scene : ColorTimelineRange) : SceneRecord :=
  let overlapping := (shots.zip records).filter fun placed => overlaps scene placed.1
  { id := scene.targetId
    startUs := (overlapping.head?.map (·.2.startUs)).getD scene.startUs
    endUs := (overlapping.getLast?.map (·.2.endUs)).getD scene.endUs
    shotIds := overlapping.map (·.1.targetId) }

/-- A record of `frames.jsonl`, less the raster fields. -/
structure FrameRecord where
  id : String
  frameIndex : Nat
  ptsUs : Int
  shotId : Option String
  sceneId : Option String
deriving DecidableEq

/-- The id of the first range that lists the frame; an empty id is not written. -/
def memberOf (ranges : List ColorTimelineRange) (frameId : String) : Option String :=
  ((ranges.find? fun range => range.frameIds.contains frameId).map (·.targetId)).filter (· ≠ "")

def frameRecord (sampling : ColorFrameSamplingInput) (index : Nat) (frame : ColorRasterFrame) :
    FrameRecord where
  id := frame.frameId
  frameIndex := index
  ptsUs := frame.timestampUs
  shotId := memberOf sampling.shots frame.frameId
  sceneId := memberOf sampling.scenes frame.frameId

structure TimelineArtifacts where
  shots : List ShotRecord
  scenes : List SceneRecord
  frames : List FrameRecord
deriving DecidableEq

def timelineArtifacts (sampling : ColorFrameSamplingInput) (boundaries : List Int) :
    TimelineArtifacts :=
  let shots := shotRecords sampling.shots boundaries
  { shots
    scenes := sampling.scenes.map (sceneRecord sampling.shots shots)
    frames := sampling.frames.mapIdx (frameRecord sampling) }

@[simp] theorem shots_timelineArtifacts (sampling : ColorFrameSamplingInput)
    (boundaries : List Int) :
    (timelineArtifacts sampling boundaries).shots = shotRecords sampling.shots boundaries := rfl

def writeTimelineArtifacts (mediaDurationUs : Int) (sampling : ColorFrameSamplingInput) :
    Option TimelineArtifacts :=
  let durationUs := timelineDurationUs mediaDurationUs sampling.frames
  (shotBoundaries durationUs (frameTsMap sampling.frames) sampling.shots).map
    (timelineArtifacts sampling)

theorem frames_writeTimelineArtifacts {mediaDurationUs : Int} {sampling : ColorFrameSamplingInput}
    {timeline : TimelineArtifacts}
    (written : writeTimelineArtifacts mediaDurationUs sampling = some timeline) :
    timeline.frames = sampling.frames.mapIdx (frameRecord sampling) := by
  obtain ⟨boundaries, -, rfl⟩ := Option.map_eq_some_iff.mp written
  rfl

/-! ## Placement by interval -/

structure IntervalRecord where
  id : String
  startUs : Int
  endUs : Int
deriving DecidableEq

def readShotsAsIntervals (shots : List ShotRecord) : List IntervalRecord :=
  (shots.map fun shot => ⟨shot.id, shot.startUs, shot.endUs⟩).filter fun interval =>
    interval.id ≠ "" ∧ interval.startUs < interval.endUs

/-- The shots that `build_entity_shot_scene_relationships` relates a region to. -/
def placeInShots (shots : List ShotRecord) (ptsUs : Int) : List String :=
  ((readShotsAsIntervals shots).filter fun shot =>
    shot.startUs ≤ ptsUs ∧ ptsUs < shot.endUs).map (·.id)

/-! ## The shots tile the media -/

/-- What the two passes leave behind: the boundaries go from 0 to the duration. -/
structure Settled (durationUs delta : Int) (boundaries : List Int) : Prop where
  spaced : Spaced delta boundaries
  starts : boundaries.head? = some 0
  ends : boundaries.getLast? = some durationUs

@[simp] theorem length_enforceMonotonicity (durationUs delta : Int) (boundaries : List Int) :
    (enforceMonotonicity durationUs delta boundaries).length = boundaries.length + 1 := by
  rw [enforceMonotonicity]
  split_ifs with behind
  · rw [Lib.length_lower, List.length_dropLast, List.length_cons, Lib.length_raise]
    rfl
  · rw [List.length_cons, Lib.length_raise]

theorem settled_enforceMonotonicity {durationUs delta : Int} (cuts : List Int)
    (room : (cuts.length + 1) • delta ≤ durationUs) :
    Settled durationUs delta (enforceMonotonicity durationUs delta (cuts ++ [durationUs])) := by
  have spaced := Lib.spaced_raise delta 0 (cuts ++ [durationUs])
  have reached := Lib.getLast_raise delta 0 cuts durationUs
  rw [enforceMonotonicity]
  generalize raised : Lib.raise delta 0 (cuts ++ [durationUs]) = later at spaced reached ⊢
  rw [List.getLast_eq_getLastD, ← List.getLastD_cons] at reached
  have length : later.length = cuts.length + 1 := by
    rw [← raised, Lib.length_raise, List.length_append, List.length_singleton]
  split_ifs with behind
  · -- the first boundary is kept: there is room for all of them before the duration
    obtain ⟨front, split⟩ : ∃ front, (0 :: later).dropLast = 0 :: front := by
      cases later with
      | nil => cases length
      | cons next rest => exact ⟨_, rfl⟩
    have size : front.length = cuts.length := by
      have both := congrArg List.length split
      rw [List.length_dropLast, List.length_cons, List.length_cons, length] at both
      exact (Nat.succ.inj both).symm
    have kept : (0 : Int) ≤ Lib.lowerHead delta durationUs (0 :: front) := by
      refine Lib.le_lowerHead ?_ (fun point mem => (Option.some.inj mem).le) ?_
      · rw [← split]
        exact List.IsChain.prefix spaced (List.dropLast_prefix _)
      · rw [zero_add, List.length_cons, size]
        exact room
    rw [split]
    refine ⟨Lib.spaced_lower _ _ _, ?_, Lib.getLast?_lower _ _ _⟩
    exact congrArg some (le_antisymm (min_le_left _ _) kept)
  · refine ⟨spaced, rfl, ?_⟩
    rw [List.getLast?_eq_some_getLast (List.cons_ne_nil _ _), List.getLast_eq_getLastD,
      ← List.getLastD_cons, le_antisymm (not_lt.mp behind) reached]

theorem shotDelta_room {durationUs : Int} (positive : 0 ≤ durationUs) (numShots : Nat) :
    numShots • shotDelta durationUs numShots ≤ durationUs := by
  rw [shotDelta]
  split_ifs with enough
  · rwa [nsmul_one]
  · rwa [nsmul_zero]

theorem shotDelta_nonneg (durationUs : Int) (numShots : Nat) :
    0 ≤ shotDelta durationUs numShots := by
  rw [shotDelta]
  split_ifs <;> decide

theorem length_midpoints {tsMap : OrderedMap String Int} {shots : List ColorTimelineRange}
    {cuts : List Int} (found : midpoints tsMap shots = some cuts) :
    cuts.length = shots.length - 1 := by
  induction shots generalizing cuts with
  | nil =>
    cases found
    rfl
  | cons prev rest ih =>
    cases rest with
    | nil =>
      cases found
      rfl
    | cons curr rest =>
      rw [midpoints, Option.bind_eq_bind, Option.bind_eq_some_iff] at found
      obtain ⟨sum, -, found⟩ := found
      obtain ⟨later, others, last⟩ := Option.bind_eq_some_iff.mp found
      cases last
      rw [List.length_cons, ih others]
      rfl

theorem settled_shotBoundaries {durationUs : Int} (positive : 0 ≤ durationUs)
    {tsMap : OrderedMap String Int} {shots : List ColorTimelineRange} (some_ : shots ≠ [])
    {boundaries : List Int} (found : shotBoundaries durationUs tsMap shots = some boundaries) :
    Settled durationUs (shotDelta durationUs shots.length) boundaries ∧
      boundaries.length = shots.length + 1 := by
  obtain ⟨cuts, split, last⟩ := Option.bind_eq_some_iff.mp found
  cases last
  have size : cuts.length + 1 = shots.length := by
    rw [length_midpoints split, Nat.sub_add_cancel (List.length_pos_iff.mpr some_)]
  refine ⟨settled_enforceMonotonicity cuts ?_, ?_⟩
  · rw [size]
    exact shotDelta_room positive shots.length
  · rw [length_enforceMonotonicity, List.length_append, List.length_singleton, size]

/-- The shots of a timeline cover the media from 0 to its duration, each of them from the end
of the one before. -/
structure TilesMedia (durationUs : Int) (shots : List ShotRecord) : Prop where
  tiles : Lib.Tiles ShotRecord.startUs ShotRecord.endUs 0 shots durationUs
  filled : shots.length ≤ durationUs → ∀ shot ∈ shots, shot.startUs < shot.endUs

/-- A field that does not depend on the position. -/
theorem map_mapIdx_of_eq {α β γ : Type*} {f : Nat → α → β} {g : β → γ} (field : α → γ)
    (same : ∀ index item, g (f index item) = field item) (items : List α) :
    (items.mapIdx f).map g = items.map field := by
  refine List.ext_getElem (by simp) fun index _ _ => ?_
  rw [List.getElem_map, List.getElem_mapIdx, same, List.getElem_map]

@[simp] theorem length_shotRecords {shots : List ColorTimelineRange} {boundaries : List Int}
    (size : boundaries.length = shots.length + 1) :
    (shotRecords shots boundaries).length = shots.length := by
  rw [shotRecords, List.length_mapIdx, List.length_zip, Lib.spans, List.length_zip,
    List.length_tail, size]
  simp

theorem spans_shotRecords {shots : List ColorTimelineRange} {boundaries : List Int}
    (size : boundaries.length = shots.length + 1) :
    (shotRecords shots boundaries).map (fun shot => (shot.startUs, shot.endUs)) =
      Lib.spans boundaries := by
  have enough : (Lib.spans boundaries).length ≤ shots.length := by
    rw [Lib.spans, List.length_zip, List.length_tail, size]
    exact min_le_right _ _
  exact (map_mapIdx_of_eq Prod.snd (fun _ _ => by rfl) _).trans (List.map_snd_zip enough)

/-- Whatever the frames and their grouping, the shots tile the media. -/
theorem tilesMedia_writeTimelineArtifacts {mediaDurationUs : Int}
    {sampling : ColorFrameSamplingInput} {timeline : TimelineArtifacts}
    (positive : 0 ≤ timelineDurationUs mediaDurationUs sampling.frames)
    (some_ : sampling.shots ≠ [])
    (written : writeTimelineArtifacts mediaDurationUs sampling = some timeline) :
    TilesMedia (timelineDurationUs mediaDurationUs sampling.frames) timeline.shots := by
  obtain ⟨boundaries, found, rfl⟩ := Option.map_eq_some_iff.mp written
  obtain ⟨settled, size⟩ := settled_shotBoundaries positive some_ found
  have spans := spans_shotRecords size
  rw [shots_timelineArtifacts]
  refine ⟨?_, fun enough shot mem => ?_⟩
  · rw [← Lib.tiles_map, spans]
    refine Lib.tiles_spans (settled.spaced.imp fun x y apart => ?_) settled.starts settled.ends
    exact (le_add_of_nonneg_right (shotDelta_nonneg _ _)).trans apart
  · have placed : (shot.startUs, shot.endUs) ∈ Lib.spans boundaries := by
      rw [← spans]
      exact List.mem_map_of_mem mem
    rw [length_shotRecords size] at enough
    have apart := settled.spaced.mem_spans placed
    rwa [shotDelta, if_pos enough] at apart

end Svp.Package

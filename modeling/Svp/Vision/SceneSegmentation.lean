import Svp.Lib.Binary64
import Svp.Lib.CutPoints
import Svp.Lib.Tiling

/-!
# Scene segmentation

`segmentFramesByColorChange` cuts a list of frames where a signal of color change fires
between two neighbours, merges what is too short into the segment before it and a short
first segment into the next one, and makes each segment a scene and each frame a shot.

The scenes are the frames in order, they start where a signal fired, and none is too
short unless it is the only one (`segmentFramesByColorChange_spec`).

Which bucket a pixel falls into is a parameter. Doubles are rational numbers, with
`round64` behind every operation that may round; a count of frames is read as an `int`.
-/

namespace Svp.Vision.SceneSegmentation

open Lib (round64 Tiles slice)

/-! ## Signals -/

/-- The registered buckets, in the order of their ids. -/
inductive ColorBucket
  | black | blue | brown | cyan | gray | green | orange | other | pink | purple | red | white | yellow
deriving DecidableEq

/-- The order of registration. -/
def registeredColorBucketIds : List ColorBucket :=
  [.black, .white, .gray, .red, .orange, .yellow, .green, .cyan, .blue, .purple, .pink, .brown, .other]

/-- A map from the bucket ids goes through them in this order. -/
def bucketOrder : List ColorBucket :=
  [.black, .blue, .brown, .cyan, .gray, .green, .orange, .other, .pink, .purple, .red, .white, .yellow]

structure ColorRasterFrame (Pixel : Type) where
  frameId : String
  timestampUs : Int
  pixels : List Pixel

def kL1DistanceThreshold : ℚ := 1 / 2

def kDominantCoverageJumpThreshold : ℚ := round64 (35 / 100)

def kDiversityChangeThreshold : Int := 2

def kDiversityBucketCoverage : ℚ := round64 (5 / 100)

section
variable {Pixel : Type} (assignRegisteredColorBucket : Pixel → ColorBucket)

def bucketCoverageVector (frame : ColorRasterFrame Pixel) (bucket : ColorBucket) : ℚ :=
  if frame.pixels = [] then 0
  else
    round64 (round64 (frame.pixels.countP fun pixel => assignRegisteredColorBucket pixel = bucket) /
      round64 frame.pixels.length)

/-- The first bucket of the largest coverage. -/
def dominantBucketFromCoverage (coverage : ColorBucket → ℚ) : ColorBucket :=
  bucketOrder.foldl (fun best bucket => if coverage best < coverage bucket then bucket else best) .black

def l1Distance (a b : ColorBucket → ℚ) : ℚ :=
  registeredColorBucketIds.foldl (fun dist id => round64 (dist + |round64 (a id - b id)|)) 0

def colorDiversity (coverage : ColorBucket → ℚ) : Int :=
  bucketOrder.countP fun bucket =>
    bucket ≠ .gray ∧ bucket ≠ .black ∧ bucket ≠ .white ∧ kDiversityBucketCoverage ≤ coverage bucket

/-- A signal fires between two neighbours. -/
def boundary (previous current : ColorRasterFrame Pixel) : Bool :=
  let before := bucketCoverageVector assignRegisteredColorBucket previous
  let after := bucketCoverageVector assignRegisteredColorBucket current
  let dominant := dominantBucketFromCoverage before
  decide (dominantBucketFromCoverage after ≠ dominant) ||
    decide (kL1DistanceThreshold < l1Distance after before) ||
    decide (kDominantCoverageJumpThreshold < |round64 (after dominant - before dominant)|) ||
    decide (kDiversityChangeThreshold ≤ |colorDiversity after - colorDiversity before|)

/-! ## Segments -/

/-- Consecutive frames, the last one included. -/
structure RawSegment where
  beginIndex : Nat
  endIndex : Nat
  dominantBucket : ColorBucket

def dominantBucketForFrame (frame : ColorRasterFrame Pixel) : ColorBucket :=
  dominantBucketFromCoverage (bucketCoverageVector assignRegisteredColorBucket frame)

/-- The segments from `segStart` on, whose first frame is `first`; the frame at `i - 1` is
`previous`. -/
def rawSegments (first : ColorRasterFrame Pixel) (segStart : Nat) :
    ColorRasterFrame Pixel → Nat → List (ColorRasterFrame Pixel) → List RawSegment
  | _, i, [] => [⟨segStart, i - 1, dominantBucketForFrame assignRegisteredColorBucket first⟩]
  | previous, i, current :: rest =>
    if boundary assignRegisteredColorBucket previous current then
      ⟨segStart, i - 1, dominantBucketForFrame assignRegisteredColorBucket first⟩ ::
        rawSegments current i current (i + 1) rest
    else rawSegments first segStart current (i + 1) rest

end

/-- `static_cast<int>` of the count of frames. -/
def frameCount (seg : RawSegment) : Int :=
  ((seg.endIndex - seg.beginIndex + 1 : Nat) : Int).bmod (2 ^ 32)

/-- The loop over the segments after the first; `last` is the last one merged. -/
def mergeBackward (minSceneFrames : Int) (last : RawSegment) : List RawSegment → List RawSegment
  | [] => [last]
  | seg :: rest =>
    if frameCount seg < minSceneFrames then
      mergeBackward minSceneFrames { last with endIndex := seg.endIndex } rest
    else last :: mergeBackward minSceneFrames seg rest

/-- A first segment that is too short is merged into the second. -/
def mergeForward (minSceneFrames : Int) : List RawSegment → List RawSegment
  | first :: second :: rest =>
    if frameCount first < minSceneFrames then { second with beginIndex := first.beginIndex } :: rest
    else first :: second :: rest
  | merged => merged

def mergeShortSegments (segments : List RawSegment) (minSceneFrames : Int) : List RawSegment :=
  match segments with
  | [] => []
  | first :: rest =>
    if minSceneFrames ≤ 1 then first :: rest
    else mergeForward minSceneFrames (mergeBackward minSceneFrames first rest)

/-! ## Scenes and shots -/

structure SceneSegment where
  sceneId : String
  startUs : Int
  endUs : Int
  frameIds : List String
  dominantBucket : ColorBucket

structure ColorTimelineRange where
  targetId : String
  startUs : Int
  endUs : Int
  frameIds : List String

structure SceneSegmentationResult where
  scenes : List SceneSegment
  shots : List ColorTimelineRange
  method : String

/-- A number from 1 in at least six digits. -/
def sixDigits (name : String) (index : Nat) : String :=
  let digits := toString (index + 1)
  name ++ String.ofList (List.replicate (6 - digits.length) '0') ++ digits

def makeSceneId (index : Nat) : String := sixDigits "scene_" index

def makeShotId (index : Nat) : String := sixDigits "shot_" index

section
variable {Pixel : Type} (assignRegisteredColorBucket : Pixel → ColorBucket)

/-- The frames of a segment. -/
def segmentFrames (frames : List (ColorRasterFrame Pixel)) (seg : RawSegment) :
    List (ColorRasterFrame Pixel) :=
  slice frames seg.beginIndex (seg.endIndex + 1 - seg.beginIndex)

def timestampAt (frames : List (ColorRasterFrame Pixel)) (i : Nat) : Int :=
  (frames[i]?.map ColorRasterFrame.timestampUs).getD 0

def makeScene (frames : List (ColorRasterFrame Pixel)) (index : Nat) (seg : RawSegment) : SceneSegment where
  sceneId := makeSceneId index
  startUs := timestampAt frames seg.beginIndex
  endUs := timestampAt frames seg.endIndex
  frameIds := (segmentFrames frames seg).map ColorRasterFrame.frameId
  dominantBucket := seg.dominantBucket

def makeShot (index : Nat) (frame : ColorRasterFrame Pixel) : ColorTimelineRange where
  targetId := makeShotId index
  startUs := frame.timestampUs
  endUs := frame.timestampUs
  frameIds := [frame.frameId]

def segmentFramesByColorChange (frames : List (ColorRasterFrame Pixel)) (minSceneFrames : Int) :
    Except String SceneSegmentationResult :=
  match frames with
  | [] => .error "scene segmentation requires at least one frame"
  | first :: rest =>
    let segments :=
      if rest = [] then [⟨0, 0, dominantBucketForFrame assignRegisteredColorBucket first⟩]
      else mergeShortSegments (rawSegments assignRegisteredColorBucket first 0 first 1 rest) minSceneFrames
    .ok {
      scenes := segments.mapIdx (makeScene (first :: rest))
      -- one counter numbers the shots of all scenes
      shots := (segments.flatMap (segmentFrames (first :: rest))).mapIdx makeShot
      method := "deterministic_color_distribution_change_v2" }

/-! ## Segments split the frames -/

/-- A segment may start at the first frame or where a signal fired. -/
def StartsAt (frames : List (ColorRasterFrame Pixel)) (index : Nat) : Prop :=
  index = 0 ∨ ∃ previous current, frames[index - 1]? = some previous ∧
    frames[index]? = some current ∧ boundary assignRegisteredColorBucket previous current = true

/-- The segments go from `start` to `stop` without a gap, and start where they may. -/
structure Splits (frames : List (ColorRasterFrame Pixel)) (start stop : Nat)
    (segments : List RawSegment) : Prop where
  tiles : Tiles RawSegment.beginIndex (fun seg => seg.endIndex + 1) start segments stop
  nonempty : ∀ seg ∈ segments, seg.beginIndex ≤ seg.endIndex
  starts : ∀ seg ∈ segments, StartsAt assignRegisteredColorBucket frames seg.beginIndex

variable {assignRegisteredColorBucket}
variable {frames : List (ColorRasterFrame Pixel)} {minSceneFrames : Int}

theorem Splits.cons {first last stop : Nat} {bucket : ColorBucket} {segments : List RawSegment}
    (some : first ≤ last) (starts : StartsAt assignRegisteredColorBucket frames first)
    (rest : Splits assignRegisteredColorBucket frames (last + 1) stop segments) :
    Splits assignRegisteredColorBucket frames first stop (⟨first, last, bucket⟩ :: segments) where
  tiles := ⟨rfl, Nat.le_succ_of_le some, rest.tiles⟩
  nonempty := List.forall_mem_cons.mpr ⟨some, rest.nonempty⟩
  starts := List.forall_mem_cons.mpr ⟨starts, rest.starts⟩

theorem Splits.nil (stop : Nat) : Splits assignRegisteredColorBucket frames stop stop [] where
  tiles := rfl
  nonempty := List.forall_mem_nil _
  starts := List.forall_mem_nil _

theorem Splits.uncons {seg : RawSegment} {segments : List RawSegment} {start stop : Nat}
    (split : Splits assignRegisteredColorBucket frames start stop (seg :: segments)) :
    seg.beginIndex = start ∧ seg.beginIndex ≤ seg.endIndex ∧
      StartsAt assignRegisteredColorBucket frames seg.beginIndex ∧
      Splits assignRegisteredColorBucket frames (seg.endIndex + 1) stop segments := by
  obtain ⟨tiles, nonempty, starts⟩ := split
  obtain ⟨first, -, later⟩ := tiles
  obtain ⟨some, nonempty⟩ := List.forall_mem_cons.mp nonempty
  obtain ⟨here, starts⟩ := List.forall_mem_cons.mp starts
  exact ⟨first, some, here, later, nonempty, starts⟩

theorem splits_rawSegments {first previous : ColorRasterFrame Pixel} {segStart i : Nat}
    {rest : List (ColorRasterFrame Pixel)} (left : frames.drop i = rest) (inside : i ≤ frames.length)
    (before : frames[i - 1]? = some previous) (open_ : segStart < i)
    (starts : StartsAt assignRegisteredColorBucket frames segStart) :
    Splits assignRegisteredColorBucket frames segStart frames.length
      (rawSegments assignRegisteredColorBucket first segStart previous i rest) := by
  induction rest generalizing first previous segStart i with
  | nil =>
    have ends : frames.length = i - 1 + 1 := by
      have := List.drop_eq_nil_iff.mp left
      omega
    unfold rawSegments
    rw [ends]
    exact Splits.cons (Nat.le_sub_one_of_lt open_) starts (Splits.nil _)
  | cons current rest ih =>
    have here : frames[i]? = some current := by
      rw [← List.head?_drop, left, List.head?_cons]
    have more : i + 1 ≤ frames.length := (List.getElem?_eq_some_iff.mp here).1
    have later : frames.drop (i + 1) = rest := by
      rw [← List.drop_drop, left]
      rfl
    unfold rawSegments
    split
    · next fires =>
      have cut : StartsAt assignRegisteredColorBucket frames i := .inr ⟨_, _, before, here, fires⟩
      have rest := @ih current current i _ later more here (Nat.lt_succ_self i) cut
      refine Splits.cons (Nat.le_sub_one_of_lt open_) starts ?_
      rwa [Nat.sub_add_cancel (Nat.one_le_of_lt open_)]
    · exact ih later more here (Nat.lt_succ_of_lt open_) starts

/-! ## Merging -/

def segmentLength (seg : RawSegment) : Nat := seg.endIndex + 1 - seg.beginIndex

/-- As an `int` a count does not grow, so what passes for long is long. -/
theorem frameCount_le {seg : RawSegment} (some : seg.beginIndex ≤ seg.endIndex) :
    frameCount seg ≤ segmentLength seg := by
  have count : seg.endIndex - seg.beginIndex + 1 = segmentLength seg := by
    unfold segmentLength
    omega
  unfold frameCount
  rw [count, Int.bmod_def]
  split <;> omega

/-- Backward merging leaves segments behind the first that are long, and the first no
shorter than it was. -/
theorem splits_mergeBackward {last : RawSegment} {segments : List RawSegment} {start stop : Nat}
    (split : Splits assignRegisteredColorBucket frames start stop (last :: segments)) :
    ∃ head tail, mergeBackward minSceneFrames last segments = head :: tail ∧
      Splits assignRegisteredColorBucket frames start stop (head :: tail) ∧
      segmentLength last ≤ segmentLength head ∧
      ∀ seg ∈ tail, minSceneFrames ≤ segmentLength seg := by
  induction segments generalizing last start with
  | nil => exact ⟨last, [], rfl, split, le_rfl, List.forall_mem_nil _⟩
  | cons seg rest ih =>
    obtain ⟨rfl, some, starts, later⟩ := split.uncons
    obtain ⟨next, someSeg, -, rest'⟩ := later.uncons
    unfold mergeBackward
    split
    · have merged : Splits assignRegisteredColorBucket frames last.beginIndex stop
          ({ last with endIndex := seg.endIndex } :: rest) :=
        Splits.cons (by omega) starts rest'
      obtain ⟨head, tail, eq, split, grows, long⟩ := ih merged
      refine ⟨head, tail, eq, split, le_trans ?_ grows, long⟩
      show last.endIndex + 1 - last.beginIndex ≤ seg.endIndex + 1 - last.beginIndex
      omega
    · next short =>
      obtain ⟨head, tail, eq, split, grows, long⟩ := ih later
      refine ⟨last, head :: tail, by rw [eq], Splits.cons some starts split, le_rfl, ?_⟩
      refine List.forall_mem_cons.mpr ⟨?_, long⟩
      calc
        minSceneFrames ≤ frameCount seg := not_lt.mp short
        _ ≤ segmentLength seg := frameCount_le someSeg
        _ ≤ segmentLength head := by exact_mod_cast grows

theorem splits_mergeShortSegments {segments : List RawSegment} {stop : Nat}
    (split : Splits assignRegisteredColorBucket frames 0 stop segments) :
    Splits assignRegisteredColorBucket frames 0 stop (mergeShortSegments segments minSceneFrames) ∧
      ((mergeShortSegments segments minSceneFrames).length ≤ 1 ∨
        ∀ seg ∈ mergeShortSegments segments minSceneFrames, minSceneFrames ≤ segmentLength seg) := by
  unfold mergeShortSegments
  split
  · exact ⟨split, .inl (Nat.zero_le 1)⟩
  · next first rest =>
    split
    · next off =>
      refine ⟨split, .inr fun seg mem => off.trans ?_⟩
      have some := split.nonempty seg mem
      have : 1 ≤ segmentLength seg := by
        unfold segmentLength
        omega
      exact_mod_cast this
    · obtain ⟨head, tail, eq, split, -, long⟩ := @splits_mergeBackward _ _ _ minSceneFrames _ _ _ _ split
      rw [eq]
      cases tail with
      | nil => exact ⟨split, .inl le_rfl⟩
      | cons second rest =>
        obtain ⟨zero, some, starts, later⟩ := split.uncons
        obtain ⟨next, someSecond, -, rest'⟩ := later.uncons
        obtain ⟨longSecond, longRest⟩ := List.forall_mem_cons.mp long
        rw [mergeForward]
        split
        · have merged : Splits assignRegisteredColorBucket frames head.beginIndex stop
              ({ second with beginIndex := head.beginIndex } :: rest) :=
            Splits.cons (by omega) starts rest'
          refine ⟨zero ▸ merged, .inr (List.forall_mem_cons.mpr ⟨longSecond.trans ?_, longRest⟩)⟩
          have grows : segmentLength second ≤ second.endIndex + 1 - head.beginIndex := by
            unfold segmentLength
            omega
          exact_mod_cast grows
        · next enough =>
          refine ⟨split, .inr (List.forall_mem_cons.mpr ⟨?_, long⟩)⟩
          exact (not_lt.mp enough).trans (frameCount_le some)

/-! ## The result -/

theorem flatMap_segmentFrames {segments : List RawSegment} {start stop : Nat}
    (split : Splits assignRegisteredColorBucket frames start stop segments) :
    segments.flatMap (segmentFrames frames) = slice frames start (stop - start) := by
  induction segments generalizing start with
  | nil =>
    obtain rfl : start = stop := split.tiles
    simp [slice]
  | cons seg rest ih =>
    obtain ⟨rfl, some, -, later⟩ := split.uncons
    rw [List.flatMap_cons, ih later, segmentFrames]
    exact Lib.slice_append frames (Nat.le_succ_of_le some) later.tiles.le

theorem length_segmentFrames {segments : List RawSegment} {start : Nat}
    (split : Splits assignRegisteredColorBucket frames start frames.length segments)
    {seg : RawSegment} (mem : seg ∈ segments) :
    (segmentFrames frames seg).length = segmentLength seg := by
  have some := split.nonempty seg mem
  have inside := (split.tiles.mem mem).2
  unfold segmentFrames segmentLength
  exact Lib.length_slice (by omega)

/-- A segment starts behind the frames of those before it. -/
theorem length_flatMap_segmentFrames {front back : List RawSegment} {seg : RawSegment} {start stop : Nat}
    (split : Splits assignRegisteredColorBucket frames start stop (front ++ seg :: back))
    (inside : stop ≤ frames.length) :
    start + (front.flatMap (segmentFrames frames)).length = seg.beginIndex := by
  induction front generalizing start with
  | nil => exact split.uncons.1.symm
  | cons first front ih =>
    obtain ⟨rfl, some, -, later⟩ := split.uncons
    have bound := later.tiles.le
    have length : (segmentFrames frames first).length = first.endIndex + 1 - first.beginIndex :=
      Lib.length_slice (by omega)
    rw [List.flatMap_cons, List.length_append, length, ← ih later]
    omega

/-- The scenes are the frames in order and start where a signal fired, and every frame is
a shot. A scene is long enough unless it is the only one. -/
structure IsSceneSplit (assignRegisteredColorBucket : Pixel → ColorBucket)
    (frames : List (ColorRasterFrame Pixel)) (minSceneFrames : Int)
    (result : SceneSegmentationResult) : Prop where
  frames_eq : result.scenes.flatMap SceneSegment.frameIds = frames.map ColorRasterFrame.frameId
  nonempty : ∀ scene ∈ result.scenes, scene.frameIds ≠ []
  starts : ∀ front scene back, result.scenes = front ++ scene :: back →
    StartsAt assignRegisteredColorBucket frames (front.flatMap SceneSegment.frameIds).length
  long : result.scenes.length = 1 ∨
    ∀ scene ∈ result.scenes, minSceneFrames ≤ scene.frameIds.length
  shots : result.shots.map ColorTimelineRange.frameIds = frames.map fun frame => [frame.frameId]

theorem map_mapIdx {α β γ : Type} {items : List α} {make : Nat → α → β} {read : β → γ} {value : α → γ}
    (same : ∀ index item, read (make index item) = value item) :
    (items.mapIdx make).map read = items.map value :=
  List.ext_getElem (by simp) fun index _ _ => by simp [same]

def segmentFrameIds (frames : List (ColorRasterFrame Pixel)) (seg : RawSegment) : List String :=
  (segmentFrames frames seg).map ColorRasterFrame.frameId

theorem length_flatMap_segmentFrameIds (segments : List RawSegment) :
    (segments.map (segmentFrameIds frames)).flatten.length =
      (segments.flatMap (segmentFrames frames)).length := by
  simp [segmentFrameIds, List.length_flatten, List.length_flatMap, Function.comp_def]

/-- What is made of segments that split the frames. -/
theorem isSceneSplit_of_splits {segments : List RawSegment} {method : String}
    (split : Splits assignRegisteredColorBucket frames 0 frames.length segments)
    (long : segments.length = 1 ∨ ∀ seg ∈ segments, minSceneFrames ≤ segmentLength seg) :
    IsSceneSplit assignRegisteredColorBucket frames minSceneFrames
      ⟨segments.mapIdx (makeScene frames),
        (segments.flatMap (segmentFrames frames)).mapIdx makeShot, method⟩ := by
  have whole : segments.flatMap (segmentFrames frames) = frames := by
    rw [flatMap_segmentFrames split, Nat.sub_zero, slice, List.drop_zero, List.take_length]
  have scenes : (segments.mapIdx (makeScene frames)).map SceneSegment.frameIds =
      segments.map (segmentFrameIds frames) := map_mapIdx fun _ _ => rfl
  have scene_of : ∀ scene ∈ segments.mapIdx (makeScene frames), ∃ seg ∈ segments,
      scene.frameIds.length = segmentLength seg := by
    intro scene mem
    have known := List.mem_map_of_mem (f := SceneSegment.frameIds) mem
    rw [scenes] at known
    obtain ⟨seg, inSegments, same⟩ := List.mem_map.mp known
    refine ⟨seg, inSegments, ?_⟩
    rw [← same, segmentFrameIds, List.length_map, length_segmentFrames split inSegments]
  refine ⟨?_, fun scene mem => ?_, fun front scene back parts => ?_, ?_, ?_⟩
  · show (segments.mapIdx (makeScene frames)).flatMap SceneSegment.frameIds = _
    rw [List.flatMap_def, scenes, ← List.flatMap_def]
    unfold segmentFrameIds
    rw [← List.map_flatMap, whole]
  · obtain ⟨seg, inSegments, length⟩ := scene_of scene mem
    have some := split.nonempty seg inSegments
    unfold segmentLength at length
    exact List.ne_nil_of_length_pos (by omega)
  · have parts : segments.mapIdx (makeScene frames) = front ++ scene :: back := parts
    rw [parts, List.map_append, List.map_cons] at scenes
    obtain ⟨before, rest, rfl, sameFront, sameRest⟩ := List.map_eq_append_iff.mp scenes.symm
    obtain ⟨seg, after, rfl, -, -⟩ := List.map_eq_cons_iff.mp sameRest
    have starts := split.starts seg (List.mem_append_right before List.mem_cons_self)
    have place := length_flatMap_segmentFrames split le_rfl
    rw [Nat.zero_add] at place
    rwa [List.flatMap_def, ← sameFront, length_flatMap_segmentFrameIds, place]
  · refine long.imp (fun one => by rw [List.length_mapIdx, one]) fun long scene mem => ?_
    obtain ⟨seg, inSegments, length⟩ := scene_of scene mem
    rw [length]
    exact long seg inSegments
  · rw [whole]
    exact map_mapIdx fun _ _ => rfl

/-- The scenes of any frames split them, start where a signal fired and are long enough. -/
theorem segmentFramesByColorChange_spec (assignRegisteredColorBucket : Pixel → ColorBucket)
    (first : ColorRasterFrame Pixel) (rest : List (ColorRasterFrame Pixel)) (minSceneFrames : Int) :
    ∃ result, segmentFramesByColorChange assignRegisteredColorBucket (first :: rest) minSceneFrames =
        .ok result ∧
      IsSceneSplit assignRegisteredColorBucket (first :: rest) minSceneFrames result := by
  refine ⟨_, rfl, ?_⟩
  split
  · next single =>
    subst single
    exact isSceneSplit_of_splits (Splits.cons le_rfl (.inl rfl) (Splits.nil 1)) (.inl rfl)
  · have raw := @splits_rawSegments _ assignRegisteredColorBucket (first :: rest) first first 0 1 rest
      rfl (Nat.succ_le_succ (Nat.zero_le _)) rfl one_pos (.inl rfl)
    obtain ⟨split, few | long⟩ := @splits_mergeShortSegments _ _ _ minSceneFrames _ _ raw
    · refine isSceneSplit_of_splits split (.inl (few.antisymm (Nat.one_le_iff_ne_zero.mpr fun none => ?_)))
      rw [List.length_eq_zero_iff] at none
      rw [none] at split
      exact absurd split.tiles (Nat.succ_ne_zero _).symm
    · exact isSceneSplit_of_splits split (.inr long)

end

end Svp.Vision.SceneSegmentation

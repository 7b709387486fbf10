import Svp.Package.TimelineWriter

/-!
# Two placements of a frame

`frames.jsonl` puts a frame in the shot that lists it, the relationship writer in the shot
whose interval holds its `pts_us`. For frames in increasing order cut into consecutive shots
the two agree exactly when every frame is before the end of the media and every cut leaves
room for a boundary behind the last frame of the shot before it.
-/

namespace Svp.Package

open Lib (OrderedMap)

/-! ## Consecutive shots -/

/-- A shot with the frames it was cut from. -/
structure SampledShot where
  targetId : String
  startUs : Int
  endUs : Int
  frames : List ColorRasterFrame
deriving DecidableEq

def SampledShot.range (shot : SampledShot) : ColorTimelineRange where
  targetId := shot.targetId
  startUs := shot.startUs
  endUs := shot.endUs
  frameIds := shot.frames.map (·.frameId)

def SampledShot.firstUs (shot : SampledShot) : Int :=
  (shot.frames.head?.map (·.timestampUs)).getD 0

def SampledShot.lastUs (shot : SampledShot) : Int :=
  (shot.frames.getLast?.map (·.timestampUs)).getD 0

def sampledFrames (shots : List SampledShot) : List ColorRasterFrame := shots.flatMap (·.frames)

def samplingOf (scenes : List ColorTimelineRange) (shots : List SampledShot) :
    ColorFrameSamplingInput where
  frames := sampledFrames shots
  scenes := scenes
  shots := shots.map (·.range)

/-- Frames at increasing timestamps within the media, cut into consecutive shots. -/
structure ConsecutiveShots (mediaDurationUs : Int) (shots : List SampledShot) : Prop where
  sampled : shots ≠ []
  nonempty : ∀ shot ∈ shots, shot.frames ≠ []
  increasing : (sampledFrames shots).Pairwise fun earlier later =>
    earlier.timestampUs < later.timestampUs
  inside : ∀ frame ∈ sampledFrames shots, 0 ≤ frame.timestampUs ∧
    frame.timestampUs ≤ timelineDurationUs mediaDurationUs (sampledFrames shots)
  frameIds : ((sampledFrames shots).map (·.frameId)).Nodup
  shotIds : (shots.map (·.targetId)).Nodup
  named : ∀ shot ∈ shots, shot.targetId ≠ ""

/-- The boundary between two shots comes to lie behind the last frame of the first one: the
frames are two microseconds apart, or the shots up to here have a frame at each microsecond
so that the boundary is pushed on. -/
def ClearCut (index : Nat) (prev curr : SampledShot) : Prop :=
  prev.lastUs + curr.firstUs < 2 ^ 63 ∧ (prev.lastUs + 1 < curr.firstUs ∨ prev.lastUs = index)

/-! ## Extents -/

/-- The shots in order, none empty. -/
structure Ordered (shots : List SampledShot) : Prop where
  forward : ∀ shot ∈ shots, shot.firstUs ≤ shot.lastUs
  chain : shots.IsChain fun prev curr => prev.lastUs < curr.firstUs

theorem Ordered.tail {shot : SampledShot} {rest : List SampledShot}
    (ordered : Ordered (shot :: rest)) : Ordered rest where
  forward later mem := ordered.forward later (List.mem_cons_of_mem _ mem)
  chain := ordered.chain.tail

theorem firstUs_eq {shot : SampledShot} {first : ColorRasterFrame} {rest : List ColorRasterFrame}
    (frames : shot.frames = first :: rest) : shot.firstUs = first.timestampUs := by
  rw [SampledShot.firstUs, frames]
  rfl

theorem lastUs_eq {shot : SampledShot} {last : ColorRasterFrame} {front : List ColorRasterFrame}
    (frames : shot.frames = front ++ [last]) : shot.lastUs = last.timestampUs := by
  rw [SampledShot.lastUs, frames, List.getLast?_concat]
  rfl

theorem exists_first {shot : SampledShot} (nonempty : shot.frames ≠ []) :
    ∃ first ∈ shot.frames, shot.firstUs = first.timestampUs := by
  obtain ⟨first, rest, frames⟩ := List.exists_cons_of_ne_nil nonempty
  exact ⟨first, frames ▸ List.mem_cons_self, firstUs_eq frames⟩

theorem exists_last {shot : SampledShot} (nonempty : shot.frames ≠ []) :
    ∃ last ∈ shot.frames, shot.lastUs = last.timestampUs := by
  have frames := (List.dropLast_concat_getLast nonempty).symm
  exact ⟨_, List.getLast_mem nonempty, lastUs_eq frames⟩

section Frames

variable {shot : SampledShot}

theorem firstUs_le (increasing : shot.frames.Pairwise fun earlier later =>
    earlier.timestampUs < later.timestampUs) {frame : ColorRasterFrame}
    (mem : frame ∈ shot.frames) : shot.firstUs ≤ frame.timestampUs := by
  obtain ⟨first, rest, frames⟩ := List.exists_cons_of_ne_nil (List.ne_nil_of_mem mem)
  rw [firstUs_eq frames]
  rw [frames] at mem increasing
  rcases List.mem_cons.mp mem with rfl | mem
  · exact le_rfl
  · exact ((List.pairwise_cons.mp increasing).1 frame mem).le

theorem le_lastUs (increasing : shot.frames.Pairwise fun earlier later =>
    earlier.timestampUs < later.timestampUs) {frame : ColorRasterFrame}
    (mem : frame ∈ shot.frames) : frame.timestampUs ≤ shot.lastUs := by
  obtain ⟨front, last, frames⟩ :=
    (List.eq_nil_or_concat shot.frames).resolve_left (List.ne_nil_of_mem mem)
  rw [List.concat_eq_append] at frames
  rw [lastUs_eq frames]
  rw [frames] at mem increasing
  rcases List.mem_append.mp mem with mem | mem
  · exact ((List.pairwise_append.mp increasing).2.2 frame mem _ (List.mem_singleton_self _)).le
  · rw [List.mem_singleton.mp mem]

end Frames

/-! ## Timestamps of a shot -/

theorem find?_frameTsMap {frames : List ColorRasterFrame}
    (distinct : (frames.map (·.frameId)).Nodup) {frame : ColorRasterFrame} (mem : frame ∈ frames) :
    (frameTsMap frames).find? frame.frameId = some frame.timestampUs := by
  induction frames using List.reverseRecOn with
  | nil => cases mem
  | append_singleton front last ih =>
    rw [List.map_append, List.nodup_append] at distinct
    rw [frameTsMap, List.foldl_append, List.foldl_cons, List.foldl_nil, OrderedMap.find?_insert]
    rcases List.mem_append.mp mem with mem | mem
    · have other : frame.frameId ≠ last.frameId :=
        distinct.2.2 _ (List.mem_map_of_mem mem) _ (List.mem_singleton_self _)
      rw [if_neg other]
      exact ih distinct.1 mem
    · rw [List.mem_singleton.mp mem, if_pos rfl]

/-- Later frames move the end of the range only. -/
theorem foldl_widenRange {tsMap : OrderedMap String Int} {lo : Int} (prev : ColorRasterFrame)
    (later : List ColorRasterFrame)
    (known : ∀ frame ∈ later, tsMap.find? frame.frameId = some frame.timestampUs)
    (increasing : (prev :: later).Pairwise fun earlier later =>
      earlier.timestampUs < later.timestampUs)
    (started : 0 ≤ lo) (below : lo ≤ prev.timestampUs) :
    (later.map (·.frameId)).foldl (widenRange tsMap) (lo, prev.timestampUs) =
      (lo, ((prev :: later).getLast (List.cons_ne_nil _ _)).timestampUs) := by
  induction later generalizing prev with
  | nil => rfl
  | cons frame rest ih =>
    obtain ⟨above, increasing⟩ := List.pairwise_cons.mp increasing
    have above := above frame List.mem_cons_self
    have step : widenRange tsMap (lo, prev.timestampUs) frame.frameId = (lo, frame.timestampUs) := by
      rw [widenRange, known frame List.mem_cons_self]
      dsimp only
      rw [if_neg (by omega), if_pos (.inr above)]
    rw [List.map_cons, List.foldl_cons, step, List.getLast_cons_cons]
    exact ih frame (fun later mem => known later (List.mem_cons_of_mem _ mem)) increasing
      (below.trans above.le)

theorem getShotTimestamps_range {tsMap : OrderedMap String Int} {shot : SampledShot}
    (nonempty : shot.frames ≠ [])
    (known : ∀ frame ∈ shot.frames, tsMap.find? frame.frameId = some frame.timestampUs)
    (increasing : shot.frames.Pairwise fun earlier later =>
      earlier.timestampUs < later.timestampUs)
    (started : ∀ frame ∈ shot.frames, 0 ≤ frame.timestampUs) :
    getShotTimestamps tsMap shot.range = (shot.firstUs, shot.lastUs) := by
  obtain ⟨first, rest, frames⟩ := List.exists_cons_of_ne_nil nonempty
  have last : shot.lastUs = ((first :: rest).getLast (List.cons_ne_nil _ _)).timestampUs :=
    lastUs_eq (frames.trans (List.dropLast_concat_getLast _).symm)
  rw [firstUs_eq frames, last]
  rw [frames] at known increasing started
  have at_ := started first List.mem_cons_self
  have whole : shot.range.frameIds.foldl (widenRange tsMap) (-1, -1) =
      (first.timestampUs, ((first :: rest).getLast (List.cons_ne_nil _ _)).timestampUs) := by
    have step : widenRange tsMap (-1, -1) first.frameId =
        (first.timestampUs, first.timestampUs) := by
      rw [widenRange, known first List.mem_cons_self]
      rfl
    rw [SampledShot.range, frames, List.map_cons, List.foldl_cons, step]
    exact foldl_widenRange first rest (fun frame mem => known frame (List.mem_cons_of_mem _ mem))
      increasing at_ le_rfl
  rw [getShotTimestamps, whole]
  exact if_neg (by dsimp only; omega)

/-! ## Boundaries of consecutive shots -/

def cutsOf : List SampledShot → List Int
  | prev :: curr :: rest => (prev.lastUs + curr.firstUs) / 2 :: cutsOf (curr :: rest)
  | _ => []

/-- The boundary at which shot `index` starts. It reaches the first frame only where the
forward pass has pushed every boundary so far. -/
structure StartsAt (index : Nat) (start : Int) (shot : SampledShot) : Prop where
  pushed : index ≤ start
  before : start ≤ shot.firstUs
  reached : start = shot.firstUs → start = index

theorem StartsAt.next {index : Nat} {start : Int} {prev curr : SampledShot}
    (starts : StartsAt index start prev) (forward : prev.firstUs ≤ prev.lastUs)
    (apart : prev.lastUs < curr.firstUs) :
    StartsAt (index + 1) (max ((prev.lastUs + curr.firstUs) / 2) (start + 1)) curr := by
  obtain ⟨pushed, before, reached⟩ := starts
  have midway : (prev.lastUs + curr.firstUs) / 2 < curr.firstUs := by omega
  refine ⟨?_, max_le midway.le (by omega), fun same => ?_⟩
  · exact le_max_of_le_right (by exact_mod_cast Int.add_le_add_right pushed 1)
  · -- the midpoint is before the first frame, so the boundary is one behind the last
    rcases max_choice ((prev.lastUs + curr.firstUs) / 2) (start + 1) with at_ | at_
    · exact absurd (at_ ▸ same) midway.ne
    · rw [at_] at same ⊢
      rw [reached (by omega)]
      rfl

theorem startsAt_zero {shot : SampledShot} (started : 0 ≤ shot.firstUs) : StartsAt 0 0 shot :=
  ⟨le_rfl, started, fun _ => rfl⟩

/-- The boundary behind a shot is behind its last frame. -/
theorem StartsAt.clear_iff {index : Nat} {start : Int} {prev : SampledShot} (curr : SampledShot)
    (starts : StartsAt index start prev) (forward : prev.firstUs ≤ prev.lastUs) :
    prev.lastUs < max ((prev.lastUs + curr.firstUs) / 2) (start + 1) ↔
      prev.lastUs + 1 < curr.firstUs ∨ prev.lastUs = index := by
  obtain ⟨pushed, before, reached⟩ := starts
  have midway : prev.lastUs < (prev.lastUs + curr.firstUs) / 2 ↔
      prev.lastUs + 1 < curr.firstUs := by
    omega
  rw [lt_max_iff, midway]
  refine or_congr_right ⟨fun last => ?_, fun last => ?_⟩
  · have at_ : start = prev.firstUs := by omega
    have same := reached at_
    omega
  · omega

/-- The shots with their spans: each holds its shot exactly when every cut is clear. -/
theorem placed_iff {durationUs : Int} {shots : List SampledShot} {shot : SampledShot}
    {index : Nat} {start : Int} (ordered : Ordered (shot :: shots))
    (starts : StartsAt index start shot)
    (before : ∀ later ∈ shot :: shots, later.lastUs < durationUs) :
    (∀ placed ∈ (shot :: shots).zip
        (Lib.spans (start :: Lib.raise 1 start (cutsOf (shot :: shots) ++ [durationUs]))),
      placed.2.1 ≤ placed.1.firstUs ∧ placed.1.lastUs < placed.2.2) ↔
    ∀ i (inside : i + 1 < (shot :: shots).length),
      (shot :: shots)[i].lastUs + 1 < (shot :: shots)[i + 1].firstUs ∨
        (shot :: shots)[i].lastUs = (index + i : Nat) := by
  induction shots generalizing shot index start with
  | nil =>
    have last := before shot List.mem_cons_self
    refine iff_of_true (fun placed mem => ?_) (fun i inside => ?_)
    · cases List.mem_singleton.mp mem
      exact ⟨starts.before, last.trans_le (le_max_left _ _)⟩
    · exact absurd inside (by simp)
  | cons next rest ih =>
    have forward := ordered.forward shot List.mem_cons_self
    have apart := (List.isChain_cons_cons.mp ordered.chain).1
    have clear := starts.clear_iff next forward
    have later := ih ordered.tail (starts.next forward apart)
      fun later mem => before later (List.mem_cons_of_mem _ mem)
    rw [← Nat.and_forall_add_one]
    constructor
    · intro all
      refine ⟨fun _ => clear.mp (all _ List.mem_cons_self).2, fun i inside => ?_⟩
      have there := later.mp (fun placed mem => all placed (List.mem_cons_of_mem _ mem)) i
        (Nat.lt_of_succ_lt_succ inside)
      rwa [Nat.add_right_comm] at there
    · rintro ⟨here, there⟩ placed mem
      rcases List.mem_cons.mp mem with rfl | mem
      · exact ⟨starts.before, clear.mpr (here (by simp))⟩
      · refine later.mpr (fun i inside => ?_) placed mem
        rw [Nat.add_right_comm]
        exact there i (Nat.succ_lt_succ inside)

/-- The duration is the last boundary: nothing is pushed past it. -/
theorem getLastD_raise_cuts {durationUs : Int} {shots : List SampledShot} {shot : SampledShot}
    {index : Nat} {start : Int} (ordered : Ordered (shot :: shots))
    (starts : StartsAt index start shot)
    (before : ∀ later ∈ shot :: shots, later.lastUs < durationUs) :
    (Lib.raise 1 start (cutsOf (shot :: shots) ++ [durationUs])).getLastD start = durationUs := by
  induction shots generalizing shot index start with
  | nil =>
    have forward := ordered.forward shot List.mem_cons_self
    have last := before shot List.mem_cons_self
    have reached := starts.before
    exact max_eq_left (by omega)
  | cons next rest ih =>
    have forward := ordered.forward shot List.mem_cons_self
    have apart := (List.isChain_cons_cons.mp ordered.chain).1
    rw [cutsOf, List.cons_append, Lib.raise, List.getLastD_cons]
    exact ih ordered.tail (starts.next forward apart)
      fun later mem => before later (List.mem_cons_of_mem _ mem)

/-- As many shots as there are need as many microseconds. -/
theorem length_le_of_before {durationUs : Int} {shots : List SampledShot} (ordered : Ordered shots)
    (index : Int) (started : ∀ shot ∈ shots.head?, index ≤ shot.firstUs)
    (before : ∀ shot ∈ shots, shot.lastUs < durationUs) (room : index ≤ durationUs) :
    index + shots.length ≤ durationUs := by
  induction shots generalizing index with
  | nil => simpa using room
  | cons shot rest ih =>
    have forward := ordered.forward shot List.mem_cons_self
    have last := before shot List.mem_cons_self
    have first := started shot rfl
    have later : index + 1 + rest.length ≤ durationUs := by
      refine ih ordered.tail (index + 1) (fun next mem => ?_)
        (fun later mem => before later (List.mem_cons_of_mem _ mem)) (by omega)
      cases rest with
      | nil => cases mem
      | cons head tail =>
        cases mem
        have apart := (List.isChain_cons_cons.mp ordered.chain).1
        omega
    rw [List.length_cons]
    push_cast
    omega

/-! ## The boundaries that are written -/

theorem addTimestamps_eq_some {left right sum : Int} (started : 0 ≤ left + right) :
    addTimestamps left right = some sum ↔ left + right < 2 ^ 63 ∧ left + right = sum := by
  have above : -2 ^ 63 ≤ left + right := le_trans (by decide) started
  rw [addTimestamps, Option.ite_none_right_eq_some, Option.some_inj, and_iff_right above]

theorem midpoints_eq_some {tsMap : OrderedMap String Int} {shots : List SampledShot}
    (known : ∀ shot ∈ shots, getShotTimestamps tsMap shot.range = (shot.firstUs, shot.lastUs))
    (started : ∀ shot ∈ shots, 0 ≤ shot.firstUs ∧ 0 ≤ shot.lastUs) {cuts : List Int} :
    midpoints tsMap (shots.map (·.range)) = some cuts ↔
      shots.IsChain (fun prev curr => prev.lastUs + curr.firstUs < 2 ^ 63) ∧
        cutsOf shots = cuts := by
  induction shots generalizing cuts with
  | nil => exact ⟨fun found => ⟨.nil, Option.some.inj found⟩, fun found => congrArg some found.2⟩
  | cons prev rest ih =>
    cases rest with
    | nil =>
      exact ⟨fun found => ⟨.singleton _, Option.some.inj found⟩, fun found => congrArg some found.2⟩
    | cons curr rest =>
      have later := @ih (fun shot mem => known shot (List.mem_cons_of_mem _ mem))
        (fun shot mem => started shot (List.mem_cons_of_mem _ mem))
      have front := started prev List.mem_cons_self
      have back := started curr (List.mem_cons_of_mem _ List.mem_cons_self)
      have sum : 0 ≤ prev.lastUs + curr.firstUs := add_nonneg front.2 back.1
      rw [List.map_cons, List.map_cons, midpoints, known prev List.mem_cons_self,
        known curr (List.mem_cons_of_mem _ List.mem_cons_self), List.isChain_cons_cons, cutsOf,
        ← Int.tdiv_eq_ediv_of_nonneg sum]
      constructor
      · intro found
        obtain ⟨total, added, found⟩ := Option.bind_eq_some_iff.mp found
        obtain ⟨others, more, last⟩ := Option.bind_eq_some_iff.mp found
        obtain ⟨fits, rfl⟩ := (addTimestamps_eq_some sum).mp added
        obtain ⟨chain, rfl⟩ := later.mp more
        exact ⟨⟨fits, chain⟩, Option.some.inj last⟩
      · rintro ⟨⟨fits, chain⟩, rfl⟩
        have more := later.mpr ⟨chain, rfl⟩
        rw [List.map_cons] at more
        rw [(addTimestamps_eq_some sum).mpr ⟨fits, rfl⟩, more]
        rfl

section Consecutive

variable {mediaDurationUs : Int} {shots : List SampledShot}

theorem mem_sampledFrames {frame : ColorRasterFrame} :
    frame ∈ sampledFrames shots ↔ ∃ shot ∈ shots, frame ∈ shot.frames := List.mem_flatMap

theorem ConsecutiveShots.increasing_frames (consecutive : ConsecutiveShots mediaDurationUs shots)
    {shot : SampledShot} (mem : shot ∈ shots) : shot.frames.Pairwise fun earlier later =>
      earlier.timestampUs < later.timestampUs :=
  (List.pairwise_flatMap.mp consecutive.increasing).1 shot mem

theorem ConsecutiveShots.started (consecutive : ConsecutiveShots mediaDurationUs shots) :
    ∀ shot ∈ shots, 0 ≤ shot.firstUs ∧ 0 ≤ shot.lastUs := by
  intro shot mem
  obtain ⟨first, there, same⟩ := exists_first (consecutive.nonempty shot mem)
  obtain ⟨last, there', same'⟩ := exists_last (consecutive.nonempty shot mem)
  rw [same, same']
  exact ⟨(consecutive.inside first (mem_sampledFrames.mpr ⟨shot, mem, there⟩)).1,
    (consecutive.inside last (mem_sampledFrames.mpr ⟨shot, mem, there'⟩)).1⟩

theorem ConsecutiveShots.ordered (consecutive : ConsecutiveShots mediaDurationUs shots) :
    Ordered shots where
  forward shot mem := by
    obtain ⟨first, there, same⟩ := exists_first (consecutive.nonempty shot mem)
    rw [same]
    exact le_lastUs (consecutive.increasing_frames mem) there
  chain := by
    refine List.Pairwise.isChain ?_
    refine (List.pairwise_flatMap.mp consecutive.increasing).2.imp_of_mem
      fun {prev curr} mem mem' apart => ?_
    obtain ⟨last, there, same⟩ := exists_last (consecutive.nonempty prev mem)
    obtain ⟨first, there', same'⟩ := exists_first (consecutive.nonempty curr mem')
    rw [same, same']
    exact apart last there first there'

theorem ConsecutiveShots.getShotTimestamps_range
    (consecutive : ConsecutiveShots mediaDurationUs shots) : ∀ shot ∈ shots,
      getShotTimestamps (frameTsMap (sampledFrames shots)) shot.range =
        (shot.firstUs, shot.lastUs) := by
  intro shot mem
  have inside : ∀ frame ∈ shot.frames, frame ∈ sampledFrames shots :=
    fun frame there => mem_sampledFrames.mpr ⟨shot, mem, there⟩
  exact Package.getShotTimestamps_range (consecutive.nonempty shot mem)
    (fun frame there => find?_frameTsMap consecutive.frameIds (inside frame there))
    (consecutive.increasing_frames mem)
    fun frame there => (consecutive.inside frame (inside frame there)).1

/-- Every frame is before the end of the media. -/
def BeforeEnd (mediaDurationUs : Int) (shots : List SampledShot) : Prop :=
  ∀ frame ∈ sampledFrames shots,
    frame.timestampUs < timelineDurationUs mediaDurationUs (sampledFrames shots)

theorem BeforeEnd.lastUs (before : BeforeEnd mediaDurationUs shots)
    (consecutive : ConsecutiveShots mediaDurationUs shots) : ∀ shot ∈ shots,
      shot.lastUs < timelineDurationUs mediaDurationUs (sampledFrames shots) := by
  intro shot mem
  obtain ⟨last, there, same⟩ := exists_last (consecutive.nonempty shot mem)
  rw [same]
  exact before last (mem_sampledFrames.mpr ⟨shot, mem, there⟩)

theorem ConsecutiveShots.duration_nonneg (consecutive : ConsecutiveShots mediaDurationUs shots) :
    0 ≤ timelineDurationUs mediaDurationUs (sampledFrames shots) := by
  obtain ⟨shot, mem⟩ := List.exists_mem_of_ne_nil _ consecutive.sampled
  obtain ⟨frame, there⟩ := List.exists_mem_of_ne_nil _ (consecutive.nonempty shot mem)
  have inside := consecutive.inside frame (mem_sampledFrames.mpr ⟨shot, mem, there⟩)
  exact inside.1.trans inside.2

/-- With every frame before the end, the forward pass alone settles the boundaries. -/
theorem shotBoundaries_eq_some (consecutive : ConsecutiveShots mediaDurationUs shots)
    (before : BeforeEnd mediaDurationUs shots) {boundaries : List Int} :
    shotBoundaries (timelineDurationUs mediaDurationUs (sampledFrames shots))
        (frameTsMap (sampledFrames shots)) (shots.map (·.range)) = some boundaries ↔
      shots.IsChain (fun prev curr => prev.lastUs + curr.firstUs < 2 ^ 63) ∧
        0 :: Lib.raise 1 0 (cutsOf shots ++
          [timelineDurationUs mediaDurationUs (sampledFrames shots)]) = boundaries := by
  have found := @midpoints_eq_some _ _ consecutive.getShotTimestamps_range consecutive.started
  have before := before.lastUs consecutive
  have positive := consecutive.duration_nonneg
  generalize timelineDurationUs mediaDurationUs (sampledFrames shots) = durationUs
    at before positive ⊢
  have delta : shotDelta durationUs shots.length = 1 := by
    have enough := length_le_of_before consecutive.ordered 0
      (fun shot mem => (consecutive.started shot (List.mem_of_mem_head? mem)).1) before positive
    rw [zero_add] at enough
    exact if_pos enough
  have settled : enforceMonotonicity durationUs 1 (cutsOf shots ++ [durationUs]) =
      0 :: Lib.raise 1 0 (cutsOf shots ++ [durationUs]) := by
    obtain ⟨shot, rest, rfl⟩ := List.exists_cons_of_ne_nil consecutive.sampled
    have first := (consecutive.started shot List.mem_cons_self).1
    have last := getLastD_raise_cuts consecutive.ordered (startsAt_zero first) before
    rw [enforceMonotonicity, List.getLastD_cons, last]
    exact if_neg (lt_irrefl _)
  rw [shotBoundaries, List.length_map, delta, Option.bind_eq_bind, Option.bind_eq_some_iff]
  constructor
  · rintro ⟨cuts, cut, last⟩
    obtain ⟨fits, rfl⟩ := found.mp cut
    rw [settled] at last
    exact ⟨fits, Option.some.inj last⟩
  · rintro ⟨fits, rfl⟩
    exact ⟨_, found.mpr ⟨fits, rfl⟩, congrArg some settled⟩

end Consecutive

/-! ## Agreement -/

/-- Every frame lies in the interval of the shot its record names, and the relationship writer
places it in that shot alone. -/
structure Agrees (timeline : TimelineArtifacts) : Prop where
  inside : ∀ frame ∈ timeline.frames, ∃ shot ∈ timeline.shots, frame.shotId = some shot.id ∧
    shot.startUs ≤ frame.ptsUs ∧ frame.ptsUs < shot.endUs
  placed : ∀ frame ∈ timeline.frames,
    placeInShots timeline.shots frame.ptsUs = frame.shotId.toList

theorem memberOf_range {shots : List SampledShot}
    (distinct : ((sampledFrames shots).map (·.frameId)).Nodup) {shot : SampledShot}
    (mem : shot ∈ shots) (named : shot.targetId ≠ "") {frame : ColorRasterFrame}
    (there : frame ∈ shot.frames) :
    memberOf (shots.map (·.range)) frame.frameId = some shot.targetId := by
  have found : (shots.map (·.range)).find? (fun range => range.frameIds.contains frame.frameId) =
      some shot.range := by
    induction shots with
    | nil => cases mem
    | cons head rest ih =>
      rw [sampledFrames, List.flatMap_cons, List.map_append, List.nodup_append] at distinct
      rw [List.map_cons]
      rcases List.mem_cons.mp mem with rfl | mem
      · refine List.find?_cons_of_pos ?_
        exact List.contains_iff_mem.mpr (List.mem_map_of_mem there)
      · rw [List.find?_cons_of_neg, ih distinct.2.1 mem]
        -- a frame of a later shot is listed in no earlier one
        intro listed
        exact distinct.2.2 _ (List.contains_iff_mem.mp listed) _
          (List.mem_map_of_mem (mem_sampledFrames.mpr ⟨shot, mem, there⟩)) rfl
  rw [memberOf, found]
  exact Option.filter_eq_some_iff.mpr ⟨rfl, by simpa [SampledShot.range] using named⟩

theorem forall_frameRecords {sampling : ColorFrameSamplingInput}
    {holds : Int → Option String → Prop} :
    (∀ record ∈ sampling.frames.mapIdx (frameRecord sampling), holds record.ptsUs record.shotId) ↔
      ∀ frame ∈ sampling.frames,
        holds frame.timestampUs (memberOf sampling.shots frame.frameId) := by
  have fields := map_mapIdx_of_eq
    (f := frameRecord sampling) (g := fun record => (record.ptsUs, record.shotId))
    (fun frame => (frame.timestampUs, memberOf sampling.shots frame.frameId))
    (fun _ _ => rfl) sampling.frames
  have both := congrArg (fun pairs => ∀ pair ∈ pairs, holds pair.1 pair.2) fields
  rw [List.forall_mem_map, List.forall_mem_map] at both
  exact Iff.of_eq both

theorem fields_shotRecords (shots : List SampledShot) (boundaries : List Int) :
    (shotRecords (shots.map (·.range)) boundaries).map
        (fun record => (record.id, record.startUs, record.endUs)) =
      (shots.zip (Lib.spans boundaries)).map fun placed => (placed.1.targetId, placed.2) := by
  have fields := map_mapIdx_of_eq (f := fun index placed =>
      shotRecord (shots.map (·.range)).length index placed.1 placed.2.1 placed.2.2)
    (g := fun record => (record.id, record.startUs, record.endUs))
    (fun placed : ColorTimelineRange × Int × Int => (placed.1.targetId, placed.2))
    (fun _ _ => rfl) ((shots.map (·.range)).zip (Lib.spans boundaries))
  rw [List.zip_map_left, List.map_map] at fields
  rw [shotRecords, List.zip_map_left]
  exact fields

section Agreement

variable {mediaDurationUs : Int} {shots : List SampledShot} {boundaries : List Int}

theorem map_fst_placed (size : boundaries.length = shots.length + 1) :
    (shots.zip (Lib.spans boundaries)).map Prod.fst = shots := by
  refine List.map_fst_zip ?_
  rw [Lib.spans, List.length_zip, List.length_tail, size]
  exact le_min (Nat.le_succ _) le_rfl

theorem placed_unique (size : boundaries.length = shots.length + 1)
    (distinct : (shots.map (·.targetId)).Nodup) {placed placed' : SampledShot × Int × Int}
    (mem : placed ∈ shots.zip (Lib.spans boundaries))
    (mem' : placed' ∈ shots.zip (Lib.spans boundaries))
    (same : placed.1.targetId = placed'.1.targetId) : placed = placed' := by
  rw [← map_fst_placed size, List.map_map] at distinct
  exact List.inj_on_of_nodup_map distinct mem mem' same

/-- A frame lies in the interval of its own shot exactly when all frames of the shot do. -/
theorem inside_iff (consecutive : ConsecutiveShots mediaDurationUs shots)
    (size : boundaries.length = shots.length + 1) :
    (∀ frame ∈ sampledFrames shots, ∃ record ∈ shotRecords (shots.map (·.range)) boundaries,
      memberOf (shots.map (·.range)) frame.frameId = some record.id ∧
        record.startUs ≤ frame.timestampUs ∧ frame.timestampUs < record.endUs) ↔
    ∀ placed ∈ shots.zip (Lib.spans boundaries),
      placed.2.1 ≤ placed.1.firstUs ∧ placed.1.lastUs < placed.2.2 := by
  have member : ∀ shot ∈ shots, ∀ frame ∈ shot.frames,
      memberOf (shots.map (·.range)) frame.frameId = some shot.targetId :=
    fun shot mem frame there =>
      memberOf_range consecutive.frameIds mem (consecutive.named shot mem) there
  constructor
  · intro inside placed mem
    have of_frame : ∀ frame ∈ placed.1.frames,
        placed.2.1 ≤ frame.timestampUs ∧ frame.timestampUs < placed.2.2 := by
      intro frame there
      have at_ := (List.of_mem_zip mem).1
      obtain ⟨record, listed, same, bounds⟩ := inside frame (mem_sampledFrames.mpr ⟨_, at_, there⟩)
      have fields := List.mem_map_of_mem
        (f := fun record => (record.id, record.startUs, record.endUs)) listed
      rw [fields_shotRecords] at fields
      obtain ⟨placed', mem', split⟩ := List.mem_map.mp fields
      obtain ⟨id, span⟩ := Prod.mk.inj split
      rw [member _ at_ frame there, ← id, Option.some_inj] at same
      rw [← placed_unique size consecutive.shotIds mem mem' same] at span
      rw [span]
      exact bounds
    have nonempty := consecutive.nonempty _ (List.of_mem_zip mem).1
    obtain ⟨first, there, same⟩ := exists_first nonempty
    obtain ⟨last, there', same'⟩ := exists_last nonempty
    rw [same, same']
    exact ⟨(of_frame first there).1, (of_frame last there').2⟩
  · intro fits frame there
    obtain ⟨shot, mem, there⟩ := mem_sampledFrames.mp there
    have listed := mem
    rw [← map_fst_placed size] at listed
    obtain ⟨placed, at_, rfl⟩ := List.mem_map.mp listed
    have fields := List.mem_map_of_mem (f := fun placed : SampledShot × Int × Int =>
      (placed.1.targetId, placed.2)) at_
    rw [← fields_shotRecords] at fields
    obtain ⟨record, written, split⟩ := List.mem_map.mp fields
    obtain ⟨id, span⟩ := Prod.mk.inj split
    have increasing := consecutive.increasing_frames mem
    refine ⟨record, written, ?_, ?_⟩
    · rw [id]
      exact member _ mem frame there
    · obtain ⟨start, stop⟩ := Prod.mk.inj span
      rw [start, stop]
      exact ⟨(fits _ at_).1.trans (firstUs_le increasing there),
        (le_lastUs increasing there).trans_lt (fits _ at_).2⟩

/-- In shots that tile the media, the interval that holds a position is the only one. -/
theorem placeInShots_eq {durationUs : Int} {shots : List ShotRecord}
    (tiled : TilesMedia durationUs shots) (named : ∀ shot ∈ shots, shot.id ≠ "")
    {shot : ShotRecord} (mem : shot ∈ shots) {ptsUs : Int}
    (inside : shot.startUs ≤ ptsUs ∧ ptsUs < shot.endUs) : placeInShots shots ptsUs = [shot.id] := by
  have only := tiled.tiles.filter_eq mem inside
  have read : placeInShots shots ptsUs =
      (shots.filter fun shot => shot.startUs ≤ ptsUs ∧ ptsUs < shot.endUs).map (·.id) := by
    rw [placeInShots, readShotsAsIntervals, List.filter_filter, List.filter_map, List.map_map]
    refine congrArg (List.map ShotRecord.id) (List.filter_congr fun shot there => ?_)
    -- an interval that holds a position is not empty, so the reader keeps it
    have id := named shot there
    have forward : shot.startUs ≤ ptsUs ∧ ptsUs < shot.endUs → shot.startUs < shot.endUs :=
      fun inside => inside.1.trans_lt inside.2
    simpa [id] using fun start stop => forward ⟨start, stop⟩
  rw [read, only, List.map_singleton]

theorem agrees_iff (consecutive : ConsecutiveShots mediaDurationUs shots)
    (size : boundaries.length = shots.length + 1) {scenes : List ColorTimelineRange}
    {timeline : TimelineArtifacts}
    (records : timeline.shots = shotRecords (shots.map (·.range)) boundaries)
    (frames : timeline.frames =
      (samplingOf scenes shots).frames.mapIdx (frameRecord (samplingOf scenes shots)))
    {durationUs : Int} (tiled : TilesMedia durationUs timeline.shots) :
    Agrees timeline ↔ ∀ placed ∈ shots.zip (Lib.spans boundaries),
      placed.2.1 ≤ placed.1.firstUs ∧ placed.1.lastUs < placed.2.2 := by
  rw [← inside_iff consecutive size, ← records]
  have inside_frames := @forall_frameRecords (samplingOf scenes shots)
    fun ptsUs shotId => ∃ record ∈ timeline.shots, shotId = some record.id ∧
      record.startUs ≤ ptsUs ∧ ptsUs < record.endUs
  rw [← frames] at inside_frames
  refine ⟨fun agrees => inside_frames.mp agrees.inside, fun inside => ?_⟩
  have inside := inside_frames.mpr inside
  have named : ∀ shot ∈ timeline.shots, shot.id ≠ "" := by
    intro record mem
    rw [records] at mem
    have fields := List.mem_map_of_mem
      (f := fun record => (record.id, record.startUs, record.endUs)) mem
    rw [fields_shotRecords] at fields
    obtain ⟨placed, at_, split⟩ := List.mem_map.mp fields
    rw [← (Prod.mk.inj split).1]
    exact consecutive.named _ (List.of_mem_zip at_).1
  refine ⟨inside, fun frame mem => ?_⟩
  obtain ⟨shot, there, same, bounds⟩ := inside frame mem
  rw [placeInShots_eq tiled named there bounds, same]
  rfl

theorem Agrees.beforeEnd {scenes : List ColorTimelineRange} {timeline : TimelineArtifacts}
    (frames : timeline.frames =
      (samplingOf scenes shots).frames.mapIdx (frameRecord (samplingOf scenes shots)))
    (tiled : TilesMedia (timelineDurationUs mediaDurationUs (sampledFrames shots)) timeline.shots)
    (agrees : Agrees timeline) : BeforeEnd mediaDurationUs shots := by
  have inside := agrees.inside
  rw [frames] at inside
  have inside_frames := (@forall_frameRecords (samplingOf scenes shots)
    fun ptsUs shotId => ∃ record ∈ timeline.shots, shotId = some record.id ∧
      record.startUs ≤ ptsUs ∧ ptsUs < record.endUs).mp inside
  intro frame there
  obtain ⟨record, mem, -, -, before⟩ := inside_frames frame there
  exact before.trans_le (tiled.tiles.mem mem).2

theorem placed_raise_iff (consecutive : ConsecutiveShots mediaDurationUs shots)
    (before : BeforeEnd mediaDurationUs shots) :
    (∀ placed ∈ shots.zip (Lib.spans (0 :: Lib.raise 1 0 (cutsOf shots ++
        [timelineDurationUs mediaDurationUs (sampledFrames shots)]))),
      placed.2.1 ≤ placed.1.firstUs ∧ placed.1.lastUs < placed.2.2) ↔
    ∀ i (inside : i + 1 < shots.length),
      shots[i].lastUs + 1 < shots[i + 1].firstUs ∨ shots[i].lastUs = i := by
  have before := before.lastUs consecutive
  obtain ⟨shot, rest, rfl⟩ := List.exists_cons_of_ne_nil consecutive.sampled
  have first := (consecutive.started shot List.mem_cons_self).1
  rw [placed_iff consecutive.ordered (startsAt_zero first) before]
  simp only [Nat.zero_add]

/-- The timeline tiles the media and puts every frame in one shot exactly when every frame is
before the end and every cut is clear. -/
theorem timeline_agrees_iff (consecutive : ConsecutiveShots mediaDurationUs shots)
    (scenes : List ColorTimelineRange) :
    (∃ timeline, writeTimelineArtifacts mediaDurationUs (samplingOf scenes shots) = some timeline ∧
      TilesMedia (timelineDurationUs mediaDurationUs (sampledFrames shots)) timeline.shots ∧
      Agrees timeline) ↔
    BeforeEnd mediaDurationUs shots ∧
      ∀ i (inside : i + 1 < shots.length), ClearCut i shots[i] shots[i + 1] := by
  have length : ∀ {boundaries}, shotBoundaries
      (timelineDurationUs mediaDurationUs (sampledFrames shots))
      (frameTsMap (sampledFrames shots)) (shots.map (·.range)) = some boundaries →
      boundaries.length = shots.length + 1 := by
    intro boundaries found
    have size := (settled_shotBoundaries consecutive.duration_nonneg
      (List.map_eq_nil_iff.not.mpr consecutive.sampled) found).2
    rwa [List.length_map] at size
  have sums : shots.IsChain (fun prev curr => prev.lastUs + curr.firstUs < 2 ^ 63) ↔
      ∀ i (inside : i + 1 < shots.length), shots[i].lastUs + shots[i + 1].firstUs < 2 ^ 63 :=
    List.isChain_iff_getElem
  constructor
  · rintro ⟨timeline, written, tiled, agrees⟩
    obtain ⟨boundaries, found, rfl⟩ := Option.map_eq_some_iff.mp written
    have before := agrees.beforeEnd rfl tiled
    have placed := (agrees_iff consecutive (length found) rfl rfl tiled).mp agrees
    obtain ⟨fits, rfl⟩ := (shotBoundaries_eq_some consecutive before).mp found
    have clear := (placed_raise_iff consecutive before).mp placed
    exact ⟨before, fun i inside => ⟨sums.mp fits i inside, clear i inside⟩⟩
  · rintro ⟨before, clear⟩
    have fits := sums.mpr fun i inside => (clear i inside).1
    have found := (shotBoundaries_eq_some consecutive before).mpr ⟨fits, rfl⟩
    have placed := (placed_raise_iff consecutive before).mpr fun i inside => (clear i inside).2
    have written : writeTimelineArtifacts mediaDurationUs (samplingOf scenes shots) = _ :=
      Option.map_eq_some_iff.mpr ⟨_, found, rfl⟩
    have tiled := tilesMedia_writeTimelineArtifacts consecutive.duration_nonneg
      (List.map_eq_nil_iff.not.mpr consecutive.sampled) written
    exact ⟨_, written, tiled, (agrees_iff consecutive (length found) rfl rfl tiled).mpr placed⟩

end Agreement

/-- Two shots of three frames. -/
def sampleShots : List SampledShot :=
  [⟨"shot_000001", 0, 500000, [⟨"frame_000001", 0⟩, ⟨"frame_000002", 500000⟩]⟩,
    ⟨"shot_000002", 1000000, 1000000, [⟨"frame_000003", 1000000⟩]⟩]

theorem timeline_agrees_sample :
    ∃ timeline, writeTimelineArtifacts 1500000 (samplingOf [] sampleShots) = some timeline ∧
      TilesMedia 1500000 timeline.shots ∧ Agrees timeline := by
  have consecutive : ConsecutiveShots 1500000 sampleShots :=
    ⟨by decide, by decide, by decide, by decide, by decide, by decide, by decide⟩
  refine (timeline_agrees_iff consecutive []).mpr ⟨by unfold BeforeEnd; decide, fun i inside => ?_⟩
  obtain rfl : i = 0 := Nat.lt_one_iff.mp (Nat.lt_of_succ_lt_succ inside)
  exact ⟨by decide +revert, .inl (by decide +revert)⟩

/-- Without a media duration the last frame is at the end of the timeline and in no interval. -/
theorem last_frame_in_no_shot : ConsecutiveShots 0 sampleShots ∧
    ¬ ∃ timeline, writeTimelineArtifacts 0 (samplingOf [] sampleShots) = some timeline ∧
      TilesMedia (timelineDurationUs 0 (sampledFrames sampleShots)) timeline.shots ∧
      Agrees timeline := by
  have consecutive : ConsecutiveShots 0 sampleShots :=
    ⟨by decide, by decide, by decide, by decide, by decide, by decide, by decide⟩
  refine ⟨consecutive, ?_⟩
  rintro ⟨timeline, written, tiled, agrees⟩
  have before := agrees.beforeEnd (frames_writeTimelineArtifacts written) tiled
  exact absurd (before ⟨"frame_000003", 1000000⟩ (by decide)) (by decide)

end Svp.Package

import Svp.Audio.VadTimeMapper
import Svp.Lib.Tiling

/-!
# Packed speech and its time map

`packVadSpeechSamples` copies the samples of each segment of speech into a buffer, with
some overlap and a short silence behind every segment but the last.
`buildVadTimeMapper` goes through the same segments on its own and notes where each
starts and ends in that buffer.

The two agree on every offset, and the map follows the segments (`vadSpeech_spec`). At
the start of a segment an end still belongs to the speech before it
(`end_at_processed_start`).
-/

namespace Svp.Audio

open Lib (slice overwrite)

/-- In centiseconds. -/
structure VadSegment where
  t0 : ℚ
  t1 : ℚ

namespace VadSegment

def originalStart (segment : VadSegment) : Int := llround segment.t0

def originalEnd (segment : VadSegment) : Int := llround segment.t1

def segmentStartSamples (sampleCount : Int) (segment : VadSegment) : Int :=
  max 0 (min (centisecondsToSamples segment.originalStart) (sampleCount - 1))

def segmentEndSamples (sampleCount : Int) (segment : VadSegment) : Int :=
  max 0 (min (centisecondsToSamples segment.originalEnd) (sampleCount - 1))

/-- Every segment but the last is copied with the overlap. -/
def copiedSegmentEndSamples (sampleCount overlapSamples : Int) (segment : VadSegment)
    (next : Option VadSegment) : Int :=
  match next with
  | some _ => min (segment.segmentEndSamples sampleCount + overlapSamples) (sampleCount - 1)
  | none => segment.segmentEndSamples sampleCount

def segmentLength (sampleCount overlapSamples : Int) (segment : VadSegment) (next : Option VadSegment) :
    Int :=
  segment.copiedSegmentEndSamples sampleCount overlapSamples next - segment.segmentStartSamples sampleCount

end VadSegment

/-- A tenth of a second. -/
def silenceSamples : Int := 1600

/-! ## The mapper -/

structure MapperState where
  mapper : VadTimeMapper
  processedOffsetSamples : Int

namespace MapperState

/-- Where a segment starts that is reached in this state. -/
def processedSegmentStart (st : MapperState) : Int := samplesToCentiseconds st.processedOffsetSamples

def processedSegmentEnd (st : MapperState) (sampleCount : Int) (segment : VadSegment) : Int :=
  samplesToCentiseconds (st.processedOffsetSamples +
    (segment.segmentEndSamples sampleCount - segment.segmentStartSamples sampleCount))

end MapperState

def mapSegment (sampleCount overlapSamples : Int) (st : MapperState) (segment : VadSegment)
    (next : Option VadSegment) : MapperState :=
  if segment.segmentLength sampleCount overlapSamples next ≤ 0 then st
  else
    let processedSegmentStart := st.processedSegmentStart
    let processedSegmentEnd := st.processedSegmentEnd sampleCount segment
    let ranges := st.mapper.processedSpeechRanges ++ [(processedSegmentStart, processedSegmentEnd)]
    let points := appendVadMappingPoint
      (appendVadMappingPoint st.mapper.points processedSegmentStart segment.originalStart)
      processedSegmentEnd segment.originalEnd
    let offset := st.processedOffsetSamples + segment.segmentLength sampleCount overlapSamples next
    match next with
    | some next =>
      { mapper.points := appendVadMappingPoint
          (appendVadMappingPoint points (samplesToCentiseconds offset) segment.originalEnd)
          (samplesToCentiseconds (offset + silenceSamples)) next.originalStart
        mapper.processedSpeechRanges := ranges
        processedOffsetSamples := offset + silenceSamples }
    | none =>
      { mapper.points := points
        mapper.processedSpeechRanges := ranges
        processedOffsetSamples := offset }

/-- The loop over `segments`, with `after` still to come. -/
def mapSegments (sampleCount overlapSamples : Int) (st : MapperState) :
    List VadSegment → List VadSegment → MapperState
  | [], _ => st
  | segment :: rest, after =>
    mapSegments sampleCount overlapSamples
      (mapSegment sampleCount overlapSamples st segment (rest ++ after).head?) rest after

def MapperState.initial : MapperState where
  mapper.points := []
  mapper.processedSpeechRanges := []
  processedOffsetSamples := 0

def buildVadTimeMapper (sampleCount overlapSamples : Int) (segments : List VadSegment) : VadTimeMapper :=
  if sampleCount = 0 then MapperState.initial.mapper
  else (mapSegments sampleCount overlapSamples .initial segments []).mapper

/-! ## The buffer -/

section
variable {Sample : Type} (zero : Sample) (samples : List Sample) (overlapSamples : Int)

structure PackState (Sample : Type) where
  packed : List Sample
  offset : Nat

def packStart (segment : VadSegment) : Int :=
  min (whisperVadCentisecondsToSamples segment.originalStart) (samples.length - 1)

def packEnd (segment : VadSegment) (next : Option VadSegment) : Int :=
  let stop := min (whisperVadCentisecondsToSamples segment.originalEnd) (samples.length - 1 : Int)
  match next with
  | some _ => min (stop + overlapSamples) (samples.length - 1)
  | none => stop

def packSegment (st : PackState Sample) (segment : VadSegment) (next : Option VadSegment) :
    PackState Sample :=
  let start := packStart samples segment
  let length := packEnd samples overlapSamples segment next - start
  if length ≤ 0 then st
  else
    let gap := match next with
      | some _ => silenceSamples.toNat
      | none => 0
    let stop := st.offset + length.toNat + gap
    let grown := st.packed ++ List.replicate (stop - st.packed.length) zero
    { packed := overwrite grown st.offset (slice samples start.toNat length.toNat)
      offset := stop }

def packSegments (st : PackState Sample) : List VadSegment → List VadSegment → PackState Sample
  | [], _ => st
  | segment :: rest, after =>
    packSegments (packSegment zero samples overlapSamples st segment (rest ++ after).head?) rest after

/-- The length of whisper's own buffer, where no start is cut to the samples. -/
def packedSegmentsLength : List VadSegment → Int
  | [] => 0
  | segment :: rest =>
    let stop := whisperVadCentisecondsToSamples segment.originalEnd
    let stop := if rest = [] then stop else stop + overlapSamples
    min stop (samples.length - 1) - whisperVadCentisecondsToSamples segment.originalStart +
      packedSegmentsLength rest

def packVadSpeechSamples (segments : List VadSegment) : List Sample :=
  if samples.isEmpty || segments.isEmpty then []
  else
    let packedLength := packedSegmentsLength samples overlapSamples segments +
      (segments.length - 1) * silenceSamples
    (packSegments zero samples overlapSamples ⟨List.replicate packedLength.toNat zero, 0⟩ segments []).packed

end

/-! ## Part of the way -/

theorem mapSegments_append (sampleCount overlapSamples : Int) (st : MapperState)
    (before rest after : List VadSegment) :
    mapSegments sampleCount overlapSamples st (before ++ rest) after =
      mapSegments sampleCount overlapSamples
        (mapSegments sampleCount overlapSamples st before (rest ++ after)) rest after := by
  induction before generalizing st with
  | nil => rfl
  | cons segment before ih =>
    rw [List.cons_append, mapSegments, ih, mapSegments, List.append_assoc]

theorem packSegments_append {Sample : Type} (zero : Sample) (samples : List Sample) (overlapSamples : Int)
    (pack : PackState Sample) (before rest after : List VadSegment) :
    packSegments zero samples overlapSamples pack (before ++ rest) after =
      packSegments zero samples overlapSamples
        (packSegments zero samples overlapSamples pack before (rest ++ after)) rest after := by
  induction before generalizing pack with
  | nil => rfl
  | cons segment before ih =>
    rw [List.cons_append, packSegments, ih, packSegments, List.append_assoc]

/-! ## Segments in order -/

/-- In order, without overlap, from time zero on. -/
structure InOrder (segments : List VadSegment) : Prop where
  inside : ∀ segment ∈ segments, 0 ≤ segment.t0 ∧ segment.t0 ≤ segment.t1
  apart : segments.Pairwise fun segment next => segment.t1 ≤ next.t0

/-- The positions of samples fit into an `int`. -/
structure FitsInt (sampleCount overlapSamples : Int) (segments : List VadSegment) : Prop where
  ends : ∀ segment ∈ segments, segment.originalEnd * 160 + overlapSamples < 2 ^ 31
  total : sampleCount + segments.length * (overlapSamples + silenceSamples) < 2 ^ 31

/-- The same in whole centiseconds. -/
structure SpeechOrder (segments : List VadSegment) : Prop where
  nonneg : ∀ segment ∈ segments, 0 ≤ segment.originalStart
  forward : ∀ segment ∈ segments, segment.originalStart ≤ segment.originalEnd
  fits : ∀ segment ∈ segments, segment.originalEnd * 160 < 2 ^ 31
  apart : segments.Pairwise fun segment next => segment.originalEnd ≤ next.originalStart

theorem speechOrder {sampleCount overlapSamples : Int} {segments : List VadSegment}
    (inOrder : InOrder segments) (overlap : 0 ≤ overlapSamples)
    (fits : FitsInt sampleCount overlapSamples segments) : SpeechOrder segments where
  nonneg segment member := llround_nonneg (inOrder.inside segment member).1
  forward segment member :=
    llround_mono (inOrder.inside segment member).1 (inOrder.inside segment member).2
  fits segment member := by
    have := fits.ends segment member
    linarith
  apart := by
    refine inOrder.apart.imp_of_mem ?_
    intro segment next member _ le
    have inside := inOrder.inside segment member
    exact llround_mono (inside.1.trans inside.2) le

theorem SpeechOrder.of_append {before rest : List VadSegment} (order : SpeechOrder (before ++ rest)) :
    SpeechOrder rest where
  nonneg segment member := order.nonneg segment (List.mem_append_right _ member)
  forward segment member := order.forward segment (List.mem_append_right _ member)
  fits segment member := order.fits segment (List.mem_append_right _ member)
  apart := (List.pairwise_append.mp order.apart).2.1

namespace SpeechOrder

variable {segment : VadSegment} {rest : List VadSegment} (order : SpeechOrder (segment :: rest))
include order

theorem tail : SpeechOrder rest where
  nonneg other member := order.nonneg other (List.mem_cons_of_mem _ member)
  forward other member := order.forward other (List.mem_cons_of_mem _ member)
  fits other member := order.fits other (List.mem_cons_of_mem _ member)
  apart := order.apart.of_cons

theorem segmentStartSamples_eq (sampleCount : Int) :
    segment.segmentStartSamples sampleCount =
      max 0 (min (segment.originalStart * 160) (sampleCount - 1)) := by
  have forward := order.forward segment List.mem_cons_self
  have fits := order.fits segment List.mem_cons_self
  rw [VadSegment.segmentStartSamples,
    centisecondsToSamples_eq (order.nonneg segment List.mem_cons_self) (by linarith)]

theorem segmentEndSamples_eq (sampleCount : Int) :
    segment.segmentEndSamples sampleCount =
      max 0 (min (segment.originalEnd * 160) (sampleCount - 1)) := by
  have forward := order.forward segment List.mem_cons_self
  have nonneg := order.nonneg segment List.mem_cons_self
  rw [VadSegment.segmentEndSamples,
    centisecondsToSamples_eq (by linarith) (order.fits segment List.mem_cons_self)]

theorem start_le_end (sampleCount : Int) :
    segment.segmentStartSamples sampleCount ≤ segment.segmentEndSamples sampleCount := by
  have forward := order.forward segment List.mem_cons_self
  rw [order.segmentStartSamples_eq, order.segmentEndSamples_eq]
  omega

theorem end_le_start (sampleCount : Int) {next : VadSegment} (member : next ∈ rest) :
    segment.segmentEndSamples sampleCount ≤ next.segmentStartSamples sampleCount := by
  have apart := List.rel_of_pairwise_cons order.apart member
  have nonneg := order.nonneg next (List.mem_cons_of_mem _ member)
  have forward := order.forward next (List.mem_cons_of_mem _ member)
  have fits := order.fits next (List.mem_cons_of_mem _ member)
  rw [order.segmentEndSamples_eq, VadSegment.segmentStartSamples,
    centisecondsToSamples_eq nonneg (by linarith)]
  omega

end SpeechOrder

namespace VadSegment

variable {sampleCount overlapSamples : Int} (segment : VadSegment) (next : Option VadSegment)

theorem segmentStartSamples_nonneg : 0 ≤ segment.segmentStartSamples sampleCount := le_max_left 0 _

theorem segmentEndSamples_lt (nonempty : 0 < sampleCount) :
    segment.segmentEndSamples sampleCount < sampleCount := by
  rw [segmentEndSamples]
  omega

theorem copiedSegmentEndSamples_le (overlap : 0 ≤ overlapSamples) :
    segment.copiedSegmentEndSamples sampleCount overlapSamples next ≤
      segment.segmentEndSamples sampleCount + overlapSamples := by
  unfold copiedSegmentEndSamples
  split <;> omega

theorem segmentEndSamples_le (nonempty : 0 < sampleCount) (overlap : 0 ≤ overlapSamples) :
    segment.segmentEndSamples sampleCount ≤
      segment.copiedSegmentEndSamples sampleCount overlapSamples next := by
  have := segment.segmentEndSamples_lt nonempty
  unfold copiedSegmentEndSamples
  split <;> omega

theorem copiedSegmentEndSamples_lt (nonempty : 0 < sampleCount) :
    segment.copiedSegmentEndSamples sampleCount overlapSamples next < sampleCount := by
  have := segment.segmentEndSamples_lt nonempty
  unfold copiedSegmentEndSamples
  split <;> omega

end VadSegment

/-! ## One segment in the mapper -/

/-- What holds before `rest`, with `used` samples of overlap and silence so far. -/
structure MapperInvariant (sampleCount overlapSamples : Int) (st : MapperState) (rest : List VadSegment)
    (used : Int) : Prop where
  nonneg : 0 ≤ st.processedOffsetSamples
  usedNonneg : 0 ≤ used
  fits : sampleCount + used + rest.length * (overlapSamples + silenceSamples) < 2 ^ 31
  room : ∀ segment ∈ rest, st.processedOffsetSamples ≤ segment.segmentStartSamples sampleCount + used
  ordered : st.mapper.points.Pairwise Before
  processedLe : ∀ point ∈ st.mapper.points, point.processedCentiseconds ≤ st.processedSegmentStart
  originalLe : ∀ point ∈ st.mapper.points, ∀ segment ∈ rest,
    point.originalCentiseconds ≤ segment.originalStart

section
variable {sampleCount overlapSamples used : Int} {st : MapperState} {segment : VadSegment}
  {rest : List VadSegment} (nonempty : 0 < sampleCount) (overlap : 0 ≤ overlapSamples)
  (invariant : MapperInvariant sampleCount overlapSamples st (segment :: rest) used)
include nonempty overlap invariant

theorem MapperInvariant.offset_fits (next : Option VadSegment) :
    st.processedOffsetSamples + segment.segmentLength sampleCount overlapSamples next + silenceSamples <
      2 ^ 31 := by
  have room := invariant.room segment List.mem_cons_self
  have fits := invariant.fits
  have copied := @VadSegment.copiedSegmentEndSamples_lt sampleCount overlapSamples segment next nonempty
  have more : 0 ≤ (rest.length : Int) * (overlapSamples + silenceSamples) :=
    mul_nonneg (Int.natCast_nonneg _) (add_nonneg overlap (by decide))
  rw [List.length_cons, Nat.cast_succ, add_mul, one_mul] at fits
  rw [VadSegment.segmentLength]
  omega

variable (order : SpeechOrder (segment :: rest))
include order

/-- The processed times of a segment, of the offset behind it and of the next start, in order. -/
theorem MapperInvariant.processed_le (next : Option VadSegment) :
    st.processedSegmentStart ≤ st.processedSegmentEnd sampleCount segment ∧
      st.processedSegmentEnd sampleCount segment ≤ samplesToCentiseconds
        (st.processedOffsetSamples + segment.segmentLength sampleCount overlapSamples next) ∧
      samplesToCentiseconds (st.processedOffsetSamples +
          segment.segmentLength sampleCount overlapSamples next + silenceSamples) =
        samplesToCentiseconds (st.processedOffsetSamples +
          segment.segmentLength sampleCount overlapSamples next) + 10 := by
  have fits := invariant.offset_fits nonempty overlap next
  have nonneg := invariant.nonneg
  have ends := segment.segmentEndSamples_le next nonempty overlap
  have starts := order.start_le_end sampleCount
  have silence : silenceSamples = 10 * 160 := rfl
  rw [VadSegment.segmentLength] at fits ⊢
  rw [silence] at fits ⊢
  refine ⟨samplesToCentiseconds_mono nonneg ?_ ?_, samplesToCentiseconds_mono ?_ ?_ ?_, ?_⟩
  · omega
  · omega
  · omega
  · omega
  · omega
  · exact samplesToCentiseconds_add (by omega) (by decide) fits

omit nonempty overlap order in
theorem MapperInvariant.upTo_start :
    UpTo st.mapper.points st.processedSegmentStart segment.originalStart where
  ordered := invariant.ordered
  processedLe := invariant.processedLe
  originalLe point member := invariant.originalLe point member segment List.mem_cons_self

theorem MapperInvariant.upTo_end :
    UpTo (appendVadMappingPoint st.mapper.points st.processedSegmentStart segment.originalStart)
      (st.processedSegmentEnd sampleCount segment) segment.originalEnd :=
  (invariant.upTo_start).append.mono
    (invariant.processed_le nonempty overlap order none).1 (order.forward segment List.mem_cons_self)

/-- The points of a segment that has samples, behind those before its start. -/
theorem points_mapSegment {next : Option VadSegment} (member : ∀ following, next = some following →
    following ∈ rest) (copied : 0 < segment.segmentLength sampleCount overlapSamples next) :
    ∃ extra : List VadTimeMappingPoint, (∀ point ∈ extra, point.originalCentiseconds = segment.originalEnd) ∧
      (mapSegment sampleCount overlapSamples st segment next).mapper.points =
        pointsBefore st.processedSegmentStart st.mapper.points ++
          (pointsBefore (st.processedSegmentEnd sampleCount segment)
            [⟨st.processedSegmentStart, segment.originalStart⟩] ++
          ⟨st.processedSegmentEnd sampleCount segment, segment.originalEnd⟩ :: (extra ++
          next.elim [] fun following =>
            [⟨(mapSegment sampleCount overlapSamples st segment next).processedSegmentStart,
              following.originalStart⟩])) ∧
      UpTo (mapSegment sampleCount overlapSamples st segment next).mapper.points
        (mapSegment sampleCount overlapSamples st segment next).processedSegmentStart
        (next.elim segment.originalEnd VadSegment.originalStart) := by
  have first := invariant.upTo_start
  have second := invariant.upTo_end nonempty overlap order
  obtain ⟨startLe, endLe, gap⟩ := invariant.processed_le nonempty overlap order next
  have speech : appendVadMappingPoint
      (appendVadMappingPoint st.mapper.points st.processedSegmentStart segment.originalStart)
      (st.processedSegmentEnd sampleCount segment) segment.originalEnd =
        pointsBefore st.processedSegmentStart st.mapper.points ++
          (pointsBefore (st.processedSegmentEnd sampleCount segment)
            [⟨st.processedSegmentStart, segment.originalStart⟩] ++
          [⟨st.processedSegmentEnd sampleCount segment, segment.originalEnd⟩]) := by
    rw [second.append_eq, first.pointsBefore_append startLe, List.append_assoc]
  unfold mapSegment
  rw [if_neg (Int.not_le.mpr copied)]
  cases next with
  | none => exact ⟨[], List.forall_mem_nil _, speech, second.append.mono endLe (le_refl _)⟩
  | some following =>
    dsimp only
    generalize samplesToCentiseconds (st.processedOffsetSamples +
      segment.segmentLength sampleCount overlapSamples (some following)) = stop at endLe gap
    have third := second.append.mono endLe (le_refl _)
    have later := List.rel_of_pairwise_cons order.apart (member following rfl)
    have fourth := third.append.mono (show stop ≤ stop + 10 by omega) later
    have silent : pointsBefore (stop + 10) [⟨stop, segment.originalEnd⟩] = [⟨stop, segment.originalEnd⟩] := by
      simp
    unfold MapperState.processedSegmentStart
    unfold MapperState.processedSegmentStart at first second third fourth startLe
    rw [gap]
    -- The end of the speech and the end of the copy may fall on one point.
    obtain ⟨extra, same, ends⟩ : ∃ extra : List VadTimeMappingPoint,
        (∀ point ∈ extra, point.originalCentiseconds = segment.originalEnd) ∧
          pointsBefore stop [⟨st.processedSegmentEnd sampleCount segment, segment.originalEnd⟩] ++
            [⟨stop, segment.originalEnd⟩] =
          ⟨st.processedSegmentEnd sampleCount segment, segment.originalEnd⟩ :: extra := by
      rcases endLe.lt_or_eq with less | equal
      · exact ⟨[⟨stop, segment.originalEnd⟩], by simp, by simp [less]⟩
      · exact ⟨[], List.forall_mem_nil _, by simp [equal]⟩
    refine ⟨extra, same, ?_, fourth.append⟩
    rw [fourth.append_eq, third.pointsBefore_append (by omega), silent, second.pointsBefore_append endLe,
      first.pointsBefore_append startLe, ← List.cons_append, ← ends]
    simp only [List.append_assoc, Option.elim]

/-- After a segment the invariant holds for the rest. -/
theorem mapSegment_invariant :
    MapperInvariant sampleCount overlapSamples
      (mapSegment sampleCount overlapSamples st segment rest.head?) rest
      (used + (overlapSamples + silenceSamples)) := by
  have room := invariant.room segment List.mem_cons_self
  have fits := invariant.fits
  have usedNonneg := invariant.usedNonneg
  rw [List.length_cons, Nat.cast_succ, add_mul, one_mul] at fits
  have silence : silenceSamples = 1600 := rfl
  have started : ∀ next ∈ rest,
      segment.segmentEndSamples sampleCount ≤ next.segmentStartSamples sampleCount :=
    fun _ => order.end_le_start sampleCount
  have starts := order.start_le_end sampleCount
  by_cases copied : segment.segmentLength sampleCount overlapSamples rest.head? ≤ 0
  · unfold mapSegment
    rw [if_pos copied]
    exact
      { nonneg := invariant.nonneg
        usedNonneg := by omega
        fits := by linarith
        room := by
          intro next member
          have := started next member
          omega
        ordered := invariant.ordered
        processedLe := invariant.processedLe
        originalLe := fun point member next member' =>
          invariant.originalLe point member next (List.mem_cons_of_mem _ member') }
  · obtain ⟨extra, -, -, upTo⟩ := points_mapSegment nonempty overlap invariant order
      (fun following found => List.mem_of_mem_head? found) (Int.not_le.mp copied)
    have offset : (mapSegment sampleCount overlapSamples st segment rest.head?).processedOffsetSamples =
        st.processedOffsetSamples + segment.segmentLength sampleCount overlapSamples rest.head? +
          (match rest.head? with
            | some _ => silenceSamples
            | none => 0) := by
      unfold mapSegment
      rw [if_neg copied]
      cases rest.head? with
      | none => exact (add_zero _).symm
      | some next => rfl
    refine ⟨?_, ?_, by linarith, ?_, upTo.ordered, upTo.processedLe, ?_⟩
    · have nonneg := invariant.nonneg
      rw [offset]
      split <;> omega
    · omega
    · intro next member
      have := started next member
      have copiedLe := @VadSegment.copiedSegmentEndSamples_le sampleCount _ segment rest.head? overlap
      rw [offset, VadSegment.segmentLength]
      split <;> omega
    · intro point member next member'
      refine (upTo.originalLe point member).trans ?_
      cases rest with
      | nil => exact absurd member' List.not_mem_nil
      | cons following rest =>
        rcases List.mem_cons.mp member' with rfl | later
        · exact le_refl _
        · have := List.rel_of_pairwise_cons order.tail.apart later
          exact (order.tail.forward following List.mem_cons_self).trans this

end

/-! ## All segments in the mapper -/

section
variable {sampleCount overlapSamples : Int} (nonempty : 0 < sampleCount) (overlap : 0 ≤ overlapSamples)
include nonempty overlap

theorem mapSegments_invariant {before after : List VadSegment} {used : Int} {st : MapperState}
    (order : SpeechOrder (before ++ after))
    (invariant : MapperInvariant sampleCount overlapSamples st (before ++ after) used) :
    ∃ used, MapperInvariant sampleCount overlapSamples
      (mapSegments sampleCount overlapSamples st before after) after used := by
  induction before generalizing st used with
  | nil => exact ⟨used, invariant⟩
  | cons segment rest ih =>
    exact ih order.tail (mapSegment_invariant nonempty overlap invariant order)

/-- What is kept of the points once another segment follows. -/
theorem pointsBefore_mapSegment {st : MapperState} {segment next : VadSegment} {rest : List VadSegment}
    {used : Int} (order : SpeechOrder (segment :: next :: rest))
    (invariant : MapperInvariant sampleCount overlapSamples st (segment :: next :: rest) used)
    (copied : 0 < segment.segmentLength sampleCount overlapSamples (some next)) :
    ∃ extra : List VadTimeMappingPoint, (∀ point ∈ extra, point.originalCentiseconds = segment.originalEnd) ∧
      pointsBefore (mapSegment sampleCount overlapSamples st segment (some next)).processedSegmentStart
          (mapSegment sampleCount overlapSamples st segment (some next)).mapper.points =
        pointsBefore st.processedSegmentStart st.mapper.points ++
          (pointsBefore (st.processedSegmentEnd sampleCount segment)
            [⟨st.processedSegmentStart, segment.originalStart⟩] ++
          ⟨st.processedSegmentEnd sampleCount segment, segment.originalEnd⟩ :: extra) := by
  have member : ∀ following, some next = some following → following ∈ next :: rest :=
    fun following found => List.mem_of_mem_head? found
  obtain ⟨extra, same, points, upTo⟩ := points_mapSegment nonempty overlap invariant order member copied
  refine ⟨extra, same, ?_⟩
  have ordered := upTo.ordered
  rw [points] at ordered ⊢
  dsimp only [Option.elim] at ordered ⊢
  rw [← List.cons_append, ← List.append_assoc, ← List.append_assoc] at ordered ⊢
  rw [pointsBefore_concat ordered, List.append_assoc]

theorem mapSegments_prefix {rest : List VadSegment} {used : Int} {st : MapperState}
    (order : SpeechOrder rest) (invariant : MapperInvariant sampleCount overlapSamples st rest used) :
    pointsBefore st.processedSegmentStart st.mapper.points <+:
      (mapSegments sampleCount overlapSamples st rest []).mapper.points := by
  induction rest generalizing st used with
  | nil => exact pointsBefore_prefix invariant.ordered _
  | cons segment rest ih =>
    have step := mapSegment_invariant nonempty overlap invariant order
    unfold mapSegments
    rw [List.append_nil]
    refine List.IsPrefix.trans ?_ (ih order.tail step)
    by_cases copied : segment.segmentLength sampleCount overlapSamples rest.head? ≤ 0
    · unfold mapSegment
      rw [if_pos copied]
    · obtain ⟨extra, -, points, upTo⟩ := points_mapSegment nonempty overlap invariant order
        (fun following found => List.mem_of_mem_head? found) (Int.not_le.mp copied)
      have startLe := (invariant.processed_le nonempty overlap order none).1
      have le := upTo.processedLe ⟨st.processedSegmentEnd sampleCount segment, segment.originalEnd⟩
        (by rw [points]; simp)
      rw [points]
      unfold pointsBefore
      rw [List.filter_append]
      have kept := pointsBefore_pointsBefore (startLe.trans le) st.mapper.points
      unfold pointsBefore at kept
      rw [kept]
      exact List.prefix_append _ _

/-- The point before a segment is the end of an earlier one. -/
theorem mapSegments_last {before : List VadSegment} {next : VadSegment} {rest : List VadSegment} {used : Int}
    {st : MapperState} (done : List VadSegment) (order : SpeechOrder (before ++ next :: rest))
    (invariant : MapperInvariant sampleCount overlapSamples st (before ++ next :: rest) used)
    (ends : ∀ last, (pointsBefore st.processedSegmentStart st.mapper.points).getLast? = some last →
      ∃ segment ∈ done, last.originalCentiseconds = segment.originalEnd) :
    ∀ last, (pointsBefore
        (mapSegments sampleCount overlapSamples st before (next :: rest)).processedSegmentStart
        (mapSegments sampleCount overlapSamples st before (next :: rest)).mapper.points).getLast? = some last →
      ∃ segment ∈ done ++ before, last.originalCentiseconds = segment.originalEnd := by
  induction before generalizing st used done with
  | nil => rwa [List.append_nil]
  | cons segment before ih =>
    rw [List.cons_append] at order invariant
    have step := mapSegment_invariant nonempty overlap invariant order
    have more := ih (done ++ [segment]) order.tail step
    rw [List.append_assoc, List.singleton_append] at more
    refine more ?_
    intro last isLast
    cases head : (before ++ next :: rest).head? with
    | none => rw [List.head?_eq_none_iff] at head; exact absurd head (by simp)
    | some following =>
      obtain ⟨others, split⟩ := List.head?_eq_some_iff.mp head
      rw [head] at isLast
      rw [split] at order invariant
      by_cases copied : segment.segmentLength sampleCount overlapSamples (some following) ≤ 0
      · unfold mapSegment at isLast
        rw [if_pos copied] at isLast
        obtain ⟨earlier, member, same⟩ := ends last isLast
        exact ⟨earlier, List.mem_append_left _ member, same⟩
      · obtain ⟨extra, same, kept⟩ := pointsBefore_mapSegment nonempty overlap order invariant
          (Int.not_le.mp copied)
        rw [kept, ← List.append_assoc, List.getLast?_append_cons] at isLast
        refine ⟨segment, by simp, ?_⟩
        rcases List.mem_cons.mp (List.mem_of_getLast? isLast) with rfl | member
        · rfl
        · exact same last member

end

/-- What the map does with the times of a segment. -/
structure FollowsSegment (sampleCount : Int) (mapper : VadTimeMapper) (segment : VadSegment)
    (earlier : List VadSegment) (processedStart processedEnd : Int) : Prop where
  onset_start : processedStart < processedEnd ∨ segment.originalStart = segment.originalEnd →
    mapper.mapCentiseconds processedStart true = segment.originalStart
  onset_end : mapper.mapCentiseconds processedEnd true = segment.originalEnd
  onset_inside : ∀ processed, processedStart ≤ processed → processed ≤ processedEnd →
    segment.originalStart ≤ mapper.mapCentiseconds processed true ∧
      mapper.mapCentiseconds processed true ≤ segment.originalEnd
  end_start : mapper.mapCentiseconds processedStart false = segment.originalStart ∨
    (processedStart = processedEnd ∧
      mapper.mapCentiseconds processedStart false = segment.originalEnd) ∨
    ∃ before ∈ earlier, mapper.mapCentiseconds processedStart false = before.originalEnd
  /-- A segment that reaches beyond the samples is left out here. -/
  end_end : segment.originalEnd * 160 < sampleCount → processedStart < processedEnd →
    mapper.mapCentiseconds processedEnd false = segment.originalEnd
  end_inside : ∀ processed, processedStart < processed → processed ≤ processedEnd →
    segment.originalStart ≤ mapper.mapCentiseconds processed false ∧
      mapper.mapCentiseconds processed false ≤ segment.originalEnd

section
variable {sampleCount overlapSamples used : Int} {st : MapperState} {segment : VadSegment}
  {rest : List VadSegment} (nonempty : 0 < sampleCount) (overlap : 0 ≤ overlapSamples)
  (order : SpeechOrder (segment :: rest))
  (invariant : MapperInvariant sampleCount overlapSamples st (segment :: rest) used)
include nonempty overlap order invariant

theorem mapSegments_points (copied : 0 < segment.segmentLength sampleCount overlapSamples rest.head?) :
    ∃ tail, (mapSegments sampleCount overlapSamples st (segment :: rest) []).mapper.points =
      pointsBefore st.processedSegmentStart st.mapper.points ++
        (pointsBefore (st.processedSegmentEnd sampleCount segment)
          [⟨st.processedSegmentStart, segment.originalStart⟩] ++
        ⟨st.processedSegmentEnd sampleCount segment, segment.originalEnd⟩ :: tail) := by
  cases rest with
  | nil =>
    obtain ⟨extra, -, points, -⟩ := points_mapSegment nonempty overlap invariant order
      (fun following found => List.mem_of_mem_head? found) copied
    exact ⟨_, points⟩
  | cons following rest =>
    obtain ⟨extra, -, kept⟩ := pointsBefore_mapSegment nonempty overlap order invariant copied
    obtain ⟨tail, points⟩ := mapSegments_prefix nonempty overlap order.tail
      (mapSegment_invariant nonempty overlap invariant order)
    refine ⟨extra ++ tail, ?_⟩
    unfold mapSegments
    rw [List.append_nil, ← points]
    dsimp only [List.head?]
    rw [kept]
    simp only [List.append_assoc, List.cons_append]

/-- A segment that ends within the samples is as long in the buffer as in the recording. -/
theorem processedSegmentEnd_eq (uncut : segment.originalEnd * 160 < sampleCount) :
    st.processedSegmentEnd sampleCount segment =
      st.processedSegmentStart + (segment.originalEnd - segment.originalStart) := by
  have nonneg := order.nonneg segment List.mem_cons_self
  have forward := order.forward segment List.mem_cons_self
  have fits := invariant.offset_fits nonempty overlap none
  have silence : silenceSamples = 1600 := rfl
  have start : segment.segmentStartSamples sampleCount = segment.originalStart * 160 := by
    rw [order.segmentStartSamples_eq]
    omega
  have stop : segment.segmentEndSamples sampleCount = segment.originalEnd * 160 := by
    rw [order.segmentEndSamples_eq]
    omega
  rw [VadSegment.segmentLength, VadSegment.copiedSegmentEndSamples, start, stop] at fits
  rw [MapperState.processedSegmentEnd, MapperState.processedSegmentStart, start, stop, ← sub_mul]
  exact samplesToCentiseconds_add invariant.nonneg (by omega) (by omega)

theorem mapSegments_follows (copied : 0 < segment.segmentLength sampleCount overlapSamples rest.head?)
    {earlier : List VadSegment}
    (ends : ∀ last, (pointsBefore st.processedSegmentStart st.mapper.points).getLast? = some last →
      ∃ segment ∈ earlier, last.originalCentiseconds = segment.originalEnd) :
    FollowsSegment sampleCount (mapSegments sampleCount overlapSamples st (segment :: rest) []).mapper
      segment earlier st.processedSegmentStart (st.processedSegmentEnd sampleCount segment) := by
  have forward := order.forward segment List.mem_cons_self
  have le := (invariant.processed_le nonempty overlap order none).1
  obtain ⟨tail, points⟩ := mapSegments_points nonempty overlap order invariant copied
  have ordered : (mapSegments sampleCount overlapSamples st (segment :: rest) []).mapper.points.Pairwise
      Before := by
    obtain ⟨_, invariant⟩ := @mapSegments_invariant _ _ nonempty overlap (segment :: rest) [] used st
      (by rwa [List.append_nil]) (by rwa [List.append_nil])
    exact invariant.ordered
  generalize mapSegments sampleCount overlapSamples st (segment :: rest) [] = final at points ordered
  have lengths := processedSegmentEnd_eq nonempty overlap order invariant
  generalize st.processedSegmentEnd sampleCount segment = processedEnd at points le lengths
  generalize pointsBefore st.processedSegmentStart st.mapper.points = front at points ends
  generalize st.processedSegmentStart = processedStart at points le lengths
  have mono := @VadTimeMapper.mapCentiseconds_mono final.mapper ordered
  -- The end of the segment is a point, with or without its start before it.
  have last := fun isOnset => VadTimeMapper.mapCentiseconds_point isOnset
    (points.trans (List.append_assoc _ _ _).symm) ordered
  have onsetEnd : final.mapper.mapCentiseconds processedEnd true = segment.originalEnd := by
    rcases last true with same | ⟨absurd, -⟩
    · exact same
    · cases absurd
  rcases le.lt_or_eq with less | equal
  · have started : pointsBefore processedEnd [⟨processedStart, segment.originalStart⟩] =
        [⟨processedStart, segment.originalStart⟩] := by
      simpa [pointsBefore] using less
    rw [started, List.singleton_append] at points
    have before : Before ⟨processedStart, segment.originalStart⟩ ⟨processedEnd, segment.originalEnd⟩ :=
      ⟨less, forward⟩
    have onsetStart : final.mapper.mapCentiseconds processedStart true = segment.originalStart := by
      rcases VadTimeMapper.mapCentiseconds_point true points ordered with same | ⟨absurd, -⟩
      · exact same
      · cases absurd
    refine ⟨fun _ => onsetStart, onsetEnd, ?_, ?_, ?_, ?_⟩
    · intro processed after upTo
      have low := mono true after
      have high := mono true upTo
      rw [onsetStart] at low
      rw [onsetEnd] at high
      exact ⟨low, high⟩
    · rcases VadTimeMapper.mapCentiseconds_point false points ordered with same | ⟨-, before, isLast, same⟩
      · exact .inl same
      · obtain ⟨earlier, member, ends⟩ := ends before isLast
        exact .inr (.inr ⟨earlier, member, same.trans ends⟩)
    · intro uncut _
      have length := lengths uncut
      rw [VadTimeMapper.mapCentiseconds_between false points ordered less (le_refl _)]
      refine (mapBetween_end before false).trans (if_neg ?_)
      have slack : kVadSyntheticGapSlackCentiseconds = 5 := rfl
      dsimp only
      omega
    · intro processed after upTo
      rw [VadTimeMapper.mapCentiseconds_between false points ordered after upTo]
      exact ⟨le_mapBetween before false after, mapBetween_le before false after upTo⟩
  · subst equal
    have started : pointsBefore processedStart [⟨processedStart, segment.originalStart⟩] = [] := by
      simp [pointsBefore]
    rw [started, List.nil_append] at points
    refine ⟨?_, onsetEnd, ?_, ?_, fun _ less => absurd less (lt_irrefl _), ?_⟩
    · rintro (less | same)
      · exact absurd less (lt_irrefl _)
      · rw [onsetEnd, same]
    · intro processed after upTo
      rw [le_antisymm upTo after, onsetEnd]
      exact ⟨forward, le_refl _⟩
    · rcases VadTimeMapper.mapCentiseconds_point false points ordered with same | ⟨-, before, isLast, same⟩
      · exact .inr (.inl ⟨rfl, same⟩)
      · obtain ⟨earlier, member, ends⟩ := ends before isLast
        exact .inr (.inr ⟨earlier, member, same.trans ends⟩)
    · intro processed after upTo
      exact absurd (after.trans_le upTo) (lt_irrefl _)

end

/-! ## The buffer keeps step -/

section
variable {Sample : Type} {zero : Sample} {samples : List Sample} {overlapSamples : Int}

theorem packStart_eq {segment : VadSegment} {rest : List VadSegment} (order : SpeechOrder (segment :: rest))
    (nonempty : 0 < (samples.length : Int)) :
    packStart samples segment = segment.segmentStartSamples samples.length := by
  have nonneg := order.nonneg segment List.mem_cons_self
  have forward := order.forward segment List.mem_cons_self
  have fits := order.fits segment List.mem_cons_self
  rw [packStart, order.segmentStartSamples_eq, whisperVadCentisecondsToSamples_eq nonneg (by linarith)]
  omega

theorem packEnd_eq {segment : VadSegment} {rest : List VadSegment} (order : SpeechOrder (segment :: rest))
    (nonempty : 0 < (samples.length : Int)) (next : Option VadSegment) :
    packEnd samples overlapSamples segment next =
      segment.copiedSegmentEndSamples samples.length overlapSamples next := by
  have nonneg := order.nonneg segment List.mem_cons_self
  have forward := order.forward segment List.mem_cons_self
  have fits := order.fits segment List.mem_cons_self
  have same : min (whisperVadCentisecondsToSamples segment.originalEnd) (samples.length - 1 : Int) =
      segment.segmentEndSamples samples.length := by
    rw [order.segmentEndSamples_eq, whisperVadCentisecondsToSamples_eq (by linarith) fits]
    omega
  unfold packEnd VadSegment.copiedSegmentEndSamples
  rw [same]

/-- The two loops are at the same offset. -/
structure Synced (st : MapperState) (pack : PackState Sample) : Prop where
  offset : st.processedOffsetSamples = pack.offset
  room : pack.offset ≤ pack.packed.length

/-- A segment with samples is written into the buffer, once it is long enough. -/
theorem packSegment_cases (pack : PackState Sample) (segment : VadSegment) (next : Option VadSegment) :
    (packEnd samples overlapSamples segment next - packStart samples segment ≤ 0 ∧
      packSegment zero samples overlapSamples pack segment next = pack) ∨
    (0 < packEnd samples overlapSamples segment next - packStart samples segment ∧
      ∃ fill stop, stop = pack.offset +
          (packEnd samples overlapSamples segment next - packStart samples segment).toNat +
          next.elim 0 (fun _ => silenceSamples.toNat) ∧
        stop ≤ (pack.packed ++ fill).length ∧
        packSegment zero samples overlapSamples pack segment next =
          { packed := overwrite (pack.packed ++ fill) pack.offset
              (slice samples (packStart samples segment).toNat
                (packEnd samples overlapSamples segment next - packStart samples segment).toNat)
            offset := stop }) := by
  unfold packSegment
  dsimp only
  split
  next empty => exact .inl ⟨empty, rfl⟩
  next copied =>
    refine .inr ⟨Int.not_le.mp copied, _, _, ?_, ?_, rfl⟩
    · cases next <;> rfl
    · rw [List.length_append, List.length_replicate]
      exact Nat.le_add_of_sub_le (le_refl _) |>.trans_eq (Nat.add_comm _ _)

theorem packSegment_room (pack : PackState Sample) (segment : VadSegment) (next : Option VadSegment)
    (room : pack.offset ≤ pack.packed.length) :
    pack.offset ≤ (packSegment zero samples overlapSamples pack segment next).offset ∧
      (packSegment zero samples overlapSamples pack segment next).offset ≤
        (packSegment zero samples overlapSamples pack segment next).packed.length := by
  rcases packSegment_cases pack segment next with ⟨-, same⟩ | ⟨-, fill, stop, eq, inside, added⟩
  · rw [same]
    exact ⟨le_refl _, room⟩
  · rw [added]
    dsimp only
    refine ⟨by omega, inside.trans (Lib.length_le_overwrite _ ?_)⟩
    omega

theorem packSegment_keeps (pack : PackState Sample) (segment : VadSegment) (next : Option VadSegment)
    (room : pack.offset ≤ pack.packed.length) {start length : Nat} (before : start + length ≤ pack.offset) :
    slice (packSegment zero samples overlapSamples pack segment next).packed start length =
      slice pack.packed start length := by
  rcases packSegment_cases pack segment next with ⟨-, same⟩ | ⟨-, fill, stop, eq, inside, added⟩
  · rw [same]
  · rw [added]
    dsimp only
    rw [Lib.slice_overwrite_before _ before (by omega)]
    have first := @Lib.slice_part _ [] pack.packed fill start length (before.trans room)
    rwa [List.nil_append, List.length_nil, Nat.zero_add] at first

theorem packSegments_keeps {rest after : List VadSegment} {pack : PackState Sample}
    (room : pack.offset ≤ pack.packed.length) {start length : Nat} (before : start + length ≤ pack.offset) :
    slice (packSegments zero samples overlapSamples pack rest after).packed start length =
      slice pack.packed start length := by
  induction rest generalizing pack with
  | nil => rfl
  | cons segment rest ih =>
    obtain ⟨later, roomy⟩ := packSegment_room pack segment (rest ++ after).head? room
    exact (ih roomy (before.trans later)).trans (packSegment_keeps pack segment _ room before)

section
variable {segment : VadSegment} {rest : List VadSegment} (order : SpeechOrder (segment :: rest))
  (nonempty : 0 < (samples.length : Int)) {st : MapperState} {pack : PackState Sample}
  (synced : Synced st pack)
include order nonempty synced

theorem packSegment_synced (next : Option VadSegment) :
    Synced (mapSegment samples.length overlapSamples st segment next)
      (packSegment zero samples overlapSamples pack segment next) := by
  refine ⟨?_, (packSegment_room pack segment next synced.room).2⟩
  have cases := @packSegment_cases _ zero samples overlapSamples pack segment next
  rw [packStart_eq order nonempty, packEnd_eq order nonempty] at cases
  rcases cases with ⟨empty, same⟩ | ⟨copied, fill, stop, eq, -, added⟩
  · rw [same, mapSegment, VadSegment.segmentLength, if_pos empty]
    exact synced.offset
  · rw [added, mapSegment, VadSegment.segmentLength, if_neg (Int.not_le.mpr copied)]
    dsimp only
    rw [eq]
    have offset := synced.offset
    have silence : silenceSamples = 1600 := rfl
    cases next with
    | none =>
      dsimp only [Option.elim]
      omega
    | some next =>
      dsimp only [Option.elim]
      omega

omit synced in
/-- The audio of a segment lies at the offset the mapper has for it. -/
theorem packSegment_copied (next : Option VadSegment)
    (copied : 0 < segment.segmentLength samples.length overlapSamples next) :
    slice (packSegment zero samples overlapSamples pack segment next).packed pack.offset
        (segment.segmentLength samples.length overlapSamples next).toNat =
      slice samples (segment.segmentStartSamples samples.length).toNat
        (segment.segmentLength samples.length overlapSamples next).toNat ∧
    pack.offset + (segment.segmentLength samples.length overlapSamples next).toNat ≤
      (packSegment zero samples overlapSamples pack segment next).offset := by
  have cases := @packSegment_cases _ zero samples overlapSamples pack segment next
  rw [packStart_eq order nonempty, packEnd_eq order nonempty] at cases
  have stop := @VadSegment.copiedSegmentEndSamples_lt samples.length overlapSamples segment next nonempty
  have start := @VadSegment.segmentStartSamples_nonneg samples.length segment
  unfold VadSegment.segmentLength at copied ⊢
  rcases cases with ⟨empty, -⟩ | ⟨-, fill, stop, eq, inside, added⟩
  · exact absurd copied (Int.not_lt.mpr empty)
  · rw [added]
    dsimp only
    have part := @Lib.length_slice _ samples (segment.segmentStartSamples samples.length).toNat
      (segment.copiedSegmentEndSamples samples.length overlapSamples next -
        segment.segmentStartSamples samples.length).toNat (by omega)
    refine ⟨?_, by omega⟩
    have whole := @Lib.slice_overwrite _ (PackState.packed pack ++ fill) pack.offset
      (slice samples (segment.segmentStartSamples samples.length).toNat
        (segment.copiedSegmentEndSamples samples.length overlapSamples next -
          segment.segmentStartSamples samples.length).toNat) (by rw [part]; omega)
    rwa [part] at whole

end

theorem packSegments_synced {before after : List VadSegment} (order : SpeechOrder (before ++ after))
    (nonempty : 0 < (samples.length : Int)) {st : MapperState} {pack : PackState Sample}
    (synced : Synced st pack) :
    Synced (mapSegments samples.length overlapSamples st before after)
      (packSegments zero samples overlapSamples pack before after) := by
  induction before generalizing st pack with
  | nil => exact synced
  | cons segment before ih => exact ih order.tail (packSegment_synced order nonempty synced _)

end

/-! ## The map follows the buffer -/

theorem initial_invariant {sampleCount overlapSamples : Int} {segments : List VadSegment}
    (fits : FitsInt sampleCount overlapSamples segments) :
    MapperInvariant sampleCount overlapSamples .initial segments 0 where
  nonneg := le_refl _
  usedNonneg := le_refl _
  fits := by
    rw [add_zero]
    exact fits.total
  room segment _ := by
    rw [add_zero]
    exact segment.segmentStartSamples_nonneg
  ordered := List.Pairwise.nil
  processedLe := List.forall_mem_nil _
  originalLe := List.forall_mem_nil _

/-- Every segment lies in the buffer where the mapper has it, and the map keeps the order of
times and takes those of a segment into it. -/
theorem vadSpeech_spec {Sample : Type} (zero : Sample) (samples : List Sample) (overlapSamples : Nat)
    (segments : List VadSegment) (inOrder : InOrder segments)
    (fits : FitsInt samples.length overlapSamples segments) :
    (∀ isOnset first second, first ≤ second →
      (buildVadTimeMapper samples.length overlapSamples segments).mapCentiseconds first isOnset ≤
        (buildVadTimeMapper samples.length overlapSamples segments).mapCentiseconds second isOnset) ∧
    ∀ before segment after, segments = before ++ segment :: after →
      0 < segment.segmentLength samples.length overlapSamples after.head? →
      let st := mapSegments samples.length overlapSamples .initial before (segment :: after)
      (∃ offset : Nat, st.processedOffsetSamples = offset ∧
        slice (packVadSpeechSamples zero samples overlapSamples segments) offset
            (segment.segmentLength samples.length overlapSamples after.head?).toNat =
          slice samples (segment.segmentStartSamples samples.length).toNat
            (segment.segmentLength samples.length overlapSamples after.head?).toNat) ∧
      FollowsSegment samples.length (buildVadTimeMapper samples.length overlapSamples segments) segment
        before st.processedSegmentStart (st.processedSegmentEnd samples.length segment) := by
  have overlap : (0 : Int) ≤ overlapSamples := Int.natCast_nonneg _
  have order := speechOrder inOrder overlap fits
  have invariant := initial_invariant fits
  rcases Nat.eq_zero_or_pos samples.length with empty | nonempty
  · refine ⟨?_, ?_⟩
    · intro isOnset first second le
      rw [buildVadTimeMapper, if_pos (by exact_mod_cast empty)]
      exact VadTimeMapper.mapCentiseconds_mono List.Pairwise.nil isOnset le
    · intro before segment after _ copied
      have start := @VadSegment.segmentStartSamples_nonneg samples.length segment
      have stop : segment.copiedSegmentEndSamples samples.length overlapSamples after.head? ≤ 0 := by
        unfold VadSegment.copiedSegmentEndSamples VadSegment.segmentEndSamples
        rw [empty]
        split <;> omega
      rw [VadSegment.segmentLength] at copied
      omega
  have nonempty : 0 < (samples.length : Int) := by exact_mod_cast nonempty
  have built : buildVadTimeMapper samples.length overlapSamples segments =
      (mapSegments samples.length overlapSamples .initial segments []).mapper :=
    if_neg (ne_of_gt nonempty)
  have recorded : samples ≠ [] := by
    rintro rfl
    exact lt_irrefl _ nonempty
  rw [built]
  refine ⟨?_, ?_⟩
  · intro isOnset first second le
    obtain ⟨_, last⟩ := @mapSegments_invariant _ _ nonempty overlap segments [] 0 .initial
      (by rwa [List.append_nil]) (by rwa [List.append_nil])
    exact VadTimeMapper.mapCentiseconds_mono last.ordered isOnset le
  rintro before segment after rfl copied
  obtain ⟨used, reached⟩ := mapSegments_invariant nonempty overlap order invariant
  have last := mapSegments_last nonempty overlap [] order invariant (by simp [MapperState.initial])
  have here := order.of_append
  rw [mapSegments_append, List.append_nil]
  have follows := mapSegments_follows nonempty overlap here reached copied last
  refine ⟨?_, follows⟩
  -- The mapper and the buffer have gone the same way so far.
  unfold packVadSpeechSamples
  rw [if_neg (by simp [recorded])]
  dsimp only
  rw [packSegments_append, List.append_nil]
  generalize (packedSegmentsLength samples overlapSamples (before ++ segment :: after) + _).toNat = room
  have synced := @packSegments_synced _ zero samples overlapSamples _ _ order nonempty .initial
    ⟨List.replicate room zero, 0⟩ ⟨rfl, Nat.zero_le _⟩
  generalize packSegments zero samples overlapSamples _ before (segment :: after) = pack at synced
  refine ⟨pack.offset, synced.offset, ?_⟩
  obtain ⟨slices, inside⟩ := @packSegment_copied _ zero _ _ _ _ here nonempty pack after.head? copied
  unfold packSegments
  rw [List.append_nil]
  have later := @packSegment_room _ zero samples overlapSamples pack segment after.head? synced.room
  rw [packSegments_keeps later.2 inside, slices]

theorem vadSpeech_twoSegments :
    FollowsSegment 600 (buildVadTimeMapper 600 160 [⟨0, 1⟩, ⟨2, 3⟩]) ⟨2, 3⟩ [⟨0, 1⟩] 12 13 := by
  have inOrder : InOrder [⟨0, 1⟩, ⟨2, 3⟩] := by
    constructor <;> norm_num
  have fits : FitsInt (List.replicate 600 0 : List Nat).length (160 : Nat) [⟨0, 1⟩, ⟨2, 3⟩] := by
    rw [List.length_replicate]
    constructor <;> decide +kernel
  have spec := (vadSpeech_spec 0 (List.replicate 600 0) 160 _ inOrder fits).2 [⟨0, 1⟩] ⟨2, 3⟩ [] rfl
    (by rw [List.length_replicate]; decide +kernel)
  rw [List.length_replicate] at spec
  have start : (mapSegments (600 : Nat) (160 : Nat) .initial [⟨0, 1⟩] [⟨2, 3⟩]).processedSegmentStart = 12 := by
    decide +kernel
  have stop : (mapSegments (600 : Nat) (160 : Nat) .initial [⟨0, 1⟩] [⟨2, 3⟩]).processedSegmentEnd
      (600 : Nat) ⟨2, 3⟩ = 13 := by
    decide +kernel
  have follows := spec.2
  rw [start, stop] at follows
  exact follows

/-- An end at the start of a segment is still that of the speech before the silence. -/
theorem end_at_processed_start :
    InOrder [⟨0, 10⟩, ⟨100, 110⟩] ∧ FitsInt 32000 1600 [⟨0, 10⟩, ⟨100, 110⟩] ∧
      0 < VadSegment.segmentLength 32000 1600 ⟨100, 110⟩ none ∧
      (buildVadTimeMapper 32000 1600 [⟨0, 10⟩, ⟨100, 110⟩]).mapCentiseconds
          (mapSegments 32000 1600 .initial [⟨0, 10⟩] [⟨100, 110⟩]).processedSegmentStart false ≠
        VadSegment.originalStart ⟨100, 110⟩ := by
  refine ⟨by constructor <;> norm_num, ?_, by decide +kernel, by decide +kernel⟩
  constructor <;> decide +kernel

end Svp.Audio

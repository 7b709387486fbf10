import Svp.Vision.BatchIndependence

/-!
# Where a reused reading comes from

A reused reading was recognized for a matching box at an earlier sample of the same
group, with no change of the box in between (`Carries`). `ocrBatching_independent`
joins this with the independence from the batching.
-/

namespace Svp.Vision

open Exec (Bytes utf8)

variable {Score : Type}

/-! ## Matching -/

theorem mem_reuseCandidates {previous : List (BoxReading Score)} {boxes : List PpOcrTextBox}
    {candidate : Candidate} (mem : candidate ∈ reuseCandidates previous boxes) :
    ∃ box reading, boxes[candidate.box]? = some box ∧ previous[candidate.earlier]? = some reading ∧
      kOcrReuseMinBoxIou < boxIou reading.box box := by
  rw [reuseCandidates] at mem
  obtain ⟨⟨box, index⟩, isBox, mem⟩ := List.mem_flatMap.mp mem
  obtain ⟨⟨reading, earlier⟩, isReading, found⟩ := List.mem_filterMap.mp mem
  dsimp only at found
  split_ifs at found with overlaps
  cases found
  exact ⟨box, reading, List.mem_zipIdx_iff_getElem?.mp isBox,
    List.mem_zipIdx_iff_getElem?.mp isReading, overlaps⟩

/-- Every match so far is an earlier reading whose box overlaps. -/
def MatchedRight (previous : List (BoxReading Score)) (boxes : List PpOcrTextBox)
    (found : List (Option (BoxReading Score))) : Prop :=
  ∀ (index : Nat) reading, found[index]? = some (some reading) →
    reading ∈ previous ∧ ∃ box, boxes[index]? = some box ∧
      kOcrReuseMinBoxIou < boxIou reading.box box

theorem MatchedRight.take {previous : List (BoxReading Score)} {boxes : List PpOcrTextBox}
    {found : List (Option (BoxReading Score)) × List Bool} {candidate : Candidate}
    (right : MatchedRight previous boxes found.1)
    (mem : candidate ∈ reuseCandidates previous boxes) :
    MatchedRight previous boxes (takeCandidate previous found candidate).1 := by
  rw [takeCandidate]
  split_ifs
  · exact right
  · obtain ⟨box, earlier, isBox, isEarlier, overlaps⟩ := mem_reuseCandidates mem
    intro index reading isFound
    rw [List.getElem?_set] at isFound
    split_ifs at isFound with here
    · subst here
      rw [isEarlier] at isFound
      cases isFound
      exact ⟨List.mem_of_getElem? isEarlier, box, isBox, overlaps⟩
    · exact right index reading isFound

theorem matchBoxes_right (previous : List (BoxReading Score)) (boxes : List PpOcrTextBox) :
    MatchedRight previous boxes (matchBoxes previous boxes) := by
  have run : ∀ (candidates : List Candidate) (found : List (Option (BoxReading Score)) × List Bool),
      (∀ candidate ∈ candidates, candidate ∈ reuseCandidates previous boxes) →
      MatchedRight previous boxes found.1 →
      MatchedRight previous boxes (candidates.foldl (takeCandidate previous) found).1 := by
    intro candidates
    induction candidates with
    | nil => exact fun _ _ right => right
    | cons candidate candidates ih =>
      intro found mem right
      exact ih _ (fun other among => mem other (List.mem_cons_of_mem _ among))
        (right.take (mem candidate List.mem_cons_self))
  refine run _ _ (fun candidate mem => List.mem_mergeSort.mp mem) ?_
  intro index reading isFound
  rw [List.getElem?_replicate] at isFound
  split_ifs at isFound
  cases isFound

/-- The reading that a box takes from its match. -/
def takenReading (earlier : BoxReading Score) (frame : ColorRasterFrame) (box : PpOcrTextBox) :
    BoxReading Score where
  box := box
  reading := reusedReading earlier.reading box frame
  recognizedAt := earlier.recognizedAt
  consecutiveReuses := earlier.consecutiveReuses + 1

theorem reuse_eq_some {st : OcrRecognitionReuse Score} {analysis : OcrReuseAnalysisFrame}
    {frame : ColorRasterFrame} {box : PpOcrTextBox} {found : Option (BoxReading Score)}
    {reading : BoxReading Score} (reused : st.reuse analysis frame box found = some reading) :
    ∃ earlier reference, found = some earlier ∧
      st.groupFrames[earlier.recognizedAt]? = some (some reference) ∧
      earlier.consecutiveReuses < kOcrReuseMaxConsecutive ∧
      ocrReuseBoxUnchanged reference analysis box = true ∧
      reading = takenReading earlier frame box := by
  rw [OcrRecognitionReuse.reuse] at reused
  obtain ⟨earlier, isEarlier, reused⟩ := Option.bind_eq_some_iff.mp reused
  obtain ⟨reference, isReference, reused⟩ := Option.bind_eq_some_iff.mp reused
  split_ifs at reused with allowed
  cases reused
  exact ⟨earlier, reference, isEarlier, Option.join_eq_some_iff.mp isReference, allowed.1, allowed.2, rfl⟩

/-- A reused reading copies the one of an overlapping earlier box that did not change. -/
theorem mem_decide {st : OcrRecognitionReuse Score} {frame : ColorRasterFrame}
    {boxes : List PpOcrTextBox} {box : PpOcrTextBox} {reading : BoxReading Score}
    (mem : (box, some reading) ∈ st.decide frame boxes) :
    box ∈ boxes ∧ ∃ earlier ∈ st.previous, ∃ reference,
      kOcrReuseMinBoxIou < boxIou earlier.box box ∧
      st.groupFrames[earlier.recognizedAt]? = some (some reference) ∧
      earlier.consecutiveReuses < kOcrReuseMaxConsecutive ∧
      ocrReuseBoxUnchanged reference (makeOcrReuseAnalysisFrame frame) box = true ∧
      reading = takenReading earlier frame box := by
  rw [OcrRecognitionReuse.decide] at mem
  obtain ⟨⟨box', found⟩, zipped, same⟩ := List.mem_map.mp mem
  obtain ⟨rfl, reused⟩ := Prod.mk.inj same
  obtain ⟨earlier, reference, rfl, isReference, few, unchanged, rfl⟩ := reuse_eq_some reused
  obtain ⟨index, isPair⟩ := List.mem_iff_getElem?.mp zipped
  obtain ⟨isBox, isFound⟩ := List.getElem?_zip_eq_some.mp isPair
  obtain ⟨among, box, isBox', overlaps⟩ := matchBoxes_right _ _ index earlier isFound
  cases isBox.symm.trans isBox'
  exact ⟨List.mem_of_getElem? isBox, earlier, among, reference, overlaps, isReference, few,
    unchanged, rfl⟩

/-- A reading of a sample is reused, or one the recognizer gave for a pending box. -/
theorem mem_fillPending {position : Nat} {reading : BoxReading Score}
    {decided : List (PpOcrTextBox × Option (BoxReading Score))}
    {recognized : List (PpOcrDetection Score)}
    (mem : reading ∈ fillPending position decided recognized) :
    (∃ box, (box, some reading) ∈ decided) ∨
      ∃ box source, (box, source) ∈ (pendingBoxes decided).zip recognized ∧
        reading =
          { box
            reading := { source with reused := false }
            recognizedAt := position
            consecutiveReuses := 0 } := by
  induction decided generalizing recognized with
  | nil => cases mem
  | cons entry decided ih =>
    obtain ⟨box, reused⟩ := entry
    cases reused with
    | some taken =>
      rw [fillPending] at mem
      rcases List.mem_cons.mp mem with rfl | mem
      · exact .inl ⟨box, List.mem_cons_self⟩
      · rcases ih mem with ⟨other, among⟩ | new
        · exact .inl ⟨other, List.mem_cons_of_mem _ among⟩
        · exact .inr new
    | none =>
      cases recognized with
      | nil => cases mem
      | cons source recognized =>
        rw [fillPending] at mem
        rcases List.mem_cons.mp mem with rfl | mem
        · exact .inr ⟨box, source, List.mem_cons_self, rfl⟩
        · rcases ih mem with ⟨other, among⟩ | ⟨other, given, among, rfl⟩
          · exact .inl ⟨other, List.mem_cons_of_mem _ among⟩
          · exact .inr ⟨other, given, List.mem_cons_of_mem _ among, rfl⟩

/-! ## Sources -/

/-- `Carries batch first reference last box source`: `source` was recognized for a box of
the sample `first`, whose analysis frame is `reference`, and the box of each sample up to
`last` overlaps the one before and is unchanged since; the last of them is `box`. -/
inductive Carries (host : OcrHost Score) (frameWidth frameHeight : Int) (batch : List OcrSample) :
    Nat → OcrReuseAnalysisFrame → Nat → PpOcrTextBox → PpOcrDetection Score → Prop
  | recognized {before sample after frame boxes pending readings box source} :
      batch = before ++ sample :: after →
      Detected host frameWidth frameHeight sample frame boxes →
      pending = pendingBoxes
        (((runSamples host frameWidth frameHeight {} before).2.enter sample.ordinal).decide frame
          boxes) →
      host.ocr.recognize frame pending = .ok readings →
      (box, source) ∈ pending.zip readings →
      Carries host frameWidth frameHeight batch sample.ordinal (makeOcrReuseAnalysisFrame frame)
        sample.ordinal box source
  | kept {first reference last earlier source sample frame boxes box} :
      Carries host frameWidth frameHeight batch first reference last earlier source →
      sample ∈ batch → sample.ordinal = last + 1 →
      Detected host frameWidth frameHeight sample frame boxes → box ∈ boxes →
      kOcrReuseMinBoxIou < boxIou earlier box →
      ocrReuseBoxUnchanged reference (makeOcrReuseAnalysisFrame frame) box = true →
      Carries host frameWidth frameHeight batch first reference (last + 1) box source

/-- A reading the state has of sample `last` has its source in the group, as many samples
before as it was reused in a row, and the state has the frame of that sample. -/
structure BoxReading.Right (host : OcrHost Score) (frameWidth frameHeight : Int)
    (batch : List OcrSample) (frames : List (Option OcrReuseAnalysisFrame)) (last : Nat)
    (reading : BoxReading Score) (first : Nat) (reference : OcrReuseAnalysisFrame)
    (source : PpOcrDetection Score) : Prop where
  carries : Carries host frameWidth frameHeight batch first reference last reading.box source
  text : reading.reading.text = source.text
  score : reading.reading.score = source.score
  group : first / kOcrReuseGroupSamples = last / kOcrReuseGroupSamples
  position : reading.recognizedAt = first % kOcrReuseGroupSamples
  consecutive : last = first + reading.consecutiveReuses
  few : reading.consecutiveReuses ≤ kOcrReuseMaxConsecutive
  frame : frames[first % kOcrReuseGroupSamples]? = some (some reference)

/-- What holds of the reuse state between two samples of a batch. -/
structure ReuseRight (host : OcrHost Score) (frameWidth frameHeight : Int)
    (batch : List OcrSample) (st : OcrRecognitionReuse Score) : Prop where
  sized : ∀ last, st.lastOrdinal = some last → st.groupFrames.length = kOcrReuseGroupSamples
  readings : ∀ reading ∈ st.previous, ∃ last first reference source, st.lastOrdinal = some last ∧
    reading.Right host frameWidth frameHeight batch st.groupFrames last first reference source

section Sources

variable {host : OcrHost Score} {frameWidth frameHeight : Int} {batch : List OcrSample}
  {st : OcrRecognitionReuse Score}

/-- Entering a sample keeps the readings only where the sample follows their own in its
group. -/
theorem ReuseRight.enter (right : ReuseRight host frameWidth frameHeight batch st) (ordinal : Nat) :
    (st.enter ordinal).groupFrames.length = kOcrReuseGroupSamples ∧
      ∀ reading ∈ (st.enter ordinal).previous, ∃ last first reference source,
        st.lastOrdinal = some last ∧ ordinal = last + 1 ∧
        last / kOcrReuseGroupSamples = ordinal / kOcrReuseGroupSamples ∧
        reading.Right host frameWidth frameHeight batch (st.enter ordinal).groupFrames last first
          reference source := by
  rw [OcrRecognitionReuse.enter]
  dsimp only
  by_cases sameGroup : st.lastOrdinal.map (· / kOcrReuseGroupSamples) =
      some (ordinal / kOcrReuseGroupSamples)
  · obtain ⟨last, isLast, group⟩ := Option.map_eq_some_iff.mp sameGroup
    rw [if_pos sameGroup]
    refine ⟨right.sized last isLast, fun reading mem => ?_⟩
    split_ifs at mem with follows
    · obtain ⟨last', first, reference, source, isLast', isRight⟩ := right.readings reading mem
      cases isLast.symm.trans isLast'
      have next : last + 1 = ordinal := by simpa [isLast] using follows.2
      exact ⟨last, first, reference, source, isLast, next.symm, group, isRight⟩
    · cases mem
  · rw [if_neg sameGroup]
    refine ⟨List.length_replicate, fun reading mem => ?_⟩
    rw [if_neg fun both => sameGroup both.1] at mem
    cases mem

/-- Behind a sample that was not read the state is right again. -/
theorem ReuseRight.entered (right : ReuseRight host frameWidth frameHeight batch st)
    (ordinal : Nat) : ReuseRight host frameWidth frameHeight batch (st.enter ordinal) := by
  obtain ⟨sized, readings⟩ := right.enter ordinal
  refine ⟨fun _ _ => sized, fun reading mem => ?_⟩
  obtain ⟨last, first, reference, source, isLast, -, -, isRight⟩ := readings reading mem
  exact ⟨last, first, reference, source, isLast, isRight⟩

/-- A reused text and score were recognized at an earlier sample of the group. -/
def ReusedFrom (host : OcrHost Score) (frameWidth frameHeight : Int) (batch : List OcrSample)
    (ordinal : Nat) (text : Bytes) (score : Score) : Prop :=
  ∃ first reference box source,
    Carries host frameWidth frameHeight batch first reference ordinal box source ∧
    first < ordinal ∧ ordinal ≤ first + kOcrReuseMaxConsecutive ∧
    first / kOcrReuseGroupSamples = ordinal / kOcrReuseGroupSamples ∧
    text = source.text ∧ score = source.score

@[simp] theorem reusedReading_text (source : PpOcrDetection Score) (box : PpOcrTextBox)
    (frame : ColorRasterFrame) : (reusedReading source box frame).text = source.text := by
  rw [reusedReading]
  split_ifs <;> rfl

@[simp] theorem reusedReading_score (source : PpOcrDetection Score) (box : PpOcrTextBox)
    (frame : ColorRasterFrame) : (reusedReading source box frame).score = source.score := by
  rw [reusedReading]
  split_ifs <;> rfl

/-- Two ordinals of one group have different positions. -/
theorem position_ne {first ordinal : Nat} (lt : first < ordinal)
    (group : first / kOcrReuseGroupSamples = ordinal / kOcrReuseGroupSamples) :
    first % kOcrReuseGroupSamples ≠ ordinal % kOcrReuseGroupSamples := by
  intro same
  have equal := Nat.div_add_mod first kOcrReuseGroupSamples
  rw [group, same, Nat.div_add_mod] at equal
  exact absurd equal lt.ne'

variable {before after : List OcrSample} {sample : OcrSample} {frame : ColorRasterFrame}
  {boxes : List PpOcrTextBox}

/-- A reading that is taken over has its source one more sample away. -/
theorem BoxReading.Right.taken {frames : List (Option OcrReuseAnalysisFrame)} {last first : Nat}
    {earlier : BoxReading Score} {reference other : OcrReuseAnalysisFrame}
    {source : PpOcrDetection Score} {box : PpOcrTextBox}
    (right : earlier.Right host frameWidth frameHeight batch frames last first reference source)
    (among : sample ∈ batch) (next : sample.ordinal = last + 1)
    (group : last / kOcrReuseGroupSamples = sample.ordinal / kOcrReuseGroupSamples)
    (detected : Detected host frameWidth frameHeight sample frame boxes) (isBox : box ∈ boxes)
    (overlaps : kOcrReuseMinBoxIou < boxIou earlier.box box)
    (isOther : frames[earlier.recognizedAt]? = some (some other))
    (few : earlier.consecutiveReuses < kOcrReuseMaxConsecutive)
    (unchanged : ocrReuseBoxUnchanged other (makeOcrReuseAnalysisFrame frame) box = true)
    (analysis : OcrReuseAnalysisFrame) :
    (takenReading earlier frame box).Right host frameWidth frameHeight batch
      (frames.set (sample.ordinal % kOcrReuseGroupSamples) (some analysis)) sample.ordinal first
      reference source := by
  have same : reference = other := by
    rw [right.position, right.frame] at isOther
    exact Option.some.inj (Option.some.inj isOther)
  subst same
  have sameGroup := right.group.trans group
  have lt : first < sample.ordinal := by
    rw [next, right.consecutive]
    exact Nat.lt_succ_of_le (Nat.le_add_right _ _)
  refine ⟨?_, ?_, ?_, sameGroup, right.position, ?_, few, ?_⟩
  · rw [next]
    exact right.carries.kept among next detected isBox overlaps unchanged
  · exact (reusedReading_text _ _ _).trans right.text
  · exact (reusedReading_score _ _ _).trans right.score
  · rw [next, right.consecutive]
    rfl
  · rw [List.getElem?_set_ne (position_ne lt sameGroup).symm]
    exact right.frame

/-- A reading the recognizer gave is its own source. -/
theorem recognized_right {frames : List (Option OcrReuseAnalysisFrame)}
    {pending : List PpOcrTextBox} {readings : List (PpOcrDetection Score)} {box : PpOcrTextBox}
    {source : PpOcrDetection Score} (isBatch : batch = before ++ sample :: after)
    (detected : Detected host frameWidth frameHeight sample frame boxes)
    (isPending : pending = pendingBoxes
      (((runSamples host frameWidth frameHeight {} before).2.enter sample.ordinal).decide frame
        boxes))
    (isRecognized :
      (if pending.isEmpty then .ok [] else host.ocr.recognize frame pending) = .ok readings)
    (given : (box, source) ∈ pending.zip readings)
    (sized : frames.length = kOcrReuseGroupSamples) :
    BoxReading.Right host frameWidth frameHeight batch
      (frames.set (sample.ordinal % kOcrReuseGroupSamples) (some (makeOcrReuseAnalysisFrame frame)))
      sample.ordinal
      { box
        reading := { source with reused := false }
        recognizedAt := sample.ordinal % kOcrReuseGroupSamples
        consecutiveReuses := 0 }
      sample.ordinal (makeOcrReuseAnalysisFrame frame) source := by
  have called : host.ocr.recognize frame pending = .ok readings := by
    have some_ : pending.isEmpty = false := by
      cases pending with
      | nil => cases given
      | cons => rfl
    rwa [some_] at isRecognized
  have inside : sample.ordinal % kOcrReuseGroupSamples < frames.length := by
    rw [sized]
    exact Nat.mod_lt _ (Nat.succ_pos _)
  exact ⟨.recognized isBatch detected isPending called given, rfl, rfl, rfl, rfl, rfl, Nat.zero_le _,
    List.getElem?_set_self inside⟩

/-- Reading the boxes of a sample: the state is right again, and what was reused has its
source. -/
theorem ReuseRight.read (right : ReuseRight host frameWidth frameHeight batch st)
    (isBatch : batch = before ++ sample :: after)
    (isState : st = (runSamples host frameWidth frameHeight {} before).2)
    (detected : Detected host frameWidth frameHeight sample frame boxes) :
    ReuseRight host frameWidth frameHeight batch
        (st.read sample.ordinal frame boxes (host.ocr.recognize frame)).2 ∧
      ∀ readings, (st.read sample.ordinal frame boxes (host.ocr.recognize frame)).1 = .ok readings →
        ∀ reading ∈ readings, reading.reused = true → ReusedFrom host frameWidth frameHeight batch
          sample.ordinal reading.text reading.score := by
  have entered := right.entered sample.ordinal
  obtain ⟨sized, kept⟩ := right.enter sample.ordinal
  have among : sample ∈ batch := by
    rw [isBatch]
    exact List.mem_append_right _ List.mem_cons_self
  rw [OcrRecognitionReuse.read]
  dsimp only
  split
  · exact ⟨entered, nofun⟩
  · next recognized isRecognized =>
    split_ifs with wrong
    · exact ⟨entered, nofun⟩
    · have current : ∀ reading ∈ fillPending (sample.ordinal % kOcrReuseGroupSamples)
          ((st.enter sample.ordinal).decide frame boxes) recognized,
          ∃ first reference source, BoxReading.Right host frameWidth frameHeight batch
            ((st.enter sample.ordinal).groupFrames.set (sample.ordinal % kOcrReuseGroupSamples)
              (some (makeOcrReuseAnalysisFrame frame)))
            sample.ordinal reading first reference source ∧
            (reading.reading.reused = true → first < sample.ordinal) := by
        intro reading mem
        rcases mem_fillPending mem with ⟨box, reused⟩ | ⟨box, source, given, rfl⟩
        · obtain ⟨isBox, earlier, isEarlier, other, overlaps, isOther, few, unchanged, rfl⟩ :=
            mem_decide reused
          obtain ⟨last, first, reference, source, -, next, group, isRight⟩ := kept earlier isEarlier
          have taken := isRight.taken among next group detected isBox overlaps isOther few unchanged
            (makeOcrReuseAnalysisFrame frame)
          refine ⟨first, reference, source, taken, fun _ => ?_⟩
          rw [taken.consecutive]
          exact Nat.lt_add_of_pos_right (Nat.succ_pos _)
        · subst isState
          exact ⟨sample.ordinal, _, source,
            recognized_right isBatch detected rfl isRecognized given sized, nofun⟩
      refine ⟨⟨fun _ _ => ?_, fun reading mem => ?_⟩, ?_⟩
      · rw [List.length_set, sized]
      · obtain ⟨first, reference, source, isRight, -⟩ := current reading mem
        exact ⟨sample.ordinal, first, reference, source, rfl, isRight⟩
      · rintro readings isReadings reading mem isReused
        cases isReadings
        obtain ⟨boxReading, isCurrent, rfl⟩ := List.mem_map.mp mem
        obtain ⟨first, reference, source, isRight, earlier⟩ := current boxReading isCurrent
        refine ⟨first, reference, boxReading.box, source, isRight.carries, earlier isReused, ?_,
          isRight.group, isRight.text, isRight.score⟩
        rw [isRight.consecutive]
        exact Nat.add_le_add_left isRight.few _

/-- One sample of a batch. -/
theorem ReuseRight.step (right : ReuseRight host frameWidth frameHeight batch st)
    (isBatch : batch = before ++ sample :: after)
    (isState : st = (runSamples host frameWidth frameHeight {} before).2) :
    ReuseRight host frameWidth frameHeight batch
        (runSample host frameWidth frameHeight st sample).2 ∧
      ∀ detection ∈ (runSample host frameWidth frameHeight st sample).1.detections,
        detection.reused = true → ReusedFrom host frameWidth frameHeight batch
          (runSample host frameWidth frameHeight st sample).1.sampleOrdinal detection.text
          detection.confidence := by
  obtain ⟨ordinal, reads⟩ := sampleRun host frameWidth frameHeight st sample
  rw [ordinal]
  rcases reads with ⟨nothing, same⟩ | ⟨frame, boxes, detected, isAfter, read⟩
  · rw [nothing, same]
    exact ⟨right, nofun⟩
  · obtain ⟨rightAfter, sources⟩ := right.read isBatch isState detected
    rw [isAfter]
    refine ⟨rightAfter, fun detection mem isReused => ?_⟩
    obtain ⟨readings, isRead, reading, among, rfl⟩ := read detection mem
    exact sources readings isRead reading among isReused

/-- All samples of a batch, from any point on. -/
theorem ReuseRight.run (right : ReuseRight host frameWidth frameHeight batch st)
    (isBatch : batch = before ++ after)
    (isState : st = (runSamples host frameWidth frameHeight {} before).2) :
    ∀ record ∈ (runSamples host frameWidth frameHeight st after).1,
      ∀ detection ∈ record.detections, detection.reused = true →
        ReusedFrom host frameWidth frameHeight batch record.sampleOrdinal detection.text
          detection.confidence := by
  induction after generalizing before st with
  | nil => exact nofun
  | cons sample after ih =>
    obtain ⟨rightAfter, here⟩ := right.step isBatch isState
    have next : (runSample host frameWidth frameHeight st sample).2 =
        (runSamples host frameWidth frameHeight {} (before ++ [sample])).2 := by
      rw [runSamples_append, ← isState]
      rfl
    intro record mem
    rcases List.mem_cons.mp mem with rfl | mem
    · exact here
    · exact ih rightAfter (by rw [isBatch, List.append_assoc]; rfl) next record mem

end Sources

/-- A batch reuses what it has recognized itself. -/
theorem batch_sources {host : OcrHost Score} {request : OcrFrameBatchRequest}
    {outcome : OcrFrameBatchOutcome Score} (runs : runOcrFrameBatch host request = .ok outcome) :
    ∀ record ∈ outcome.samples, ∀ detection ∈ record.detections, detection.reused = true →
      ReusedFrom host request.frameWidth request.frameHeight request.samples record.sampleOrdinal
        detection.text detection.confidence := by
  have starts := runOcrFrameBatch_starts runs
  by_cases skipped : host.ffmpegExecutableAvailable = false ∨
      (request.frameWidth ≤ 0 ∨ request.frameHeight ≤ 0)
  · obtain ⟨reason, isSkipped⟩ := runOcrFrameBatch_skipped starts skipped
    cases runs.symm.trans isSkipped
    exact nofun
  · obtain ⟨ready, sized⟩ := not_or.mp skipped
    rw [Bool.not_eq_false] at ready
    cases runs.symm.trans (runOcrFrameBatch_eq starts ready sized)
    have fresh : ReuseRight host request.frameWidth request.frameHeight request.samples {} :=
      ⟨nofun, nofun⟩
    exact fresh.run (List.nil_append _).symm rfl

/-- Two cuts of a plan into batches give the same records and the same totals, and what a
record says was reused was recognized earlier in its group. -/
theorem ocrBatching_independent (host : OcrHost Score) (ffmpegPath : Bytes)
    (frameWidth frameHeight : Int) (timestampsUs : List Int) (left right : List (List OcrSample))
    (isLeft : IsBatching (makeOcrSamplePlan timestampsUs) left)
    (isRight : IsBatching (makeOcrSamplePlan timestampsUs) right) :
    (∃ joined, runBatches host ffmpegPath frameWidth frameHeight left = .ok joined ∧
      runBatches host ffmpegPath frameWidth frameHeight right = .ok joined) ∧
    ∀ samples ∈ left, ∀ outcome,
      runOcrFrameBatch host { ffmpegPath, frameWidth, frameHeight, samples } = .ok outcome →
      ∀ record ∈ outcome.samples, ∀ detection ∈ record.detections, detection.reused = true →
        ReusedFrom host frameWidth frameHeight samples record.sampleOrdinal detection.text
          detection.confidence := by
  refine ⟨?_, fun samples _ outcome runs => batch_sources runs⟩
  by_cases skipped : host.ffmpegExecutableAvailable = false ∨ (frameWidth ≤ 0 ∨ frameHeight ≤ 0)
  · exact ⟨{}, runBatches_skipped host frameWidth frameHeight isLeft.starts skipped,
      runBatches_skipped host frameWidth frameHeight isRight.starts skipped⟩
  · obtain ⟨ready, sized⟩ := not_or.mp skipped
    rw [Bool.not_eq_false] at ready
    have sorted := makeOcrSamplePlan_sorted timestampsUs
    have joins : ∀ batches, IsBatching (makeOcrSamplePlan timestampsUs) batches →
        ∃ joined, runBatches host ffmpegPath frameWidth frameHeight batches = .ok joined ∧
          (runSamples host frameWidth frameHeight {} (makeOcrSamplePlan timestampsUs)).1 =
            joined.samples ∧
          (runSamples host frameWidth frameHeight {} (makeOcrSamplePlan timestampsUs)).2.recognized =
            0 + joined.recognizedBoxes ∧
          (runSamples host frameWidth frameHeight {} (makeOcrSamplePlan timestampsUs)).2.reused =
            0 + joined.reusedBoxes := by
      intro batches isBatching
      rw [← isBatching.joined] at sorted ⊢
      exact runBatches_eq host frameWidth frameHeight ready sized isBatching.starts sorted {} nofun
    obtain ⟨joined, runs, samples, recognized, reused⟩ := joins left isLeft
    obtain ⟨joined', runs', samples', recognized', reused'⟩ := joins right isRight
    have same : joined' = joined :=
      JoinedOutcome.ext (samples'.symm.trans samples)
        (Nat.add_left_cancel (recognized'.symm.trans recognized))
        (Nat.add_left_cancel (reused'.symm.trans reused))
    exact ⟨joined, runs, same ▸ runs'⟩

/-- Every frame is four black pixels with one box, which reads "a". -/
def sampleHost : OcrHost Nat where
  ffmpegExecutableAvailable := true
  decodeRgbFrameAt := fun _ => (List.replicate 4 default, [])
  ocr :=
    { available := true
      detect := fun _ => .ok (some [{ left := 0, top := 0, right := 2, bottom := 2 }])
      recognize := fun _ boxes => .ok (boxes.map fun _ => { text := utf8 "a", score := 90 })
      keepsScore := fun score => 50 ≤ score }

example : (runSamples sampleHost 2 2 {} (makeOcrSamplePlan [0, 40, 80, 120])).2.reused = 2 := by
  decide +kernel

/-- One batch for each group, or one for all. -/
theorem ocrBatching_independent_sample : ∃ joined,
    runBatches sampleHost [] 2 2 [makeOcrSamplePlan [0, 40, 80], [⟨3, 120⟩]] = .ok joined ∧
      runBatches sampleHost [] 2 2 [makeOcrSamplePlan [0, 40, 80, 120]] = .ok joined :=
  (ocrBatching_independent sampleHost [] 2 2 [0, 40, 80, 120] _ _
    { joined := rfl
      starts := by
        rintro batch (_ | ⟨_, _ | ⟨_, ⟨⟩⟩⟩) first rest isFirst
        · cases isFirst
          rfl
        · cases isFirst
          rfl }
    { joined := rfl
      starts := by
        rintro batch (_ | ⟨_, ⟨⟩⟩) first rest isFirst
        cases isFirst
        rfl }).1

end Svp.Vision

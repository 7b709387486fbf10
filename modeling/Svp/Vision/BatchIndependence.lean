import Svp.Vision.OcrBatch

/-!
# The records do not depend on the batching

What a sample reads depends on its own reuse group only: `AlikeFrom` relates two reuse
states that agree on everything a sample from some group on may use, and a sample takes
related states to related states with the same record.
-/

namespace Svp.Vision

open Exec (Bytes utf8)

variable {Score : Type}

/-! ## Two states that agree from a group on -/

/-- The last sample that was read belongs to an earlier group. -/
def OcrRecognitionReuse.Before (st : OcrRecognitionReuse Score) (group : Nat) : Prop :=
  ∀ ordinal, st.lastOrdinal = some ordinal → ordinal / kOcrReuseGroupSamples < group

/-- Samples from `group` on find the same in both states, which have counted
`recognized` and `reused` boxes more and less. -/
structure AlikeFrom (group recognized reused : Nat) (st st' : OcrRecognitionReuse Score) : Prop where
  known : (st.Before group ∧ st'.Before group) ∨
    (st.lastOrdinal = st'.lastOrdinal ∧ st.groupFrames = st'.groupFrames ∧
      st.previous = st'.previous)
  recognized : st.recognized = recognized + st'.recognized
  reused : st.reused = reused + st'.reused

theorem enter_before {st : OcrRecognitionReuse Score} {group ordinal : Nat}
    (before : st.Before group) (later : group ≤ ordinal / kOcrReuseGroupSamples) :
    (st.enter ordinal).groupFrames = List.replicate kOcrReuseGroupSamples none ∧
      (st.enter ordinal).previous = [] := by
  have other : st.lastOrdinal.map (· / kOcrReuseGroupSamples) ≠
      some (ordinal / kOcrReuseGroupSamples) := by
    intro same
    obtain ⟨last, isLast, sameGroup⟩ := Option.map_eq_some_iff.mp same
    have earlier := before last isLast
    rw [sameGroup] at earlier
    exact absurd later (Nat.not_le.mpr earlier)
  exact ⟨if_neg other, if_neg fun both => other both.1⟩

/-- Entering a sample forgets what the states do not share. -/
theorem AlikeFrom.enter {group recognized reused ordinal : Nat}
    {st st' : OcrRecognitionReuse Score} (alike : AlikeFrom group recognized reused st st')
    (later : group ≤ ordinal / kOcrReuseGroupSamples) :
    (st.enter ordinal).groupFrames = (st'.enter ordinal).groupFrames ∧
      (st.enter ordinal).previous = (st'.enter ordinal).previous := by
  rcases alike.known with ⟨before, before'⟩ | ⟨last, frames, previous⟩
  · obtain ⟨frames, previous⟩ := enter_before before later
    obtain ⟨frames', previous'⟩ := enter_before before' later
    exact ⟨frames.trans frames'.symm, previous.trans previous'.symm⟩
  · simp only [OcrRecognitionReuse.enter, last, frames, previous, and_self]

theorem decide_congr {st st' : OcrRecognitionReuse Score}
    (frames : st.groupFrames = st'.groupFrames) (previous : st.previous = st'.previous)
    (frame : ColorRasterFrame) (boxes : List PpOcrTextBox) :
    st.decide frame boxes = st'.decide frame boxes := by
  simp only [OcrRecognitionReuse.decide, OcrRecognitionReuse.reuse, frames, previous]

/-- Two runs of one step: the same result, and states that are alike again. -/
structure SameStep (group recognized reused : Nat) {α : Type}
    (run run' : α × OcrRecognitionReuse Score) : Prop where
  result : run.1 = run'.1
  alike : AlikeFrom group recognized reused run.2 run'.2

section Step

variable {group recognized reused : Nat} {st st' : OcrRecognitionReuse Score}

theorem AlikeFrom.entered (alike : AlikeFrom group recognized reused st st') {ordinal : Nat}
    (later : group ≤ ordinal / kOcrReuseGroupSamples) :
    AlikeFrom group recognized reused (st.enter ordinal) (st'.enter ordinal) := by
  obtain ⟨frames, previous⟩ := alike.enter later
  refine ⟨?_, alike.recognized, alike.reused⟩
  rcases alike.known with before | ⟨last, -, -⟩
  · exact .inl before
  · exact .inr ⟨last, frames, previous⟩

theorem AlikeFrom.read (alike : AlikeFrom group recognized reused st st') {ordinal : Nat}
    (later : group ≤ ordinal / kOcrReuseGroupSamples) (frame : ColorRasterFrame)
    (boxes : List PpOcrTextBox) (recognize : PpOcrRecognizer Score) :
    SameStep group recognized reused (st.read ordinal frame boxes recognize)
      (st'.read ordinal frame boxes recognize) := by
  have entered := alike.entered later
  obtain ⟨frames, previous⟩ := alike.enter later
  have decided := decide_congr frames previous frame boxes
  unfold OcrRecognitionReuse.read
  dsimp only
  rw [decided, frames]
  split
  · exact ⟨rfl, entered⟩
  · split_ifs
    · exact ⟨rfl, entered⟩
    · refine ⟨rfl, .inr ⟨rfl, rfl, rfl⟩, ?_, ?_⟩
      · exact (congrArg (· + _) entered.recognized).trans (Nat.add_assoc _ _ _)
      · exact (congrArg (· + _) entered.reused).trans (Nat.add_assoc _ _ _)

theorem AlikeFrom.onFrame (alike : AlikeFrom group recognized reused st st') {ordinal : Nat}
    (later : group ≤ ordinal / kOcrReuseGroupSamples) (ocr : PpOcr Score)
    (frame : ColorRasterFrame) :
    SameStep group recognized reused (runPpOcrOnFrame ocr frame ordinal st)
      (runPpOcrOnFrame ocr frame ordinal st') := by
  unfold runPpOcrOnFrame
  split
  · exact ⟨rfl, alike⟩
  · cases ocr.detect frame with
    | error error => exact ⟨rfl, alike⟩
    | ok found =>
      cases found with
      | none => exact ⟨rfl, alike⟩
      | some boxes =>
        obtain ⟨result, after⟩ := alike.read later frame boxes (ocr.recognize frame)
        dsimp only
        generalize st.read ordinal frame boxes (ocr.recognize frame) = run at result after
        generalize st'.read ordinal frame boxes (ocr.recognize frame) = run' at result after
        obtain ⟨read, reuse⟩ := run
        obtain ⟨read', reuse'⟩ := run'
        cases result
        cases read with
        | error error => exact ⟨rfl, after⟩
        | ok readings =>
          dsimp only
          split_ifs
          · exact ⟨rfl, after⟩
          · exact ⟨rfl, after⟩

theorem AlikeFrom.runSample (alike : AlikeFrom group recognized reused st st')
    {sample : OcrSample} (later : group ≤ sample.ordinal / kOcrReuseGroupSamples)
    (host : OcrHost Score) (frameWidth frameHeight : Int) :
    SameStep group recognized reused (runSample host frameWidth frameHeight st sample)
      (runSample host frameWidth frameHeight st' sample) := by
  unfold Vision.runSample
  obtain ⟨pixels, decodeError⟩ := host.decodeRgbFrameAt sample
  dsimp only
  split
  · exact ⟨rfl, alike⟩
  · unfold runOcrOnDecodedFrame
    dsimp only
    split
    · exact ⟨rfl, alike⟩
    · obtain ⟨result, after⟩ := alike.onFrame later host.ocr
        (decodedFrame frameWidth frameHeight sample pixels)
      generalize runPpOcrOnFrame host.ocr _ _ st = run at result after
      generalize runPpOcrOnFrame host.ocr _ _ st' = run' at result after
      obtain ⟨read, reuse⟩ := run
      obtain ⟨read', reuse'⟩ := run'
      cases result
      cases read with
      | error error => exact ⟨rfl, after⟩
      | ok detections => exact ⟨rfl, after⟩

theorem AlikeFrom.runSamples (alike : AlikeFrom group recognized reused st st')
    (host : OcrHost Score) (frameWidth frameHeight : Int) {samples : List OcrSample}
    (later : ∀ sample ∈ samples, group ≤ sample.ordinal / kOcrReuseGroupSamples) :
    SameStep group recognized reused (runSamples host frameWidth frameHeight st samples)
      (runSamples host frameWidth frameHeight st' samples) := by
  induction samples generalizing st st' with
  | nil => exact ⟨rfl, alike⟩
  | cons sample samples ih =>
    obtain ⟨record, after⟩ :=
      alike.runSample (later sample List.mem_cons_self) host frameWidth frameHeight
    obtain ⟨records, final⟩ := ih after fun other mem => later other (List.mem_cons_of_mem _ mem)
    refine ⟨?_, final⟩
    exact congrArg₂ List.cons record records

end Step

/-! ## What a sample does -/

/-- The frame a sample is decoded to, and the boxes detected on it. -/
structure Detected (host : OcrHost Score) (frameWidth frameHeight : Int) (sample : OcrSample)
    (frame : ColorRasterFrame) (boxes : List PpOcrTextBox) : Prop where
  available : host.ocr.available = true
  pixels : frame.pixels ≠ []
  decoded : frame =
    decodedFrame frameWidth frameHeight sample (host.decodeRgbFrameAt sample).1
  detected : host.ocr.detect frame = .ok (some boxes)

/-- A sample leaves the reuse state alone, or reads the boxes detected on its frame. -/
structure SampleRun (host : OcrHost Score) (frameWidth frameHeight : Int)
    (st : OcrRecognitionReuse Score) (sample : OcrSample)
    (run : OcrSampleDetections Score × OcrRecognitionReuse Score) : Prop where
  ordinal : run.1.sampleOrdinal = sample.ordinal
  reads : run.1.detections = [] ∧ run.2 = st ∨
    ∃ frame boxes, Detected host frameWidth frameHeight sample frame boxes ∧
      run.2 = (st.read sample.ordinal frame boxes (host.ocr.recognize frame)).2 ∧
      ∀ detection ∈ run.1.detections, ∃ readings,
        (st.read sample.ordinal frame boxes (host.ocr.recognize frame)).1 = .ok readings ∧
          ∃ reading ∈ readings, detection = ocrTextDetection reading

/-- PP-OCR on a frame keeps no readings, or some of those that were read. -/
theorem onFrame_cases (ocr : PpOcr Score) (frame : ColorRasterFrame) (ordinal : Nat)
    (st : OcrRecognitionReuse Score) :
    ((runPpOcrOnFrame ocr frame ordinal st).2 = st ∧
      ∀ kept, (runPpOcrOnFrame ocr frame ordinal st).1 = .ok kept → kept = []) ∨
    ∃ boxes, (ocr.available = true ∧ frame.pixels ≠ []) ∧ ocr.detect frame = .ok (some boxes) ∧
      (runPpOcrOnFrame ocr frame ordinal st).2 =
        (st.read ordinal frame boxes (ocr.recognize frame)).2 ∧
      ∀ kept, (runPpOcrOnFrame ocr frame ordinal st).1 = .ok kept → ∃ readings,
        (st.read ordinal frame boxes (ocr.recognize frame)).1 = .ok readings ∧ kept ⊆ readings := by
  unfold runPpOcrOnFrame
  split
  · refine .inl ⟨rfl, fun kept isKept => ?_⟩
    cases isKept
    rfl
  · next usable =>
    have ready : ocr.available = true ∧ frame.pixels ≠ [] := by simpa using usable
    cases detected : ocr.detect frame with
    | error error => exact .inl ⟨rfl, nofun⟩
    | ok found =>
      cases found with
      | none =>
        refine .inl ⟨rfl, fun kept isKept => ?_⟩
        cases isKept
        rfl
      | some boxes =>
        refine .inr ⟨boxes, ready, rfl, ?_⟩
        dsimp only
        generalize st.read ordinal frame boxes (ocr.recognize frame) = run
        obtain ⟨result, reuse⟩ := run
        cases result with
        | error error => exact ⟨rfl, nofun⟩
        | ok readings =>
          dsimp only
          split_ifs
          · exact ⟨rfl, nofun⟩
          · refine ⟨rfl, fun kept isKept => ⟨readings, rfl, ?_⟩⟩
            cases isKept
            exact List.filter_subset_self _

theorem sampleRun (host : OcrHost Score) (frameWidth frameHeight : Int)
    (st : OcrRecognitionReuse Score) (sample : OcrSample) :
    SampleRun host frameWidth frameHeight st sample
      (runSample host frameWidth frameHeight st sample) := by
  unfold runSample
  cases decoded : host.decodeRgbFrameAt sample with
  | mk pixels decodeError =>
    have isFrame : decodedFrame frameWidth frameHeight sample pixels =
        decodedFrame frameWidth frameHeight sample (host.decodeRgbFrameAt sample).1 := by
      rw [decoded]
    dsimp only
    split
    · exact ⟨rfl, .inl ⟨rfl, rfl⟩⟩
    · unfold runOcrOnDecodedFrame
      dsimp only
      split
      · exact ⟨rfl, .inl ⟨rfl, rfl⟩⟩
      · have onFrame := onFrame_cases host.ocr
          (decodedFrame frameWidth frameHeight sample pixels) sample.ordinal st
        generalize runPpOcrOnFrame host.ocr _ _ st = run at onFrame
        obtain ⟨result, reuse⟩ := run
        rcases onFrame with ⟨same, nothing⟩ | ⟨boxes, ⟨available, pixels⟩, detected, after, read⟩
        · cases result with
          | error error => exact ⟨rfl, .inl ⟨rfl, same⟩⟩
          | ok kept =>
            cases nothing kept rfl
            exact ⟨rfl, .inl ⟨rfl, same⟩⟩
        · cases result with
          | error error => exact ⟨rfl, .inr ⟨_, boxes, ⟨available, pixels, isFrame, detected⟩, after, nofun⟩⟩
          | ok kept =>
            refine ⟨rfl, .inr ⟨_, boxes, ⟨available, pixels, isFrame, detected⟩, after, fun detection mem => ?_⟩⟩
            obtain ⟨reading, isKept, rfl⟩ := List.mem_map.mp mem
            obtain ⟨readings, isRead, among⟩ := read kept rfl
            exact ⟨readings, isRead, reading, among isKept, rfl⟩

/-- A read that fails leaves what the sample entered with; one that succeeds notes the
sample. -/
theorem read_last (st : OcrRecognitionReuse Score) (ordinal : Nat) (frame : ColorRasterFrame)
    (boxes : List PpOcrTextBox) (recognize : PpOcrRecognizer Score) :
    (st.read ordinal frame boxes recognize).2.lastOrdinal = st.lastOrdinal ∨
      (st.read ordinal frame boxes recognize).2.lastOrdinal = some ordinal := by
  unfold OcrRecognitionReuse.read
  dsimp only
  split
  · exact .inl rfl
  · split_ifs
    · exact .inl rfl
    · exact .inr rfl

theorem runSamples_last (host : OcrHost Score) (frameWidth frameHeight : Int)
    (st : OcrRecognitionReuse Score) (samples : List OcrSample) :
    (runSamples host frameWidth frameHeight st samples).2.lastOrdinal = st.lastOrdinal ∨
      ∃ sample ∈ samples, (runSamples host frameWidth frameHeight st samples).2.lastOrdinal =
        some sample.ordinal := by
  induction samples generalizing st with
  | nil => exact .inl rfl
  | cons sample samples ih =>
    have first : (runSample host frameWidth frameHeight st sample).2.lastOrdinal = st.lastOrdinal ∨
        (runSample host frameWidth frameHeight st sample).2.lastOrdinal = some sample.ordinal := by
      rcases (sampleRun host frameWidth frameHeight st sample).reads with ⟨-, same⟩ |
        ⟨frame, boxes, -, read, -⟩
      · exact .inl (by rw [same])
      · rw [read]
        exact read_last st sample.ordinal frame boxes _
    rcases ih (runSample host frameWidth frameHeight st sample).2 with same | ⟨other, mem, isLast⟩
    · rcases first with unread | here
      · exact .inl (same.trans unread)
      · exact .inr ⟨sample, List.mem_cons_self, same.trans here⟩
    · exact .inr ⟨other, List.mem_cons_of_mem _ mem, isLast⟩

theorem runSamples_append (host : OcrHost Score) (frameWidth frameHeight : Int)
    (st : OcrRecognitionReuse Score) (before after : List OcrSample) :
    runSamples host frameWidth frameHeight st (before ++ after) =
      ((runSamples host frameWidth frameHeight st before).1 ++
          (runSamples host frameWidth frameHeight
            (runSamples host frameWidth frameHeight st before).2 after).1,
        (runSamples host frameWidth frameHeight
          (runSamples host frameWidth frameHeight st before).2 after).2) := by
  induction before generalizing st with
  | nil => rfl
  | cons sample before ih =>
    simp only [List.cons_append, runSamples, ih]

/-! ## Batches -/

/-- A cut of the plan into consecutive batches that each open a reuse group. -/
structure IsBatching (plan : List OcrSample) (batches : List (List OcrSample)) : Prop where
  joined : batches.flatten = plan
  starts : ∀ batch ∈ batches, ∀ first rest, batch = first :: rest →
    ocrReuseGroupStartsAt first.ordinal = true

/-- What all the batches of a plan come to. -/
@[ext] structure JoinedOutcome (Score : Type) where
  samples : List (OcrSampleDetections Score) := []
  recognizedBoxes : Nat := 0
  reusedBoxes : Nat := 0

def OcrFrameBatchOutcome.join (outcome : OcrFrameBatchOutcome Score)
    (joined : JoinedOutcome Score) : JoinedOutcome Score where
  samples := outcome.samples ++ joined.samples
  recognizedBoxes := outcome.recognizedBoxes + joined.recognizedBoxes
  reusedBoxes := outcome.reusedBoxes + joined.reusedBoxes

/-- Runs every batch, and joins what they come to. -/
def runBatches (host : OcrHost Score) (ffmpegPath : Bytes) (frameWidth frameHeight : Int) :
    List (List OcrSample) → Except String (JoinedOutcome Score)
  | [] => return {}
  | samples :: batches => do
    let outcome ← runOcrFrameBatch host { ffmpegPath, frameWidth, frameHeight, samples }
    let joined ← runBatches host ffmpegPath frameWidth frameHeight batches
    return outcome.join joined

/-- What a batch comes to where frames can be decoded. -/
def decodedOutcome (host : OcrHost Score) (frameWidth frameHeight : Int)
    (samples : List OcrSample) : OcrFrameBatchOutcome Score where
  decodingAttempted := true
  samples := (runSamples host frameWidth frameHeight {} samples).1
  recognizedBoxes := (runSamples host frameWidth frameHeight {} samples).2.recognized
  reusedBoxes := (runSamples host frameWidth frameHeight {} samples).2.reused

/-- A batch that opens a group runs over its samples from a state that knows nothing. -/
theorem runOcrFrameBatch_eq {host : OcrHost Score} {request : OcrFrameBatchRequest}
    (starts : ∀ first rest, request.samples = first :: rest →
      ocrReuseGroupStartsAt first.ordinal = true)
    (ready : host.ffmpegExecutableAvailable = true)
    (sized : ¬ (request.frameWidth ≤ 0 ∨ request.frameHeight ≤ 0)) :
    runOcrFrameBatch host request =
      .ok (decodedOutcome host request.frameWidth request.frameHeight request.samples) := by
  unfold runOcrFrameBatch
  cases isFirst : request.samples with
  | nil => simp [ready, sized, decodedOutcome, pure, Except.pure]
  | cons first rest =>
    simp [starts first rest isFirst, ready, sized, decodedOutcome, pure, Except.pure]

/-- Where frames cannot be decoded at all, a batch has no records. -/
theorem runOcrFrameBatch_skipped {host : OcrHost Score} {request : OcrFrameBatchRequest}
    (starts : ∀ first rest, request.samples = first :: rest →
      ocrReuseGroupStartsAt first.ordinal = true)
    (skipped : host.ffmpegExecutableAvailable = false ∨
      (request.frameWidth ≤ 0 ∨ request.frameHeight ≤ 0)) :
    ∃ reason, runOcrFrameBatch host request = .ok { skippedReason := reason } := by
  unfold runOcrFrameBatch
  cases available : host.ffmpegExecutableAvailable with
  | false =>
    refine ⟨utf8 "ffmpeg not found at: " ++ request.ffmpegPath, ?_⟩
    cases isFirst : request.samples with
    | nil => simp [pure, Except.pure]
    | cons first rest => simp [starts first rest isFirst, pure, Except.pure]
  | true =>
    have small : request.frameWidth ≤ 0 ∨ request.frameHeight ≤ 0 := by
      simpa [available] using skipped
    refine ⟨utf8 "target frame dimensions are not positive", ?_⟩
    cases isFirst : request.samples with
    | nil => simp [small, pure, Except.pure]
    | cons first rest => simp [starts first rest isFirst, small, pure, Except.pure]

/-- A batch that does not open a group is refused. -/
theorem runOcrFrameBatch_starts {host : OcrHost Score} {request : OcrFrameBatchRequest}
    {outcome : OcrFrameBatchOutcome Score} (runs : runOcrFrameBatch host request = .ok outcome) :
    ∀ first rest, request.samples = first :: rest → ocrReuseGroupStartsAt first.ordinal = true := by
  intro first rest isFirst
  by_contra inside
  rw [Bool.not_eq_true] at inside
  unfold runOcrFrameBatch at runs
  simp [isFirst, inside, throw, throwThe, MonadExceptOf.throw, bind, Except.bind] at runs

/-- A sample behind the one that opens a group, or that one, is in that group or later. -/
theorem before_of_lt {st : OcrRecognitionReuse Score} {first : OcrSample}
    (starts : ocrReuseGroupStartsAt first.ordinal = true)
    (behind : ∀ last, st.lastOrdinal = some last → last < first.ordinal) :
    st.Before (first.ordinal / kOcrReuseGroupSamples) := by
  intro last isLast
  have lt := behind last isLast
  have opens : first.ordinal % kOcrReuseGroupSamples = 0 := by simpa [ocrReuseGroupStartsAt] using starts
  exact Nat.div_lt_div_of_lt_of_dvd (Nat.dvd_of_mod_eq_zero opens) lt

section Joined

variable (host : OcrHost Score) (frameWidth frameHeight : Int)

/-- A batch behind other samples reads what it reads alone. -/
theorem batch_alike {st : OcrRecognitionReuse Score} {batch : List OcrSample}
    (starts : ∀ first rest, batch = first :: rest → ocrReuseGroupStartsAt first.ordinal = true)
    (sorted : batch.Pairwise fun sample later => sample.ordinal < later.ordinal)
    (behind : ∀ sample ∈ batch, ∀ last, st.lastOrdinal = some last → last < sample.ordinal) :
    (runSamples host frameWidth frameHeight st batch).1 =
        (runSamples host frameWidth frameHeight {} batch).1 ∧
      (runSamples host frameWidth frameHeight st batch).2.recognized =
        st.recognized + (runSamples host frameWidth frameHeight {} batch).2.recognized ∧
      (runSamples host frameWidth frameHeight st batch).2.reused =
        st.reused + (runSamples host frameWidth frameHeight {} batch).2.reused := by
  cases batch with
  | nil => exact ⟨rfl, rfl, rfl⟩
  | cons first rest =>
    have before := before_of_lt (starts first rest rfl) (behind first List.mem_cons_self)
    have alike : AlikeFrom (first.ordinal / kOcrReuseGroupSamples) st.recognized st.reused st {} :=
      ⟨.inl ⟨before, nofun⟩, rfl, rfl⟩
    have later : ∀ sample ∈ first :: rest,
        first.ordinal / kOcrReuseGroupSamples ≤ sample.ordinal / kOcrReuseGroupSamples := by
      intro sample mem
      refine Nat.div_le_div_right ?_
      rcases List.mem_cons.mp mem with rfl | mem
      · exact le_rfl
      · exact (List.rel_of_pairwise_cons sorted mem).le
    obtain ⟨records, after⟩ := alike.runSamples host frameWidth frameHeight later
    exact ⟨records, after.recognized, after.reused⟩

/-- The batches together read what one run over all their samples reads. -/
theorem runBatches_eq {ffmpegPath : Bytes} (ready : host.ffmpegExecutableAvailable = true)
    (sized : ¬ (frameWidth ≤ 0 ∨ frameHeight ≤ 0)) {batches : List (List OcrSample)}
    (starts : ∀ batch ∈ batches, ∀ first rest, batch = first :: rest →
      ocrReuseGroupStartsAt first.ordinal = true)
    (sorted : batches.flatten.Pairwise fun sample later => sample.ordinal < later.ordinal)
    (st : OcrRecognitionReuse Score)
    (behind : ∀ sample ∈ batches.flatten, ∀ last, st.lastOrdinal = some last →
      last < sample.ordinal) :
    ∃ joined, runBatches host ffmpegPath frameWidth frameHeight batches = .ok joined ∧
      (runSamples host frameWidth frameHeight st batches.flatten).1 = joined.samples ∧
      (runSamples host frameWidth frameHeight st batches.flatten).2.recognized =
        st.recognized + joined.recognizedBoxes ∧
      (runSamples host frameWidth frameHeight st batches.flatten).2.reused =
        st.reused + joined.reusedBoxes := by
  induction batches generalizing st with
  | nil => exact ⟨{}, rfl, rfl, rfl, rfl⟩
  | cons batch batches ih =>
    rw [List.flatten_cons] at sorted behind
    obtain ⟨sortedBatch, sortedRest, apart⟩ := List.pairwise_append.mp sorted
    have startsBatch := starts batch List.mem_cons_self
    have alone : runOcrFrameBatch host { ffmpegPath, frameWidth, frameHeight, samples := batch } =
        .ok (decodedOutcome host frameWidth frameHeight batch) :=
      runOcrFrameBatch_eq startsBatch ready sized
    have behindBatch : ∀ sample ∈ batch, ∀ last, st.lastOrdinal = some last → last < sample.ordinal :=
      fun sample mem => behind sample (List.mem_append_left _ mem)
    obtain ⟨records, recognized, reused⟩ :=
      batch_alike host frameWidth frameHeight startsBatch sortedBatch behindBatch
    have behindRest : ∀ sample ∈ batches.flatten, ∀ last,
        (runSamples host frameWidth frameHeight st batch).2.lastOrdinal = some last →
          last < sample.ordinal := by
      intro sample mem last isLast
      rcases runSamples_last host frameWidth frameHeight st batch with same | ⟨other, among, here⟩
      · exact behind sample (List.mem_append_right _ mem) last (same.symm.trans isLast)
      · cases here.symm.trans isLast
        exact apart other among sample mem
    obtain ⟨joined, runs, restRecords, restRecognized, restReused⟩ :=
      ih (fun other mem => starts other (List.mem_cons_of_mem _ mem)) sortedRest
        (runSamples host frameWidth frameHeight st batch).2 behindRest
    rw [List.flatten_cons, runSamples_append]
    refine ⟨(decodedOutcome host frameWidth frameHeight batch).join joined, ?_, ?_, ?_, ?_⟩
    · rw [runBatches, alone, runs]
      rfl
    · exact congrArg₂ (· ++ ·) records restRecords
    · dsimp only [OcrFrameBatchOutcome.join, decodedOutcome]
      rw [restRecognized, recognized, Nat.add_assoc]
    · dsimp only [OcrFrameBatchOutcome.join, decodedOutcome]
      rw [restReused, reused, Nat.add_assoc]

/-- Where frames cannot be decoded at all, no batch has records. -/
theorem runBatches_skipped {ffmpegPath : Bytes} {batches : List (List OcrSample)}
    (starts : ∀ batch ∈ batches, ∀ first rest, batch = first :: rest →
      ocrReuseGroupStartsAt first.ordinal = true)
    (skipped : host.ffmpegExecutableAvailable = false ∨ (frameWidth ≤ 0 ∨ frameHeight ≤ 0)) :
    runBatches host ffmpegPath frameWidth frameHeight batches = .ok {} := by
  induction batches with
  | nil => rfl
  | cons batch batches ih =>
    have rest := ih fun other mem => starts other (List.mem_cons_of_mem _ mem)
    obtain ⟨reason, alone⟩ : ∃ reason, runOcrFrameBatch host
        { ffmpegPath, frameWidth, frameHeight, samples := batch } =
          .ok { skippedReason := reason } :=
      runOcrFrameBatch_skipped (starts batch List.mem_cons_self) skipped
    rw [runBatches, alone, rest]
    rfl

end Joined

/-! ## The plan -/

theorem makeOcrSamplePlan_sorted (timestampsUs : List Int) :
    (makeOcrSamplePlan timestampsUs).Pairwise fun sample later => sample.ordinal < later.ordinal := by
  rw [makeOcrSamplePlan, List.pairwise_map, List.pairwise_iff_getElem]
  intro i j hi hj lt
  simpa using lt

theorem makeOcrSamplePlan_ordinal {timestampsUs : List Int} {index : Nat} {sample : OcrSample}
    (isSample : (makeOcrSamplePlan timestampsUs)[index]? = some sample) :
    sample.ordinal = index := by
  rw [makeOcrSamplePlan, List.getElem?_map, List.getElem?_zipIdx, Option.map_map] at isSample
  obtain ⟨timestampUs, -, rfl⟩ := Option.map_eq_some_iff.mp isSample
  exact Nat.zero_add index

/-- The samples of a planned batch. -/
def OcrSampleBatch.samples (plan : List OcrSample) (batch : OcrSampleBatch) : List OcrSample :=
  (plan.drop batch.firstOrdinal).take batch.count

theorem batchesFrom_joined (plan : List OcrSample) {perBatch : Nat} (some_ : 0 < perBatch)
    (left first : Nat) :
    ((batchesFrom perBatch left first).map (OcrSampleBatch.samples plan)).flatten =
      (plan.drop first).take left := by
  induction left, first using batchesFrom.induct perBatch with
  | case1 first => rw [batchesFrom, List.take_zero, List.map_nil, List.flatten_nil]
  | case2 left first count ih =>
    have split : count + (left - (count - 1)) = left + 1 := by omega
    have here : (plan.drop first).take (left + 1) =
        (plan.drop first).take count ++ (plan.drop (first + count)).take (left - (count - 1)) := by
      rw [← split, List.take_add, List.drop_drop]
    rw [batchesFrom, List.map_cons, List.flatten_cons, ih]
    exact here.symm

theorem batchesFrom_starts {perBatch : Nat} (aligned : perBatch % kOcrReuseGroupSamples = 0)
    (left first : Nat) (opens : first % kOcrReuseGroupSamples = 0) :
    ∀ batch ∈ batchesFrom perBatch left first,
      batch.firstOrdinal % kOcrReuseGroupSamples = 0 := by
  induction left, first using batchesFrom.induct perBatch with
  | case1 first => rw [batchesFrom]; exact nofun
  | case2 left first count ih =>
    rw [batchesFrom]
    intro batch mem
    rcases List.mem_cons.mp mem with rfl | mem
    · exact opens
    · by_cases whole : perBatch ≤ left + 1
      · have isCount : count = perBatch := Nat.min_eq_left whole
        refine ih ?_ batch mem
        rw [isCount, Nat.add_mod, opens, aligned]
        rfl
      · -- The last batch may be shorter.
        have last : left - (count - 1) = 0 := by omega
        rw [last, batchesFrom] at mem
        cases mem

theorem ocrBatchSampleCount_aligned {policy : OcrBatchPolicy} {count : Nat}
    (ok : ocrBatchSampleCount policy = .ok count) :
    count % kOcrReuseGroupSamples = 0 ∧ 0 < count := by
  unfold ocrBatchSampleCount at ok
  cases valid : validateOcrBatchPolicy policy with
  | error error =>
    rw [valid] at ok
    cases ok
  | ok =>
    rw [valid] at ok
    dsimp only [bind, Except.bind] at ok
    split_ifs at ok
    · cases ok
      refine ⟨Nat.mul_mod_left _ _, Nat.mul_pos (Nat.div_pos ?_ (Nat.succ_pos _)) (Nat.succ_pos _)⟩
      dsimp only [kOcrReuseGroupSamples, kOcrReuseMaxConsecutive]
      omega
    · cases ok
      exact ⟨by decide, by decide⟩

/-- The batches of the policy are a cut of the plan. -/
theorem partitionOcrSamples_isBatching {policy : OcrBatchPolicy} {timestampsUs : List Int}
    {batches : List OcrSampleBatch}
    (ok : partitionOcrSamples timestampsUs.length policy = .ok batches) :
    IsBatching (makeOcrSamplePlan timestampsUs)
      (batches.map (OcrSampleBatch.samples (makeOcrSamplePlan timestampsUs))) := by
  unfold partitionOcrSamples at ok
  cases counted : ocrBatchSampleCount policy with
  | error error =>
    rw [counted] at ok
    cases ok
  | ok perBatch =>
    rw [counted] at ok
    cases ok
    obtain ⟨aligned, some_⟩ := ocrBatchSampleCount_aligned counted
    constructor
    · rw [batchesFrom_joined _ some_, List.drop_zero]
      exact List.take_of_length_le (by simp [makeOcrSamplePlan])
    · intro samples mem first rest isFirst
      obtain ⟨batch, among, rfl⟩ := List.mem_map.mp mem
      have opens := batchesFrom_starts aligned _ 0 rfl batch among
      have isHead := congrArg (·[0]?) isFirst
      dsimp only [OcrSampleBatch.samples] at isHead
      rw [List.getElem?_take, List.getElem?_drop] at isHead
      split_ifs at isHead
      · have ordinal := makeOcrSamplePlan_ordinal isHead
        rw [ocrReuseGroupStartsAt, ordinal, Nat.add_zero, opens]
        rfl
      · cases isHead

end Svp.Vision

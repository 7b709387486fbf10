import Svp.Vision.EntityTracker

/-!
# Scene cuts

A cut is meant to end a track but for strong evidence of appearance. The tracker counts
every track as lost at a cut, and a lost track is joined by neither overlap nor
appearance: so where every cut keyframe is processed, no region joins a track across a
cut at all (`not_joined_at_cut`, `isolated_of_safe`), and the rule that lets a detector
region return to its track after a cut never applies (`sceneCuts_iff`).

A cut keyframe without a candidate is skipped before the tracks are counted as lost, and
the next keyframe joins them by overlap (`skipped_cut_joins`).
-/

namespace Svp.Vision

variable {Kalman Embedding : Type}

section
variable (input : TrackerInput Kalman Embedding)

/-- A shot boundary separates the last region of a track from a time. -/
def Crossed (track : ActiveTrack Kalman Embedding) (timestampUs : Int) : Prop :=
  ∃ boundary ∈ input.shotBoundaries, track.endUs < boundary.2 ∧ boundary.2 ≤ timestampUs

/-- The track holds two embeddings and the region is similar to each. -/
def MeetsCutRule (embedding : Option Embedding) (track : ActiveTrack Kalman Embedding) : Prop :=
  2 ≤ track.embeddingHistory.length ∧ ∃ region, embedding = some region ∧
    ∀ prior ∈ track.embeddingHistory,
      input.options.sceneCutSimilarityThreshold ≤ input.functions.cosineSimilarity region prior

/-- A region that joins a track across a cut joins it by appearance and meets the rule. -/
def Isolated (event : RegionEvent Kalman Embedding) : Prop :=
  ∀ t track, event.joined = some t → event.before.tracks[t]? = some track →
    Crossed input track event.keyframe.timestampUs →
      event.overlaps = false ∧ MeetsCutRule input event.embedding track

/-- The region meets the rule for an object track that has no region on the keyframe. -/
def ReturnsTo (event : RegionEvent Kalman Embedding) (t : Nat) : Prop :=
  ∃ track, event.before.tracks[t]? = some track ∧ t ∉ event.before.assigned ∧
    track.candidateSource ≠ "motion_group" ∧ compatible event.candidate track = true ∧
    MeetsCutRule input event.embedding track

/-- At a cut, a detector region that meets the rule for a track joins such a track. -/
def Returned (event : RegionEvent Kalman Embedding) : Prop :=
  event.sceneCut = true → isDetectorCandidate event.candidate = true →
    (∃ t, ReturnsTo input event t) → ∃ t, ReturnsTo input event t ∧ event.joined = some t

/-- Every cut keyframe of a run is processed, or finds no track. -/
def CutsHandledFrom : Keyframe → List Keyframe → TrackerState Kalman Embedding → Prop
  | _, [], _ => True
  | previous, next :: rest, state =>
    (isolatedSceneCut input previous next = true →
      hasCandidates input next = true ∨ state.tracks = []) ∧
      CutsHandledFrom next rest (trackKeyframe input previous next state).1

def CutsHandled : List Keyframe → Prop
  | [] => True
  | first :: rest => CutsHandledFrom input first rest {}

/-- A track across a cut counts as lost. -/
def Safe (timestampUs : Int) (tracks : List (ActiveTrack Kalman Embedding)) : Prop :=
  ∀ track ∈ tracks, Crossed input track timestampUs → input.options.maxLostFrames < track.lostCount

/-- Every track has a region on the keyframe or counts as lost. -/
def CutSafe (state : TrackerState Kalman Embedding) : Prop :=
  ∀ t track, state.tracks[t]? = some track →
    t ∈ state.assigned ∨ input.options.maxLostFrames < track.lostCount

/-- A track that can be joined. -/
def Joinable (state : TrackerState Kalman Embedding) (t : Nat) : Prop :=
  ∃ track, state.tracks[t]? = some track ∧ t ∉ state.assigned ∧
    track.lostCount ≤ input.options.maxLostFrames

end

/-! ## Joining -/

section
variable {input : TrackerInput Kalman Embedding}

theorem bestScored_some {floor : ℚ} {score : Nat → Option ℚ} {count t : Nat}
    (best : (bestScored floor score count).2 = some t) : ∃ value, score t = some value := by
  induction count with
  | zero => cases best
  | succ count ih =>
    rw [bestScored, List.range_succ, List.foldl_append, ← bestScored] at best
    simp only [List.foldl_cons, List.foldl_nil] at best
    split at best
    · exact ih best
    · next value scored =>
      split at best
      · cases best
        exact ⟨value, scored⟩
      · exact ih best

theorem joinable_of_overlap {state : TrackerState Kalman Embedding} {predictedBoxes : List Rect}
    {candidate : UnifiedCandidate} {t : Nat} {value : ℚ}
    (scored : overlapScore input state predictedBoxes false candidate t = some value) :
    Joinable input state t := by
  unfold overlapScore at scored
  split at scored
  · cases scored
  · next track found =>
    split at scored
    · cases scored
    · next free =>
      split at scored
      · cases scored
      · next kept =>
        refine ⟨track, found, by simpa using free, ?_⟩
        simpa using kept

theorem joinable_of_appearance {state : TrackerState Kalman Embedding} {sceneCut : Bool}
    {candidate : UnifiedCandidate} {embedding : Embedding} {t : Nat}
    (found : reacquire input state sceneCut candidate embedding = some t) :
    Joinable input state t := by
  have best : (bestScored (-1) (appearanceScore input state sceneCut candidate embedding)
      state.tracks.length).2 = some t := by
    simp only [reacquire] at found
    split at found <;> split at found
    · cases found
    · exact found
    · cases found
    · exact found
  obtain ⟨value, scored⟩ := bestScored_some best
  unfold appearanceScore at scored
  split at scored
  · cases scored
  · next track known =>
    split at scored
    · cases scored
    · next free =>
      split at scored
      · cases scored
      · next kept => exact ⟨track, known, by simpa using free, not_lt.mp kept⟩

theorem joinable_of_joined {state : TrackerState Kalman Embedding} {sceneCut : Bool}
    {candidate : UnifiedCandidate} {best : ℚ × Option Nat} {embedding : Option Embedding} {t : Nat}
    (overlap : best.2 = some t → Joinable input state t)
    (joins : joinedTrack input state sceneCut candidate best embedding = some t) :
    Joinable input state t := by
  unfold joinedTrack at joins
  split at joins
  · exact overlap joins
  · obtain ⟨embedding, -, found⟩ := Option.bind_eq_some_iff.mp joins
    exact joinable_of_appearance found

/-- What one candidate does: nothing, or a region on a joinable track or a new one. -/
theorem processCandidate_cases (input : TrackerInput Kalman Embedding) (keyframe : Keyframe)
    (sceneCut : Bool) (predictedBoxes : List Rect) (state : TrackerState Kalman Embedding)
    (candidate : UnifiedCandidate) :
    processCandidate input keyframe sceneCut predictedBoxes state candidate = (state, none) ∨
      ∃ embedding overlaps joined,
        processCandidate input keyframe sceneCut predictedBoxes state candidate =
          (recordRegion input keyframe candidate embedding (!overlaps) joined state,
            some ⟨keyframe, sceneCut, candidate, embedding, overlaps, state, joined⟩) ∧
        ∀ t, joined = some t → Joinable input state t := by
  unfold processCandidate
  split
  · exact .inl rfl
  · dsimp only
    split
    · exact .inl rfl
    · refine .inr ⟨_, _, _, rfl, fun t joins => joinable_of_joined (fun isBest => ?_) joins⟩
      cases sceneCut with
      | true => cases isBest
      | false =>
        obtain ⟨value, scored⟩ := bestScored_some isBest
        exact joinable_of_overlap scored

/-! ## One keyframe -/

theorem Safe.map {timestampUs : Int} {tracks : List (ActiveTrack Kalman Embedding)}
    {f : ActiveTrack Kalman Embedding → ActiveTrack Kalman Embedding}
    (safe : Safe input timestampUs tracks) (ends : ∀ track, (f track).endUs = track.endUs)
    (more : ∀ track, track.lostCount ≤ (f track).lostCount) :
    Safe input timestampUs (tracks.map f) := by
  intro track mem crossed
  obtain ⟨earlier, inTracks, rfl⟩ := List.mem_map.mp mem
  refine (safe earlier inTracks ?_).trans_le (more earlier)
  obtain ⟨boundary, known, after, before⟩ := crossed
  exact ⟨boundary, known, ends earlier ▸ after, before⟩

theorem markLost_ends (keyframe : Keyframe) (track : ActiveTrack Kalman Embedding) :
    (markLost input keyframe track).endUs = track.endUs := by
  unfold markLost
  split <;> rfl

theorem markLost_more (keyframe : Keyframe) (track : ActiveTrack Kalman Embedding) :
    track.lostCount ≤ (markLost input keyframe track).lostCount := by
  unfold markLost
  split
  · exact (lt_add_one track.lostCount).le
  · exact le_rfl

/-- A track with a region on the keyframe is not separated from it. -/
theorem not_crossed_of_end {track : ActiveTrack Kalman Embedding} {timestampUs : Int}
    (ends : track.endUs = timestampUs) : ¬Crossed input track timestampUs := by
  rintro ⟨boundary, -, after, before⟩
  exact before.not_gt (ends ▸ after)

theorem safe_recordRegion {keyframe : Keyframe} {candidate : UnifiedCandidate}
    {embedding : Option Embedding} {reacquired : Bool} {joined : Option Nat}
    {state : TrackerState Kalman Embedding} (safe : Safe input keyframe.timestampUs state.tracks) :
    Safe input keyframe.timestampUs
      (recordRegion input keyframe candidate embedding reacquired joined state).tracks := by
  intro track mem crossed
  cases joined with
  | some t =>
    obtain ⟨i, found⟩ := List.mem_iff_getElem?.mp mem
    rw [recordRegion, List.getElem?_modify] at found
    obtain ⟨earlier, known, rfl⟩ := Option.map_eq_some_iff.mp found
    split at crossed
    · exact absurd crossed (not_crossed_of_end rfl)
    · next other =>
      rw [if_neg other]
      exact safe earlier (List.mem_of_getElem? known) crossed
  | none =>
    rcases List.mem_append.mp mem with old | new
    · exact safe track old crossed
    · rw [List.mem_singleton.mp new] at crossed
      exact absurd crossed (not_crossed_of_end rfl)

theorem cutSafe_recordRegion {keyframe : Keyframe} {candidate : UnifiedCandidate}
    {embedding : Option Embedding} {reacquired : Bool} {state : TrackerState Kalman Embedding}
    (safe : CutSafe input state) :
    CutSafe input (recordRegion input keyframe candidate embedding reacquired none state) := by
  intro t track found
  rw [recordRegion, List.getElem?_append] at found
  split at found
  · exact (safe t track found).imp (List.mem_cons_of_mem _) id
  · next later =>
    obtain ⟨here, -⟩ := List.getElem?_eq_some_iff.mp found
    have last : t = state.tracks.length := by
      rw [List.length_singleton] at here
      omega
    exact .inl (last ▸ List.mem_cons_self)

theorem CutSafe.not_joinable {state : TrackerState Kalman Embedding} (safe : CutSafe input state)
    (t : Nat) : ¬Joinable input state t := by
  rintro ⟨track, found, free, kept⟩
  rcases safe t track found with taken | lost
  · exact free taken
  · exact kept.not_gt lost

theorem processCandidates_cons (input : TrackerInput Kalman Embedding) (keyframe : Keyframe)
    (sceneCut : Bool) (predictedBoxes : List Rect) (state : TrackerState Kalman Embedding)
    (candidate : UnifiedCandidate) (rest : List UnifiedCandidate) :
    processCandidates input keyframe sceneCut predictedBoxes state (candidate :: rest) =
      let done := processCandidate input keyframe sceneCut predictedBoxes state candidate
      let later := processCandidates input keyframe sceneCut predictedBoxes done.1 rest
      (later.1, done.2.toList ++ later.2) := rfl

/-- What holds of every region of a keyframe. -/
structure RegionFacts (input : TrackerInput Kalman Embedding) (keyframe : Keyframe)
    (sceneCut : Bool) (event : RegionEvent Kalman Embedding) : Prop where
  keyframe_eq : event.keyframe = keyframe
  sceneCut_eq : event.sceneCut = sceneCut
  safe : Safe input keyframe.timestampUs event.before.tracks
  joinable : ∀ t, event.joined = some t → Joinable input event.before t
  not_joined : sceneCut = true → event.joined = none

theorem processCandidates_facts {keyframe : Keyframe} {sceneCut : Bool} {predictedBoxes : List Rect}
    (candidates : List UnifiedCandidate) {state : TrackerState Kalman Embedding}
    (safe : Safe input keyframe.timestampUs state.tracks)
    (cutSafe : sceneCut = true → CutSafe input state) :
    Safe input keyframe.timestampUs
        (processCandidates input keyframe sceneCut predictedBoxes state candidates).1.tracks ∧
      ∀ event ∈ (processCandidates input keyframe sceneCut predictedBoxes state candidates).2,
        RegionFacts input keyframe sceneCut event := by
  induction candidates generalizing state with
  | nil => exact ⟨safe, List.forall_mem_nil _⟩
  | cons candidate rest ih =>
    rw [processCandidates_cons]
    obtain same | ⟨embedding, overlaps, joined, done, joinable⟩ :=
      processCandidate_cases input keyframe sceneCut predictedBoxes state candidate
    · rw [same]
      exact ih safe cutSafe
    · have notJoined : sceneCut = true → joined = none := fun cut =>
        Option.eq_none_iff_forall_ne_some.mpr fun t joins =>
          (cutSafe cut).not_joinable t (joinable t joins)
      have cutSafeLater : sceneCut = true → CutSafe input
          (recordRegion input keyframe candidate embedding (!overlaps) joined state) := by
        intro cut
        rw [notJoined cut]
        exact cutSafe_recordRegion (cutSafe cut)
      have later := ih (safe_recordRegion safe) cutSafeLater
      rw [done]
      refine ⟨later.1, fun event mem => ?_⟩
      rcases List.mem_cons.mp mem with rfl | mem
      · exact ⟨rfl, rfl, safe, joinable, notJoined⟩
      · exact later.2 event mem

/-- Off a cut, a boundary before a keyframe is a boundary before the one before it. -/
theorem crossed_before {previous next : Keyframe} (noCut : isolatedSceneCut input previous next = false)
    {track : ActiveTrack Kalman Embedding} (crossed : Crossed input track next.timestampUs) :
    Crossed input track previous.timestampUs := by
  obtain ⟨boundary, known, after, before⟩ := crossed
  refine ⟨boundary, known, after, not_lt.mp fun between => ?_⟩
  have cut : isolatedSceneCut input previous next = true :=
    List.any_eq_true.mpr ⟨boundary, known, by simp [between, before]⟩
  exact Bool.false_ne_true (noCut.symm.trans cut)

theorem safe_leftState {keyframe : Keyframe} {timestampUs : Int}
    {state : TrackerState Kalman Embedding} (safe : Safe input timestampUs state.tracks) :
    Safe input timestampUs (leftState input keyframe state).tracks :=
  safe.map (markLost_ends keyframe) (markLost_more keyframe)

theorem safe_enteredState {previous next : Keyframe} {state : TrackerState Kalman Embedding}
    (safe : Safe input previous.timestampUs state.tracks) :
    Safe input next.timestampUs
      (enteredState input (isolatedSceneCut input previous next) state).tracks := by
  intro track mem crossed
  obtain ⟨earlier, inTracks, rfl⟩ := List.mem_map.mp mem
  cases cut : isolatedSceneCut input previous next with
  | true => exact lt_add_one input.options.maxLostFrames
  | false =>
    rw [cut] at crossed
    exact safe earlier inTracks (crossed_before cut crossed)

theorem cutSafe_enteredState (state : TrackerState Kalman Embedding) :
    CutSafe input (enteredState input true state) := by
  intro t track found
  rw [enteredState, List.getElem?_map] at found
  obtain ⟨earlier, -, rfl⟩ := Option.map_eq_some_iff.mp found
  exact .inr (lt_add_one input.options.maxLostFrames)

/-- A skipped keyframe is not a cut, or finds no track. -/
theorem safe_skipped {previous next : Keyframe} {state : TrackerState Kalman Embedding}
    (safe : Safe input previous.timestampUs state.tracks)
    (harmless : isolatedSceneCut input previous next = true → state.tracks = []) :
    Safe input next.timestampUs state.tracks := by
  intro track mem crossed
  cases cut : isolatedSceneCut input previous next with
  | true =>
    rw [harmless cut] at mem
    cases mem
  | false => exact safe track mem (crossed_before cut crossed)

/-- A keyframe keeps tracks across a cut lost, where a cut is processed. -/
theorem trackKeyframe_facts {previous next : Keyframe} {state : TrackerState Kalman Embedding}
    (safe : Safe input previous.timestampUs state.tracks)
    (handled : isolatedSceneCut input previous next = true →
      hasCandidates input next = true ∨ state.tracks = []) :
    Safe input next.timestampUs (trackKeyframe input previous next state).1.tracks ∧
      ∀ event ∈ (trackKeyframe input previous next state).2,
        RegionFacts input next (isolatedSceneCut input previous next) event := by
  by_cases proposes : hasCandidates input next = true
  · rw [trackKeyframe, if_pos proposes]
    have cutSafe : isolatedSceneCut input previous next = true →
        CutSafe input (enteredState input (isolatedSceneCut input previous next) state) := by
      intro cut
      rw [cut]
      exact cutSafe_enteredState state
    obtain ⟨safeLater, facts⟩ :=
      processCandidates_facts (unifiedCandidates input next) (safe_enteredState safe) cutSafe
    exact ⟨safe_leftState safeLater, facts⟩
  · rw [trackKeyframe, if_neg proposes]
    refine ⟨safe_leftState (safe_skipped safe fun cut => ?_), List.forall_mem_nil _⟩
    exact (handled cut).resolve_left proposes

/-! ## The run -/

theorem trackKeyframes_facts (keyframes : List Keyframe) {previous : Keyframe}
    {state : TrackerState Kalman Embedding} (safe : Safe input previous.timestampUs state.tracks)
    (handled : CutsHandledFrom input previous keyframes state) :
    ∀ event ∈ trackKeyframes input previous keyframes state,
      ∃ keyframe sceneCut, RegionFacts input keyframe sceneCut event := by
  induction keyframes generalizing previous state with
  | nil => exact List.forall_mem_nil _
  | cons next rest ih =>
    obtain ⟨here, later⟩ := handled
    obtain ⟨safeNext, facts⟩ := trackKeyframe_facts safe here
    intro event mem
    rcases List.mem_append.mp mem with now | after
    · exact ⟨_, _, facts event now⟩
    · exact ih safeNext later event after

/-- What holds of every region of a run that processes its cuts. -/
theorem region_facts {keyframes : List Keyframe} (handled : CutsHandled input keyframes)
    {event : RegionEvent Kalman Embedding} (mem : event ∈ runVisualEntityTracker input keyframes) :
    RegionFacts input event.keyframe event.sceneCut event := by
  cases keyframes with
  | nil => cases mem
  | cons first rest =>
    have safe : Safe input first.timestampUs ([] : List (ActiveTrack Kalman Embedding)) :=
      List.forall_mem_nil _
    obtain ⟨keyframe, sceneCut, facts⟩ := trackKeyframes_facts rest safe handled event mem
    have keyframe_eq := facts.keyframe_eq
    have sceneCut_eq := facts.sceneCut_eq
    subst keyframe_eq sceneCut_eq
    exact facts

/-- A track that can be joined is not across a cut. -/
theorem RegionFacts.isolated {event : RegionEvent Kalman Embedding}
    (facts : RegionFacts input event.keyframe event.sceneCut event) : Isolated input event := by
  intro t track joins known crossed
  obtain ⟨other, found, -, kept⟩ := facts.joinable t joins
  obtain rfl : track = other := Option.some_inj.mp (known.symm.trans found)
  exact absurd (facts.safe track (List.mem_of_getElem? known) crossed) kept.not_gt

/-- Where the cuts of a run are processed, the tracker keeps to the cut rule just when no
detector region at a cut meets it. -/
theorem sceneCuts_iff (input : TrackerInput Kalman Embedding) (keyframes : List Keyframe)
    (handled : CutsHandled input keyframes) :
    (∀ event ∈ runVisualEntityTracker input keyframes,
        Isolated input event ∧ Returned input event) ↔
      ∀ event ∈ runVisualEntityTracker input keyframes, event.sceneCut = true →
        isDetectorCandidate event.candidate = true → ¬∃ t, ReturnsTo input event t := by
  constructor
  · intro keeps event mem cut detector meets
    obtain ⟨t, -, joins⟩ := (keeps event mem).2 cut detector meets
    rw [(region_facts handled mem).not_joined cut] at joins
    cases joins
  · intro never event mem
    refine ⟨(region_facts handled mem).isolated, fun cut detector meets => ?_⟩
    exact absurd meets (never event mem cut detector)

/-- Where every keyframe has candidates the cuts are processed. -/
theorem cutsHandled_of_candidates {keyframes : List Keyframe}
    (candidates : ∀ keyframe ∈ keyframes, hasCandidates input keyframe = true) :
    CutsHandled input keyframes := by
  have handledFrom : ∀ (rest : List Keyframe) (previous : Keyframe)
      (state : TrackerState Kalman Embedding),
      (∀ keyframe ∈ rest, hasCandidates input keyframe = true) →
        CutsHandledFrom input previous rest state := by
    intro rest
    induction rest with
    | nil => exact fun _ _ _ => trivial
    | cons next rest ih =>
      intro previous state all
      obtain ⟨here, later⟩ := List.forall_mem_cons.mp all
      exact ⟨fun _ => .inl here, ih next _ later⟩
  cases keyframes with
  | nil => trivial
  | cons first rest => exact handledFrom rest first {} (List.forall_mem_cons.mp candidates).2

end

/-! ## What goes wrong -/

section

/-- One detector box on the frames `f1` to `f4`, always the same to look at, and a cut at
the third microsecond. -/
def oneBox : TrackerInput Unit Nat where
  options := {
    externalProposals := ["f1", "f2", "f3", "f4"].map fun frameId =>
      { frameId := frameId, boxPx := (0, 0, 10, 10), confidence := 1,
        source := "objectness_detector" } }
  functions := {
    computeIou := fun _ _ => 1
    computeIom := fun _ _ => 1
    hasGlobalMotionShape := fun _ => false
    init := fun _ => ()
    predict := fun _ => ((), ⟨0, 0, 10, 10⟩)
    correct := fun _ _ => ()
    markLost := fun _ => ()
    visualEmbedding := fun _ _ => some 7
    cosineSimilarity := fun a b => if a = b then 1 else 0 }
  frameWidth := 20
  frameHeight := 20
  shotBoundaries := [("cut", 3)]

def keyframeAt (frameId : String) (time : Nat) : Keyframe :=
  { frameIdx := time, frameId := frameId, timestampUs := time }

/-- The cut falls on a keyframe with the box. -/
def cutOnBox : List Keyframe :=
  [keyframeAt "f0" 0, keyframeAt "f1" 1, keyframeAt "f2" 2, keyframeAt "f3" 3]

/-- The cut falls on a keyframe without it. -/
def cutOnBlank : List Keyframe :=
  [keyframeAt "f0" 0, keyframeAt "f1" 1, keyframeAt "f2" 2, keyframeAt "blank" 3, keyframeAt "f4" 4]

theorem sceneCuts_iff_oneBox :
    CutsHandled oneBox (cutOnBox.drop 1) ∧
      ((∀ event ∈ runVisualEntityTracker oneBox (cutOnBox.drop 1),
          Isolated oneBox event ∧ Returned oneBox event) ↔
        ∀ event ∈ runVisualEntityTracker oneBox (cutOnBox.drop 1), event.sceneCut = true →
          isDetectorCandidate event.candidate = true → ¬∃ t, ReturnsTo oneBox event t) :=
  have handled : CutsHandled oneBox (cutOnBox.drop 1) :=
    cutsHandled_of_candidates (by decide)
  ⟨handled, sceneCuts_iff oneBox (cutOnBox.drop 1) handled⟩

/-- At a cut the box meets the rule and opens a new identity; and where the cut falls on a
blank keyframe, it joins its old track by overlap. -/
theorem skipped_cut_joins :
    (∃ event ∈ runVisualEntityTracker oneBox cutOnBox, ¬Returned oneBox event) ∧
      ∃ event ∈ runVisualEntityTracker oneBox cutOnBlank, ¬Isolated oneBox event := by
  constructor
  · have opens : (runVisualEntityTracker oneBox cutOnBox).any (fun event =>
        event.sceneCut && isDetectorCandidate event.candidate && event.joined.isNone &&
        decide (event.embedding = some 7) && decide (event.before.assigned = []) &&
        event.before.tracks[0]?.any (fun track =>
          decide (track.candidateSource ≠ "motion_group") && compatible event.candidate track &&
          decide (track.embeddingHistory = [7, 7]))) = true := by
      decide +kernel
    obtain ⟨event, mem, holds⟩ := List.any_eq_true.mp opens
    simp only [Bool.and_eq_true, decide_eq_true_eq, Option.isNone_iff_eq_none,
      Option.any_eq_true] at holds
    obtain ⟨⟨⟨⟨⟨cut, detector⟩, new⟩, embedding⟩, free⟩, track, found, ⟨object, fits⟩, history⟩ :=
      holds
    refine ⟨event, mem, fun returned => ?_⟩
    have meets : MeetsCutRule oneBox event.embedding track := by
      rw [MeetsCutRule, history, embedding]
      exact ⟨le_rfl, 7, rfl, by decide +kernel⟩
    have returnsTo : ReturnsTo oneBox event 0 :=
      ⟨track, found, free ▸ List.not_mem_nil, object, fits, meets⟩
    obtain ⟨t, -, joins⟩ := returned cut detector ⟨0, returnsTo⟩
    rw [new] at joins
    cases joins
  · have joins : (runVisualEntityTracker oneBox cutOnBlank).any (fun event =>
        event.overlaps && decide (event.joined = some 0) &&
        decide (event.keyframe.timestampUs = 4) &&
        event.before.tracks[0]?.any (fun track => decide (track.endUs = 2))) = true := by
      decide +kernel
    obtain ⟨event, mem, holds⟩ := List.any_eq_true.mp joins
    simp only [Bool.and_eq_true, decide_eq_true_eq, Option.any_eq_true] at holds
    obtain ⟨⟨⟨overlaps, joined⟩, time⟩, track, found, ends⟩ := holds
    refine ⟨event, mem, fun isolated => ?_⟩
    have crossed : Crossed oneBox track event.keyframe.timestampUs := by
      rw [time]
      exact ⟨("cut", 3), List.mem_singleton_self _, ends ▸ by decide, by decide⟩
    exact Bool.false_ne_true ((isolated 0 track joined found crossed).1.symm.trans overlaps)

end

end Svp.Vision

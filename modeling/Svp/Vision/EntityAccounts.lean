import Svp.Lib.Extent
import Svp.Lib.System
import Svp.Vision.EntityWindows

/-!
# Accounts of entities and tracks

What appending the regions of one fragment does to its entity (`EntityBooked.append`)
and to the ledger of all entities (`Ledger.append`). An entity and a track keep a
running extent of their timestamps: the first is kept, the last is overwritten. It
stays the extent of what they hold where the fragment is `InOrder` with them.
-/

namespace Svp.Vision

open Lib (OrderedMap Running Spans Along)

variable {ε : Type}

/-! ## One fragment -/

/-- The region without what the assembler writes into it. -/
def TrackedRegion.source (region : TrackedRegion ε) : TrackedRegion ε :=
  { region with regionId := "", entityId := "", trackId := "", maskRef := "", maskPixels := [] }

/-- What a loop over the regions has kept of their timestamps. -/
def TrackState.running (track : TrackState) : Running Int :=
  ⟨track.regionCount, track.startUs, track.endUs⟩

def EntityState.running (state : EntityState ε) : Running Int :=
  ⟨state.observationCount, state.firstSeenUs, state.lastSeenUs⟩

theorem source_timestampUs (region : TrackedRegion ε) :
    region.source.timestampUs = region.timestampUs := rfl

theorem timestamps_of_sources {out regions : List (TrackedRegion ε)}
    (same : out.map TrackedRegion.source = regions.map TrackedRegion.source) :
    out.map TrackedRegion.timestampUs = regions.map TrackedRegion.timestampUs := by
  have times := congrArg (List.map TrackedRegion.timestampUs) same
  simpa only [List.map_map, Function.comp_def, source_timestampUs] using times

/-- A stored region and the ids it was given. -/
theorem stored_region (region : TrackedRegion ε) (entityId trackId : String) (index : Nat) :
    let stored := (region.stamp entityId trackId index).withoutMask
    stored.source = region.source ∧ stored.entityId = entityId ∧ stored.trackId = trackId ∧
      stored.regionId = numberedId "region_" index := by
  intro stored
  simp only [stored, TrackedRegion.withoutMask]
  split
  · exact ⟨rfl, rfl, rfl, rfl⟩
  · exact ⟨rfl, rfl, rfl, rfl⟩

theorem rememberIdentityEvidence_eq (options : VisualEntityWindowAssemblerOptions)
    (state : EntityState ε) (region : TrackedRegion ε) :
    ∃ evidence, rememberIdentityEvidence options state region =
      { state with identityEvidence := evidence } := by
  unfold rememberIdentityEvidence
  split
  · exact ⟨_, rfl⟩
  · exact ⟨_, rfl⟩

theorem find?_observeTrack (tracks : OrderedMap String TrackState) (region : TrackedRegion ε)
    (id : String) :
    (observeTrack tracks region).find? id =
      if id = region.trackId then (tracks.find? id).map fun track => track.observe region
      else tracks.find? id := by
  unfold observeTrack
  split
  · next absent =>
    split
    · next here => rw [here, absent, Option.map_none]
    · rfl
  · next track found =>
    rw [OrderedMap.find?_insert]
    split
    · next here => rw [here, found, Option.map_some]
    · rfl

/-- What appending the regions to a track of the entity changes: `out` is what is
stored. -/
structure Filled (before : FragmentAppend ε) (regions : List (TrackedRegion ε))
    (after : FragmentAppend ε) (out : List (TrackedRegion ε)) : Prop where
  sources : out.map TrackedRegion.source = regions.map TrackedRegion.source
  numbers : out.map TrackedRegion.regionId =
    (List.range' before.nextRegionIndex regions.length).map (numberedId "region_")
  owner : ∀ r ∈ out, r.entityId = before.state.entityId ∧ r.trackId = before.outputTrackId
  stored : after.state.regions = before.state.regions ++ out
  entityId : after.state.entityId = before.state.entityId
  trackIds : after.state.trackIds = before.state.trackIds
  running : after.state.running =
    (regions.map TrackedRegion.timestampUs).foldl Running.observe before.state.running
  tracks : ∀ id, after.state.tracks.find? id =
    if id = before.outputTrackId then
      (before.state.tracks.find? id).map fun track => regions.foldl TrackState.observe track
    else before.state.tracks.find? id
  nextTrack : after.nextTrackIndex = before.nextTrackIndex
  nextRegion : after.nextRegionIndex = before.nextRegionIndex + regions.length

theorem filled_record (options : VisualEntityWindowAssemblerOptions) (before : FragmentAppend ε)
    (region : TrackedRegion ε) :
    Filled before [region] (before.record options region)
      [(region.stamp before.state.entityId before.outputTrackId
        before.nextRegionIndex).withoutMask] := by
  obtain ⟨source, entity, track, number⟩ := stored_region region before.state.entityId
    before.outputTrackId before.nextRegionIndex
  obtain ⟨evidence, remembered⟩ := rememberIdentityEvidence_eq options
    (before.state.observe (region.stamp before.state.entityId before.outputTrackId
      before.nextRegionIndex))
    (region.stamp before.state.entityId before.outputTrackId before.nextRegionIndex).withoutMask
  refine ⟨?_, ?_, ?_, ?_, ?_, ?_, ?_, fun id => ?_, rfl, rfl⟩
  · rw [List.map_singleton, source, List.map_singleton]
  · rw [List.map_singleton, number]
    rfl
  · intro r mem
    rw [List.mem_singleton.mp mem]
    exact ⟨entity, track⟩
  · simp only [FragmentAppend.record, remembered]
    rfl
  · simp only [FragmentAppend.record, remembered]
    rfl
  · simp only [FragmentAppend.record, remembered]
    rfl
  · simp only [FragmentAppend.record, remembered]
    rfl
  · simp only [FragmentAppend.record, remembered]
    exact find?_observeTrack before.state.tracks _ id

theorem Filled.trans {before middle after : FragmentAppend ε}
    {first second out out' : List (TrackedRegion ε)} (h : Filled before first middle out)
    (same : middle.outputTrackId = before.outputTrackId)
    (h' : Filled middle second after out') :
    Filled before (first ++ second) after (out ++ out') where
  sources := by rw [List.map_append, List.map_append, h.sources, h'.sources]
  numbers := by
    rw [List.map_append, h.numbers, h'.numbers, h.nextRegion, ← List.map_append,
      List.length_append, List.range'_append_1]
  owner := by
    intro r mem
    rcases List.mem_append.mp mem with early | late
    · exact h.owner r early
    · rw [← h.entityId, ← same]
      exact h'.owner r late
  stored := by rw [h'.stored, h.stored, List.append_assoc]
  entityId := h'.entityId.trans h.entityId
  trackIds := h'.trackIds.trans h.trackIds
  running := by rw [h'.running, h.running, List.map_append, List.foldl_append]
  tracks := by
    intro id
    rw [h'.tracks, h.tracks, same]
    split
    · rw [Option.map_map]
      simp only [Function.comp_def, List.foldl_append]
    · rfl
  nextTrack := h'.nextTrack.trans h.nextTrack
  nextRegion := by rw [h'.nextRegion, h.nextRegion, List.length_append, Nat.add_assoc]

theorem filled_nil (before : FragmentAppend ε) : Filled before [] before [] where
  sources := rfl
  numbers := rfl
  owner := by simp
  stored := (List.append_nil _).symm
  entityId := rfl
  trackIds := rfl
  running := rfl
  tracks := by
    intro id
    simp
  nextTrack := rfl
  nextRegion := rfl

theorem filled_foldl (options : VisualEntityWindowAssemblerOptions) (before : FragmentAppend ε)
    (regions : List (TrackedRegion ε)) :
    ∃ out, Filled before regions (regions.foldl (FragmentAppend.record options) before) out := by
  induction regions generalizing before with
  | nil => exact ⟨[], filled_nil before⟩
  | cons region rest ih =>
    obtain ⟨out, filled⟩ := ih (before.record options region)
    exact ⟨_, (filled_record options before region).trans rfl filled⟩

/-- The entity's last track is continued, or a new one is opened. -/
theorem openTrack_cases (f : FragmentAppend ε) (continuesTrack : Bool) :
    (∃ id, continuesTrack = true ∧ f.state.trackIds.getLast? = some id ∧
      f.openTrack continuesTrack = { f with outputTrackId := id }) ∨
    ((continuesTrack = false ∨ f.state.trackIds = []) ∧
      f.openTrack continuesTrack = f.newTrack) := by
  unfold FragmentAppend.openTrack
  split
  · next id last =>
    cases continuesTrack with
    | false => exact .inr ⟨.inl rfl, rfl⟩
    | true => exact .inl ⟨id, rfl, last, rfl⟩
  · next none => exact .inr ⟨.inr (List.getLast?_eq_none_iff.mp none), rfl⟩

theorem record_outputTrackId (options : VisualEntityWindowAssemblerOptions)
    (f : FragmentAppend ε) (region : TrackedRegion ε) :
    (f.record options region).outputTrackId = f.outputTrackId := rfl

/-- The regions `append_window` appends of a fragment. -/
def passing (options : VisualEntityWindowAssemblerOptions) (emitAfterUs : Int)
    (regions : List (TrackedRegion ε)) : List (TrackedRegion ε) :=
  regions.filter (passes options emitAfterUs)

theorem foldl_appendRegion (options : VisualEntityWindowAssemblerOptions) (emitAfterUs : Int)
    (continuesTrack : Bool) (f : FragmentAppend ε) (regions : List (TrackedRegion ε)) :
    regions.foldl (appendRegion options emitAfterUs continuesTrack) f =
      (passing options emitAfterUs regions).foldl
        (fun f region =>
          (if f.outputTrackId = "" then f.openTrack continuesTrack else f).record options region)
        f := by
  rw [passing, List.foldl_filter]
  rfl

/-- The track is opened at the first region and kept. -/
theorem foldl_appendRegion_open {options : VisualEntityWindowAssemblerOptions} {emitAfterUs : Int}
    {continuesTrack : Bool} {f : FragmentAppend ε} {regions : List (TrackedRegion ε)}
    (unopened : f.outputTrackId = "") (opened : (f.openTrack continuesTrack).outputTrackId ≠ "")
    (some : passing options emitAfterUs regions ≠ []) :
    regions.foldl (appendRegion options emitAfterUs continuesTrack) f =
      (passing options emitAfterUs regions).foldl (FragmentAppend.record options)
        (f.openTrack continuesTrack) := by
  have kept : ∀ (rest : List (TrackedRegion ε)) (g : FragmentAppend ε), g.outputTrackId ≠ "" →
      rest.foldl
        (fun f region =>
          (if f.outputTrackId = "" then f.openTrack continuesTrack else f).record options region)
        g = rest.foldl (FragmentAppend.record options) g := by
    intro rest
    induction rest with
    | nil => exact fun g _ => rfl
    | cons region rest ih =>
      intro g named
      rw [List.foldl_cons, List.foldl_cons, if_neg named]
      exact ih (g.record options region) named
  rw [foldl_appendRegion]
  cases found : passing options emitAfterUs regions with
  | nil => exact absurd found some
  | cons region rest =>
    rw [List.foldl_cons, List.foldl_cons, if_pos unopened, kept]
    rwa [record_outputTrackId]

/-! ## Accounts of all entities -/

/-- The timestamps of the regions that carry `id`. -/
def timesOf (key : TrackedRegion ε → String) (id : String) (appended : List (TrackedRegion ε)) :
    List Int :=
  (appended.filter fun r => decide (key r = id)).map TrackedRegion.timestampUs

theorem timesOf_append (key : TrackedRegion ε → String) (id : String)
    (appended out : List (TrackedRegion ε)) :
    timesOf key id (appended ++ out) = timesOf key id appended ++ timesOf key id out := by
  rw [timesOf, List.filter_append, List.map_append]
  rfl

theorem timesOf_all {key : TrackedRegion ε → String} {id : String}
    {out : List (TrackedRegion ε)} (all : ∀ r ∈ out, key r = id) :
    timesOf key id out = out.map TrackedRegion.timestampUs := by
  rw [timesOf, List.filter_eq_self.mpr fun r mem => decide_eq_true (all r mem)]

theorem timesOf_none {key : TrackedRegion ε → String} {id : String}
    {out : List (TrackedRegion ε)} (none : ∀ r ∈ out, key r ≠ id) : timesOf key id out = [] := by
  rw [timesOf, List.filter_eq_nil_iff.mpr fun r mem => by simpa using none r mem, List.map_nil]

/-- The book of one entity: its numbers, its extent and those of its tracks. -/
structure EntityBooked (nextEntity nextTrack : Nat) (appended : List (TrackedRegion ε))
    (key : String) (state : EntityState ε) : Prop where
  name : state.entityId = key
  number : ∃ i < nextEntity, key = numberedId "entity_" i
  trackIds : state.trackIds.Nodup
  trackNumbers : ∀ id ∈ state.trackIds, ∃ i < nextTrack, id = numberedId "track_" i
  trackKeys : ∀ id track, state.tracks.find? id = some track → id ∈ state.trackIds
  account : state.running.Exact (timesOf TrackedRegion.entityId key appended)
  tracks : ∀ id ∈ state.trackIds, ∃ track, state.tracks.find? id = some track ∧
    track.running.Exact (timesOf TrackedRegion.trackId id appended) ∧
    track.regionCount < 2 ^ 31

/-- The track that a fragment continues, if it continues one. -/
def EntityState.continuedTrack (state : EntityState ε) (continuesTrack : Bool) :
    Option TrackState :=
  if continuesTrack then state.trackIds.getLast?.bind state.tracks.find? else none

/-- When a fragment keeps the accounts of the entity and the track it is appended to:
it begins no earlier than they were first seen and ends no earlier than they were last
seen. The two other bounds are those of the types: no region at the largest timestamp,
fewer than `2 ^ 31` regions in a track. -/
structure InOrder (state : EntityState ε) (continuesTrack : Bool)
    (regions : List (TrackedRegion ε)) : Prop where
  entity : regions ≠ [] → 0 < state.observationCount →
    state.firstSeenUs ≤ frontUs regions ∧ state.lastSeenUs ≤ backUs regions
  track : regions ≠ [] → ∀ track ∈ state.continuedTrack continuesTrack,
    track.startUs ≤ frontUs regions ∧ track.endUs ≤ backUs regions
  finite : ∀ r ∈ regions, r.timestampUs < maxTimestampUs
  count : ((state.continuedTrack continuesTrack).elim 0 TrackState.regionCount) +
    regions.length < 2 ^ 31

theorem frontUs_mem_head? {regions : List (TrackedRegion ε)} {first : Int}
    (head : first ∈ (regions.map TrackedRegion.timestampUs).head?) : frontUs regions = first := by
  cases regions with
  | nil => cases head
  | cons region rest =>
    cases head
    rfl

theorem backUs_mem_getLast? {regions : List (TrackedRegion ε)} {last : Int}
    (final : last ∈ (regions.map TrackedRegion.timestampUs).getLast?) : backUs regions = last := by
  rw [List.getLast?_map] at final
  rw [backUs, final, Option.getD_some]

/-- A piece in order keeps a running extent. -/
theorem exact_append {r : Running Int} {times : List Int} {regions : List (TrackedRegion ε)}
    (exact : r.Exact times)
    (sorted : (regions.map TrackedRegion.timestampUs).Pairwise (· ≤ ·))
    (order : regions ≠ [] → 0 < r.count → r.first ≤ frontUs regions ∧ r.last ≤ backUs regions) :
    ((regions.map TrackedRegion.timestampUs).foldl Running.observe r).Exact
      (times ++ regions.map TrackedRegion.timestampUs) := by
  refine exact.foldl_observe sorted (fun first head seen => ?_) fun last final seen => ?_
  · have some : regions ≠ [] := by
      rintro rfl
      cases head
    rw [← frontUs_mem_head? head]
    exact (order some seen).1
  · have some : regions ≠ [] := by
      rintro rfl
      cases final
    rw [← backUs_mem_getLast? final]
    exact (order some seen).2

theorem running_foldl_observe (track : TrackState) (regions : List (TrackedRegion ε)) :
    (regions.foldl TrackState.observe track).running =
      (regions.map TrackedRegion.timestampUs).foldl Running.observe track.running := by
  induction regions generalizing track with
  | nil => rfl
  | cons region rest ih => exact ih (track.observe region)

theorem regionCount_foldl_observe (track : TrackState) (regions : List (TrackedRegion ε)) :
    (regions.foldl TrackState.observe track).regionCount = track.regionCount + regions.length := by
  induction regions generalizing track with
  | nil => rfl
  | cons region rest ih =>
    rw [List.foldl_cons, ih, List.length_cons]
    exact Nat.add_right_comm track.regionCount 1 rest.length

section Booked

variable {nextEntity : Nat} {appended : List (TrackedRegion ε)} {key : String}
  {f : FragmentAppend ε} {continuesTrack : Bool}

theorem find?_newTrack (f : FragmentAppend ε)
    (absent : f.state.tracks.find? (numberedId "track_" f.nextTrackIndex) = none) (id : String) :
    f.newTrack.state.tracks.find? id =
      if id = numberedId "track_" f.nextTrackIndex then
        some { trackId := id, reacquired := decide (1 < f.state.trackIds.length + 1) }
      else f.state.tracks.find? id := by
  have inserted : f.newTrack.state.tracks = f.state.tracks.insert
      (numberedId "track_" f.nextTrackIndex)
      { trackId := numberedId "track_" f.nextTrackIndex
        reacquired := decide (1 < f.state.trackIds.length + 1) } :=
    OrderedMap.emplace_absent _ absent
  rw [inserted, OrderedMap.find?_insert]
  split
  · next here => rw [here]
  · rfl

theorem EntityBooked.track_absent
    (h : EntityBooked nextEntity f.nextTrackIndex appended key f.state) :
    numberedId "track_" f.nextTrackIndex ∉ f.state.trackIds := by
  intro mem
  obtain ⟨i, less, same⟩ := h.trackNumbers _ mem
  exact absurd (numberedId_injective same) less.ne'

theorem EntityBooked.find?_absent
    (h : EntityBooked nextEntity f.nextTrackIndex appended key f.state) :
    f.state.tracks.find? (numberedId "track_" f.nextTrackIndex) = none := by
  cases found : f.state.tracks.find? (numberedId "track_" f.nextTrackIndex) with
  | none => rfl
  | some track => exact absurd (h.trackKeys _ track found) h.track_absent

/-- A new track is an empty account. -/
theorem EntityBooked.newTrack
    (h : EntityBooked nextEntity f.nextTrackIndex appended key f.state)
    (unused : ∀ r ∈ appended, r.trackId ≠ numberedId "track_" f.nextTrackIndex) :
    EntityBooked nextEntity f.newTrack.nextTrackIndex appended key f.newTrack.state where
  name := h.name
  number := h.number
  trackIds := by
    refine List.nodup_append.mpr ⟨h.trackIds, List.nodup_singleton _, fun id mem other here => ?_⟩
    rw [List.mem_singleton.mp here]
    rintro rfl
    exact h.track_absent mem
  trackNumbers := by
    intro id mem
    rcases List.mem_append.mp mem with old | new
    · obtain ⟨i, less, same⟩ := h.trackNumbers id old
      exact ⟨i, less.trans (Nat.lt_succ_self _), same⟩
    · exact ⟨f.nextTrackIndex, Nat.lt_succ_self _, List.mem_singleton.mp new⟩
  trackKeys := by
    intro id track found
    rw [find?_newTrack f h.find?_absent] at found
    split at found
    · next here => exact List.mem_append_right _ (List.mem_singleton.mpr here)
    · exact List.mem_append_left _ (h.trackKeys id track found)
  account := h.account
  tracks := by
    intro id mem
    rw [find?_newTrack f h.find?_absent]
    split
    · next here =>
      refine ⟨_, rfl, ?_, Nat.two_pow_pos 31⟩
      rw [here, timesOf_none unused]
      exact Lib.Running.exact_empty 0 0
    · next other =>
      rcases List.mem_append.mp mem with old | new
      · exact h.tracks id old
      · exact absurd (List.mem_singleton.mp new) other

theorem EntityBooked.openTrack
    (h : EntityBooked nextEntity f.nextTrackIndex appended key f.state)
    (unused : ∀ r ∈ appended, r.trackId ≠ numberedId "track_" f.nextTrackIndex) :
    EntityBooked nextEntity (f.openTrack continuesTrack).nextTrackIndex appended key
      (f.openTrack continuesTrack).state := by
  rcases openTrack_cases f continuesTrack with ⟨id, -, -, continued⟩ | ⟨-, new⟩
  · rw [continued]
    exact h
  · rw [new]
    exact h.newTrack unused

/-- The track that is opened is the one continued, or it is empty. -/
theorem EntityBooked.openedTrack
    (h : EntityBooked nextEntity f.nextTrackIndex appended key f.state) (continuesTrack : Bool) :
    (f.openTrack continuesTrack).outputTrackId ∈ (f.openTrack continuesTrack).state.trackIds ∧
    ∃ track, (f.openTrack continuesTrack).state.tracks.find?
        (f.openTrack continuesTrack).outputTrackId = some track ∧
      (f.state.continuedTrack continuesTrack = some track ∨
        f.state.continuedTrack continuesTrack = none ∧ track.regionCount = 0) := by
  rcases openTrack_cases f continuesTrack with ⟨id, yes, last, continued⟩ | ⟨no, new⟩
  · have mem : id ∈ f.state.trackIds := List.mem_of_getLast? last
    obtain ⟨track, found, -⟩ := h.tracks id mem
    rw [continued]
    refine ⟨mem, track, found, .inl ?_⟩
    rw [EntityState.continuedTrack, if_pos yes, last, Option.bind_some, found]
  · rw [new]
    refine ⟨List.mem_append_right _ (List.mem_singleton.mpr rfl), _,
      by rw [find?_newTrack f h.find?_absent]; exact if_pos rfl, .inr ⟨?_, rfl⟩⟩
    rcases no with no | none
    · rw [EntityState.continuedTrack, no]
      rfl
    · rw [EntityState.continuedTrack, none]
      split <;> rfl

/-- Regions appended in order keep the book. -/
theorem EntityBooked.fill {after : FragmentAppend ε} {regions out : List (TrackedRegion ε)}
    {track : TrackState}
    (h : EntityBooked nextEntity f.nextTrackIndex appended key f.state)
    (filled : Filled f regions after out)
    (sorted : (regions.map TrackedRegion.timestampUs).Pairwise (· ≤ ·))
    (order : regions ≠ [] → 0 < f.state.observationCount →
      f.state.firstSeenUs ≤ frontUs regions ∧ f.state.lastSeenUs ≤ backUs regions)
    (found : f.state.tracks.find? f.outputTrackId = some track)
    (trackOrder : regions ≠ [] → 0 < track.regionCount →
      track.startUs ≤ frontUs regions ∧ track.endUs ≤ backUs regions)
    (count : track.regionCount + regions.length < 2 ^ 31) :
    EntityBooked nextEntity after.nextTrackIndex (appended ++ out) key after.state where
  name := filled.entityId.trans h.name
  number := h.number
  trackIds := filled.trackIds ▸ h.trackIds
  trackNumbers := by
    rw [filled.trackIds, filled.nextTrack]
    exact h.trackNumbers
  trackKeys := by
    intro id track' found'
    rw [filled.trackIds]
    rw [filled.tracks] at found'
    split at found'
    · next here => exact here ▸ h.trackKeys _ track found
    · exact h.trackKeys id track' found'
  account := by
    rw [filled.running, timesOf_append,
      timesOf_all fun r mem => (filled.owner r mem).1.trans h.name,
      timestamps_of_sources filled.sources]
    exact exact_append h.account sorted order
  tracks := by
    intro id mem
    rw [filled.trackIds] at mem
    obtain ⟨old, found', exact, small⟩ := h.tracks id mem
    rw [filled.tracks, timesOf_append]
    split
    · next here =>
      have same : old = track := by
        rw [here, found] at found'
        exact (Option.some.inj found').symm
      subst same
      rw [found', Option.map_some, timesOf_all fun r mem => (filled.owner r mem).2.trans here.symm,
        timestamps_of_sources filled.sources]
      refine ⟨_, rfl, ?_, ?_⟩
      · rw [running_foldl_observe]
        exact exact_append exact sorted trackOrder
      · rwa [regionCount_foldl_observe]
    · next other =>
      rw [timesOf_none fun r mem same => other (same.symm.trans (filled.owner r mem).2),
        List.append_nil]
      exact ⟨old, found', exact, small⟩

/-- What a fragment's regions do to the entity they are appended to. -/
structure Appended (state : EntityState ε) (nextTrack nextRegion : Nat)
    (regions : List (TrackedRegion ε)) (state' : EntityState ε) (nextTrack' nextRegion' : Nat)
    (out : List (TrackedRegion ε)) : Prop where
  sources : out.map TrackedRegion.source = regions.map TrackedRegion.source
  numbers : out.map TrackedRegion.regionId =
    (List.range' nextRegion regions.length).map (numberedId "region_")
  owner : ∀ r ∈ out, r.entityId = state.entityId ∧ r.trackId ∈ state'.trackIds
  stored : state'.regions = state.regions ++ out
  old : ∀ id ∈ state.trackIds, id ∈ state'.trackIds
  new : ∀ id ∈ state'.trackIds, id ∈ state.trackIds ∨ id = numberedId "track_" nextTrack
  used : ∀ id ∈ state'.trackIds, id ∈ state.trackIds ∨ ∃ r ∈ out, r.trackId = id
  nextTrack : nextTrack ≤ nextTrack'
  nextRegion : nextRegion' = nextRegion + regions.length

theorem openTrack_state (f : FragmentAppend ε) (continuesTrack : Bool) :
    let opened := f.openTrack continuesTrack
    opened.state.entityId = f.state.entityId ∧ opened.state.regions = f.state.regions ∧
      opened.state.running = f.state.running ∧ opened.nextRegionIndex = f.nextRegionIndex ∧
      f.nextTrackIndex ≤ opened.nextTrackIndex ∧
      (∀ id ∈ f.state.trackIds, id ∈ opened.state.trackIds) ∧
      (∀ id ∈ opened.state.trackIds, id ∈ f.state.trackIds ∨
        id = numberedId "track_" f.nextTrackIndex ∧ id = opened.outputTrackId) := by
  intro opened
  rcases openTrack_cases f continuesTrack with ⟨id, -, -, continued⟩ | ⟨-, new⟩
  · simp only [opened, continued]
    exact ⟨trivial, trivial, trivial, trivial, le_rfl, fun id mem => mem, fun id mem => .inl mem⟩
  · simp only [opened, new]
    refine ⟨rfl, rfl, rfl, rfl, Nat.le_succ _, fun id mem => List.mem_append_left _ mem,
      fun id mem => ?_⟩
    rcases List.mem_append.mp mem with old | fresh
    · exact .inl old
    · exact .inr ⟨List.mem_singleton.mp fresh, List.mem_singleton.mp fresh⟩

theorem EntityBooked.opened_named
    (h : EntityBooked nextEntity f.nextTrackIndex appended key f.state)
    (unused : ∀ r ∈ appended, r.trackId ≠ numberedId "track_" f.nextTrackIndex) :
    (f.openTrack continuesTrack).outputTrackId ≠ "" := by
  obtain ⟨i, -, same⟩ :=
    (h.openTrack unused).trackNumbers _ (h.openedTrack continuesTrack).1
  rw [same]
  exact numberedId_ne_empty (by decide) i

/-- The regions of a fragment that pass, appended to a booked entity. -/
theorem EntityBooked.append {options : VisualEntityWindowAssemblerOptions} {emitAfterUs : Int}
    {regions : List (TrackedRegion ε)} (unopened : f.outputTrackId = "")
    (h : EntityBooked nextEntity f.nextTrackIndex appended key f.state)
    (unused : ∀ r ∈ appended, r.trackId ≠ numberedId "track_" f.nextTrackIndex)
    (sorted : (regions.map TrackedRegion.timestampUs).Pairwise (· ≤ ·))
    (order : InOrder f.state continuesTrack (passing options emitAfterUs regions)) :
    let after := regions.foldl (appendRegion options emitAfterUs continuesTrack) f
    ∃ out, Appended f.state f.nextTrackIndex f.nextRegionIndex
        (passing options emitAfterUs regions) after.state after.nextTrackIndex
        after.nextRegionIndex out ∧
      EntityBooked nextEntity after.nextTrackIndex (appended ++ out) key after.state := by
  intro after
  rcases eq_or_ne (passing options emitAfterUs regions) [] with none | some
  · have unchanged : after = f := by
      rw [show after = _ from foldl_appendRegion options emitAfterUs continuesTrack f regions, none,
        List.foldl_nil]
    rw [unchanged, none]
    refine ⟨[], ⟨rfl, rfl, by simp, (List.append_nil _).symm, fun id mem => mem,
      fun id mem => .inl mem, fun id mem => .inl mem, le_rfl, rfl⟩, ?_⟩
    rwa [List.append_nil]
  · have run : after = _ := foldl_appendRegion_open unopened (h.opened_named unused) some
    obtain ⟨out, filled⟩ := filled_foldl options (f.openTrack continuesTrack)
      (passing options emitAfterUs regions)
    obtain ⟨mem, track, found, continued⟩ := h.openedTrack continuesTrack
    obtain ⟨entityId, stored, running, nextRegion, nextTrack, old, new⟩ :=
      openTrack_state f continuesTrack
    rw [← run] at filled
    have length : out.length = (passing options emitAfterUs regions).length := by
      simpa using congrArg List.length filled.sources
    have outSome : out ≠ [] := by
      rintro rfl
      exact some (List.length_eq_zero_iff.mp length.symm)
    refine ⟨out, ⟨filled.sources, nextRegion ▸ filled.numbers, fun r hr => ?_,
      stored ▸ filled.stored, fun id hid => ?_, fun id hid => ?_, fun id hid => ?_,
      nextTrack.trans filled.nextTrack.ge, nextRegion ▸ filled.nextRegion⟩, ?_⟩
    · rw [filled.trackIds, ← entityId]
      exact ⟨(filled.owner r hr).1, (filled.owner r hr).2 ▸ mem⟩
    · rw [filled.trackIds]
      exact old id hid
    · rw [filled.trackIds] at hid
      exact (new id hid).imp_right And.left
    · rw [filled.trackIds] at hid
      refine (new id hid).imp_right fun fresh => ?_
      obtain ⟨r, hr⟩ := List.exists_mem_of_ne_nil out outSome
      exact ⟨r, hr, (filled.owner r hr).2.trans fresh.2.symm⟩
    · refine (h.openTrack unused).fill filled (sorted.sublist (List.filter_sublist.map _))
        ?_ found ?_ ?_
      · have same : (f.openTrack continuesTrack).state.running = f.state.running := running
        simp only [EntityState.running, Running.mk.injEq] at same
        rw [same.1, same.2.1, same.2.2]
        exact order.entity
      · intro passed seen
        rcases continued with continues | ⟨-, empty⟩
        · exact order.track passed track continues
        · exact absurd empty seen.ne'
      · have count := order.count
        rcases continued with continues | ⟨none, empty⟩
        · rwa [continues] at count
        · rw [none] at count
          rwa [empty]

end Booked

/-! ## The ledger -/

/-- The books of all entities, for the regions appended so far. -/
structure Ledger (entities : OrderedMap String (EntityState ε))
    (nextEntity nextTrack nextRegion : Nat) (appended : List (TrackedRegion ε)) : Prop where
  regionIds : (appended.map TrackedRegion.regionId).Nodup
  regionNumbers : ∀ r ∈ appended, ∃ i < nextRegion, r.regionId = numberedId "region_" i
  booked : ∀ key state, (key, state) ∈ entities.entries →
    EntityBooked nextEntity nextTrack appended key state
  owners : ∀ p ∈ entities.entries, ∀ q ∈ entities.entries, ∀ id ∈ p.2.trackIds,
    id ∈ q.2.trackIds → p.1 = q.1
  named : ∀ r ∈ appended, ∃ state, (r.entityId, state) ∈ entities.entries ∧
    r.trackId ∈ state.trackIds
  used : ∀ p ∈ entities.entries, ∀ id ∈ p.2.trackIds, ∃ r ∈ appended, r.trackId = id

section Ledgers

variable {entities : OrderedMap String (EntityState ε)} {nextEntity nextTrack nextRegion : Nat}
  {appended : List (TrackedRegion ε)}

theorem Ledger.unused (h : Ledger entities nextEntity nextTrack nextRegion appended) :
    ∀ r ∈ appended, r.trackId ≠ numberedId "track_" nextTrack := by
  intro r mem same
  obtain ⟨state, owner, track⟩ := h.named r mem
  obtain ⟨i, less, number⟩ := (h.booked _ _ owner).trackNumbers _ track
  exact absurd (numberedId_injective (same.symm.trans number)) less.ne'

theorem Ledger.numbers_append (h : Ledger entities nextEntity nextTrack nextRegion appended)
    {out : List (TrackedRegion ε)} {count : Nat}
    (numbers : out.map TrackedRegion.regionId =
      (List.range' nextRegion count).map (numberedId "region_")) :
    ((appended ++ out).map TrackedRegion.regionId).Nodup ∧
      ∀ r ∈ appended ++ out, ∃ i < nextRegion + count, r.regionId = numberedId "region_" i := by
  have fresh : ∀ r ∈ out, ∃ i, nextRegion ≤ i ∧ i < nextRegion + count ∧
      r.regionId = numberedId "region_" i := by
    intro r mem
    have listed : r.regionId ∈ (List.range' nextRegion count).map (numberedId "region_") :=
      numbers ▸ List.mem_map_of_mem mem
    obtain ⟨i, range, same⟩ := List.mem_map.mp listed
    exact ⟨i, (List.mem_range'_1.mp range).1, (List.mem_range'_1.mp range).2, same.symm⟩
  constructor
  · rw [List.map_append, List.nodup_append]
    refine ⟨h.regionIds, ?_, fun id old other new => ?_⟩
    · rw [numbers]
      exact List.Nodup.map (fun i j => numberedId_injective) List.nodup_range'
    · rintro rfl
      obtain ⟨r, mem, rfl⟩ := List.mem_map.mp old
      obtain ⟨r', mem', same⟩ := List.mem_map.mp new
      obtain ⟨i, less, number⟩ := h.regionNumbers r mem
      obtain ⟨j, above, -, number'⟩ := fresh r' mem'
      have equal : j = i := numberedId_injective (number'.symm.trans (same.trans number))
      exact absurd (equal ▸ above) (not_le.mpr less)
  · intro r mem
    rcases List.mem_append.mp mem with old | new
    · obtain ⟨i, less, same⟩ := h.regionNumbers r old
      exact ⟨i, less.trans_le (Nat.le_add_right _ _), same⟩
    · obtain ⟨i, -, less, same⟩ := fresh r new
      exact ⟨i, less, same⟩

/-- An entity that is neither written to nor shares a track keeps its book. -/
theorem EntityBooked.frame {nextTrack' : Nat} {out : List (TrackedRegion ε)} {key : String}
    {state : EntityState ε} (h : EntityBooked nextEntity nextTrack appended key state)
    (later : nextTrack ≤ nextTrack') (entity : ∀ r ∈ out, r.entityId ≠ key)
    (tracks : ∀ r ∈ out, r.trackId ∉ state.trackIds) :
    EntityBooked nextEntity nextTrack' (appended ++ out) key state where
  name := h.name
  number := h.number
  trackIds := h.trackIds
  trackNumbers := by
    intro id mem
    obtain ⟨i, less, same⟩ := h.trackNumbers id mem
    exact ⟨i, less.trans_le later, same⟩
  trackKeys := h.trackKeys
  account := by
    rw [timesOf_append, timesOf_none entity, List.append_nil]
    exact h.account
  tracks := by
    intro id mem
    have apart : timesOf TrackedRegion.trackId id out = [] := timesOf_none (by
      rintro r hr rfl
      exact tracks r hr mem)
    rw [timesOf_append, apart, List.append_nil]
    exact h.tracks id mem

/-- What a fragment appends keeps the ledger. -/
theorem Ledger.append {key : String} {state state' : EntityState ε}
    {nextTrack' nextRegion' : Nat} {regions out : List (TrackedRegion ε)}
    (h : Ledger entities nextEntity nextTrack nextRegion appended)
    (mem : (key, state) ∈ entities.entries)
    (change : Appended state nextTrack nextRegion regions state' nextTrack' nextRegion' out)
    (booked : EntityBooked nextEntity nextTrack' (appended ++ out) key state') :
    Ledger (entities.insert key state') nextEntity nextTrack' nextRegion' (appended ++ out) := by
  have numbers := h.numbers_append change.numbers
  have owner : ∀ r ∈ out, r.entityId = key ∧ r.trackId ∈ state'.trackIds := by
    intro r hr
    rw [← (h.booked key state mem).name]
    exact change.owner r hr
  -- a track of the entity that is written to is no track of another
  have apart : ∀ p ∈ entities.entries, p.1 ≠ key → ∀ id ∈ state'.trackIds,
      id ∉ p.2.trackIds := by
    intro p hp other id here there
    rcases change.new id here with old | rfl
    · exact other (h.owners p hp (key, state) mem id there old)
    · obtain ⟨i, less, same⟩ := (h.booked p.1 p.2 hp).trackNumbers _ there
      exact absurd (numberedId_injective same) less.ne'
  refine ⟨numbers.1, change.nextRegion ▸ numbers.2, fun key' found hp => ?_,
    fun p hp q hq id inP inQ => ?_, fun r hr => ?_, fun p hp id inP => ?_⟩
  · rcases OrderedMap.mem_insert.mp hp with written | ⟨other, kept⟩
    · obtain ⟨rfl, rfl⟩ := Prod.mk.inj written
      exact booked
    · refine (h.booked key' found kept).frame change.nextTrack (fun r hr same => ?_)
        fun r hr => apart _ kept other _ (owner r hr).2
      exact other (same.symm.trans (owner r hr).1)
  · rcases OrderedMap.mem_insert.mp hp with rfl | ⟨otherP, keptP⟩
    · rcases OrderedMap.mem_insert.mp hq with rfl | ⟨otherQ, keptQ⟩
      · rfl
      · exact absurd inQ (apart q keptQ otherQ id inP)
    · rcases OrderedMap.mem_insert.mp hq with rfl | ⟨otherQ, keptQ⟩
      · exact absurd inP (apart p keptP otherP id inQ)
      · exact h.owners p keptP q keptQ id inP inQ
  · rcases List.mem_append.mp hr with old | new
    · obtain ⟨found, hp, track⟩ := h.named r old
      rcases eq_or_ne r.entityId key with here | other
      · have same : found = state := entities.value_unique hp (here ▸ mem)
        refine ⟨state', OrderedMap.mem_insert.mpr (.inl (by rw [here])), ?_⟩
        exact change.old _ (same ▸ track)
      · exact ⟨found, OrderedMap.mem_insert.mpr (.inr ⟨other, hp⟩), track⟩
    · refine ⟨state', OrderedMap.mem_insert.mpr (.inl (by rw [(owner r new).1])), ?_⟩
      exact (owner r new).2
  · have earlier : ∀ q ∈ entities.entries, id ∈ q.2.trackIds →
        ∃ r ∈ appended ++ out, r.trackId = id := by
      intro q hq inQ
      obtain ⟨r, hr, same⟩ := h.used q hq id inQ
      exact ⟨r, List.mem_append_left _ hr, same⟩
    rcases OrderedMap.mem_insert.mp hp with rfl | ⟨-, kept⟩
    · rcases change.used id inP with old | ⟨r, hr, same⟩
      · exact earlier _ mem old
      · exact ⟨r, List.mem_append_right _ hr, same⟩
    · exact earlier p kept inP

end Ledgers

end Svp.Vision

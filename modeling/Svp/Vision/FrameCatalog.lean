import Svp.Lib.Accumulation
import Svp.Lib.KeySort
import Svp.Lib.OrderedMap
import Svp.Vision.EntityWindows

/-!
# The frame catalog and its deltas

`FrameCatalog` gives frames their ids by timestamp. A frame plan is loaded into it
before any stage runs; from then on `registerFrame` looks a frame up and adds to what is
known of it. A stage that ran on its own catalog hands on a delta, and the deltas are
applied to a further catalog.

* A catalog finds each of its entries by the timestamp, and the entries are numbered in
  order: both are fields of the structure.
* On a loaded catalog a registration changes the marks of one entry (`registerAll_locked`);
  marks accumulate, and a delta stands for the registrations of its stage
  (`delta_standsFor`).
* Deltas in any order give the catalog of the direct registrations, and nothing moves an
  id or an index (`frame_catalog_deltas_merge`).
-/

namespace Svp.Vision

open Lib (OrderedMap accumulate GivesBelow StandsFor)

/-! ## Entries -/

structure FrameCatalogEntry where
  frameId : String
  frameIndex : Nat
  timestampUs : Int
  keyframe : Bool
  purposes : Finset String
  decoded : Bool
deriving DecidableEq

/-- What no registration changes. -/
def FrameCatalogEntry.identity (entry : FrameCatalogEntry) : String × Nat × Int :=
  (entry.frameId, entry.frameIndex, entry.timestampUs)

/-- What registrations add to. -/
def FrameCatalogEntry.marks (entry : FrameCatalogEntry) : Finset String × Bool × Bool :=
  (entry.purposes, entry.keyframe, entry.decoded)

theorem FrameCatalogEntry.eq_of {entry entry' : FrameCatalogEntry}
    (identity : entry.identity = entry'.identity) (marks : entry.marks = entry'.marks) :
    entry = entry' := by
  cases entry
  cases entry'
  cases identity
  cases marks
  rfl

/-- A further registration of the frame. -/
def FrameCatalogEntry.register (entry : FrameCatalogEntry) (purpose : String)
    (keyframe lockedToPlan : Bool) : FrameCatalogEntry :=
  { entry with
    purposes := insert purpose entry.purposes
    keyframe := entry.keyframe || keyframe
    decoded := entry.decoded || lockedToPlan }

/-- `frame_` and the number from one, padded to six digits. -/
def makeFrameId (index : Nat) : String := numberedId "frame_" (index + 1)

/-! ## The catalog -/

structure FrameCatalog where
  timestampToIndex : OrderedMap Int Nat
  plannedEntries : List FrameCatalogEntry
  lockedToPlan : Bool
  /-- The map finds every entry by its timestamp, and nothing else. -/
  indexed : ∀ timestampUs index, timestampToIndex.find? timestampUs = some index ↔
    plannedEntries[index]?.map FrameCatalogEntry.timestampUs = some timestampUs
  numbered : ∀ index, ∀ entry ∈ plannedEntries[index]?,
    entry.frameId = makeFrameId index ∧ entry.frameIndex = index
  purposeful : ∀ entry ∈ plannedEntries, entry.purposes.Nonempty

namespace FrameCatalog

def empty : FrameCatalog where
  timestampToIndex := .empty
  plannedEntries := []
  lockedToPlan := false
  indexed timestampUs index := by
    rw [OrderedMap.find?_empty, List.getElem?_nil]
    exact iff_of_false nofun nofun
  numbered index := by
    rw [List.getElem?_nil]
    exact nofun
  purposeful := nofun

theorem ext_of {catalog catalog' : FrameCatalog}
    (found : catalog.timestampToIndex = catalog'.timestampToIndex)
    (entries : catalog.plannedEntries = catalog'.plannedEntries)
    (locked : catalog.lockedToPlan = catalog'.lockedToPlan) : catalog = catalog' := by
  cases catalog
  cases catalog'
  cases found
  cases entries
  cases locked
  rfl

/-- The same frames with other marks. -/
def withEntries (catalog : FrameCatalog) (entries : List FrameCatalogEntry) (lockedToPlan : Bool)
    (same : entries.map FrameCatalogEntry.identity =
      catalog.plannedEntries.map FrameCatalogEntry.identity)
    (purposeful : ∀ entry ∈ entries, entry.purposes.Nonempty) : FrameCatalog where
  timestampToIndex := catalog.timestampToIndex
  plannedEntries := entries
  lockedToPlan := lockedToPlan
  indexed timestampUs index := by
    have times : entries[index]?.map FrameCatalogEntry.timestampUs =
        catalog.plannedEntries[index]?.map FrameCatalogEntry.timestampUs := by
      have identities := congrArg (fun l => l[index]?.map fun identity => identity.2.2) same
      rwa [List.getElem?_map, List.getElem?_map, Option.map_map, Option.map_map] at identities
    rw [times]
    exact catalog.indexed timestampUs index
  numbered index entry mem := by
    have identities := congrArg (fun l => l[index]?) same
    rw [List.getElem?_map, List.getElem?_map, Option.mem_def.mp mem] at identities
    obtain ⟨before, isBefore, identity⟩ := Option.map_eq_some_iff.mp identities.symm
    obtain ⟨frameId, frameIndex⟩ := catalog.numbered index before isBefore
    exact ⟨(congrArg Prod.fst identity).symm.trans frameId,
      (congrArg (fun identity => identity.2.1) identity).symm.trans frameIndex⟩
  purposeful := purposeful

/-- A frame registered for the first time. -/
def append (catalog : FrameCatalog) (timestampUs : Int) (purpose : String) (keyframe : Bool)
    (absent : catalog.timestampToIndex.find? timestampUs = none) : FrameCatalog where
  timestampToIndex := catalog.timestampToIndex.insert timestampUs catalog.plannedEntries.length
  plannedEntries := catalog.plannedEntries ++
    [{ frameId := makeFrameId catalog.plannedEntries.length
       frameIndex := catalog.plannedEntries.length
       timestampUs, keyframe, purposes := {purpose}, decoded := true }]
  lockedToPlan := catalog.lockedToPlan
  indexed other index := by
    rw [OrderedMap.find?_insert]
    rcases lt_trichotomy index catalog.plannedEntries.length with below | rfl | above
    · rw [List.getElem?_append_left below, ← catalog.indexed]
      split
      · next same =>
        rw [same, absent]
        exact iff_of_false (fun last => below.ne' (Option.some.inj last)) nofun
      · exact .rfl
    · rw [List.getElem?_append_right le_rfl, Nat.sub_self]
      have past : catalog.timestampToIndex.find? other ≠
          some catalog.plannedEntries.length := by
        rw [ne_eq, catalog.indexed, List.getElem?_eq_none le_rfl]
        exact nofun
      split
      · next same => exact iff_of_true rfl (congrArg some same.symm)
      · next other_ =>
        exact iff_of_false past fun same => other_ (Option.some.inj same).symm
    · have out : catalog.plannedEntries.length + 1 ≤ index := above
      rw [List.getElem?_eq_none (by rwa [List.length_append])]
      refine iff_of_false ?_ nofun
      split
      · exact fun last => above.ne (Option.some.inj last)
      · rw [catalog.indexed, List.getElem?_eq_none above.le]
        exact nofun
  numbered index entry mem := by
    rw [List.getElem?_append] at mem
    split at mem
    · exact catalog.numbered index entry mem
    · next out =>
      rw [List.getElem?_singleton] at mem
      split at mem
      · next first =>
        have last : index = catalog.plannedEntries.length :=
          le_antisymm (Nat.le_of_sub_eq_zero first) (Nat.not_lt.mp out)
        rw [← Option.some.inj mem, last]
        exact ⟨rfl, rfl⟩
      · cases mem
  purposeful entry mem := by
    rcases List.mem_append.mp mem with old | new
    · exact catalog.purposeful entry old
    · rw [List.mem_singleton.mp new]
      exact Finset.singleton_nonempty purpose

theorem register_identity (entry : FrameCatalogEntry) (purpose : String)
    (keyframe lockedToPlan : Bool) :
    (entry.register purpose keyframe lockedToPlan).identity = entry.identity := rfl

/-- A further registration of the frame with that index. -/
def registerAt (catalog : FrameCatalog) (index : Nat) (purpose : String) (keyframe : Bool) :
    FrameCatalog :=
  catalog.withEntries
    (catalog.plannedEntries.modify index (·.register purpose keyframe catalog.lockedToPlan))
    catalog.lockedToPlan
    (by
      refine List.ext_getElem? fun other => ?_
      rw [List.getElem?_map, List.getElem?_map, List.getElem?_modify, Option.map_eq_map,
        Option.map_map]
      refine Option.map_congr fun entry _ => ?_
      rw [Function.comp_apply]
      split
      · exact register_identity entry _ _ _
      · rfl)
    (by
      intro entry mem
      obtain ⟨other, at_⟩ := List.mem_iff_getElem?.mp mem
      rw [List.getElem?_modify, Option.map_eq_map] at at_
      obtain ⟨before, isBefore, rfl⟩ := Option.map_eq_some_iff.mp at_
      have purposeful := catalog.purposeful before (List.mem_of_getElem? isBefore)
      split
      · exact Finset.insert_nonempty _ _
      · exact purposeful)

theorem index_lt (catalog : FrameCatalog) {timestampUs : Int} {index : Nat}
    (known : catalog.timestampToIndex.find? timestampUs = some index) :
    index < catalog.plannedEntries.length := by
  obtain ⟨entry, at_, -⟩ := Option.map_eq_some_iff.mp ((catalog.indexed _ _).mp known)
  exact (List.getElem?_eq_some_iff.mp at_).1

end FrameCatalog

inductive FrameError
  | unplannedFrame (message : String)
  | logicError (message : String)
deriving DecidableEq

namespace FrameCatalog

def registerFrame (catalog : FrameCatalog) (timestampUs : Int) (purpose : String)
    (keyframe : Bool) : Except FrameError (String × FrameCatalog) :=
  match known : catalog.timestampToIndex.find? timestampUs with
  | some index =>
    .ok ((catalog.plannedEntries.get ⟨index, catalog.index_lt known⟩).frameId,
      catalog.registerAt index purpose keyframe)
  | none =>
    if catalog.lockedToPlan then
      .error (.unplannedFrame ("frame at " ++ toString timestampUs ++ "us (purpose '" ++ purpose ++
        "') is not in the locked frame plan"))
    else
      .ok (makeFrameId catalog.plannedEntries.length,
        catalog.append timestampUs purpose keyframe known)

/-- Freezes the frames registered so far, none of them decoded. -/
def lockToPlan (catalog : FrameCatalog) : FrameCatalog :=
  if catalog.lockedToPlan then catalog
  else
    catalog.withEntries (catalog.plannedEntries.map fun entry => { entry with decoded := false })
      true (List.map_map ..) (by
        intro entry mem
        obtain ⟨before, among, rfl⟩ := List.mem_map.mp mem
        exact catalog.purposeful before among)

def getFrameIndex (catalog : FrameCatalog) (frameId : String) : Option Nat :=
  (catalog.plannedEntries.find? fun entry => entry.frameId == frameId).map
    FrameCatalogEntry.frameIndex

def getFrameIndexAt (catalog : FrameCatalog) (timestampUs : Int) : Option Nat := do
  let index ← catalog.timestampToIndex.find? timestampUs
  let entry ← catalog.plannedEntries[index]?
  return entry.frameIndex

/-- The frames that stages decoded. -/
def entries (catalog : FrameCatalog) : List FrameCatalogEntry :=
  catalog.plannedEntries.filter FrameCatalogEntry.decoded

end FrameCatalog

/-! ## Frame plans -/

structure PlannedFrameRegistration where
  timestampUs : Int
  purpose : String
  keyframe : Bool
deriving DecidableEq

/-- The registrations, one after the other. -/
def FrameCatalog.registerAll (catalog : FrameCatalog) (frames : List PlannedFrameRegistration) :
    Except FrameError FrameCatalog :=
  frames.foldlM (fun catalog frame =>
    Prod.snd <$> catalog.registerFrame frame.timestampUs frame.purpose frame.keyframe) catalog

def loadFramePlan (catalog : FrameCatalog) (plan : List PlannedFrameRegistration) :
    Except FrameError FrameCatalog :=
  if !catalog.plannedEntries.isEmpty || catalog.lockedToPlan then
    .error (.logicError "a frame plan can only be loaded into an empty, unlocked catalog")
  else FrameCatalog.lockToPlan <$> catalog.registerAll plan

/-! ## Deltas -/

/-- One object of a delta. -/
structure FrameDelta where
  keyframe : Bool
  purposes : List String
  timestampUs : Int
deriving DecidableEq

def frameCatalogDelta (after : FrameCatalog) : List FrameDelta :=
  after.entries.map fun entry =>
    { keyframe := entry.keyframe, purposes := Lib.ascending entry.purposes, timestampUs := entry.timestampUs }

def applyFrameCatalogDelta (catalog : FrameCatalog) (delta : List FrameDelta) :
    Except FrameError FrameCatalog :=
  delta.foldlM (fun catalog frame =>
    frame.purposes.foldlM (fun catalog purpose =>
      Prod.snd <$> catalog.registerFrame frame.timestampUs purpose frame.keyframe) catalog) catalog

/-! ## Registrations on a locked catalog -/

/-- What a registration in plan mode adds to its frame. -/
def PlannedFrameRegistration.given (frame : PlannedFrameRegistration) :
    Finset String × Bool × Bool := ({frame.purpose}, frame.keyframe, true)

/-- The entry after registrations in plan mode. -/
def FrameCatalogEntry.registered (entry : FrameCatalogEntry)
    (frames : List PlannedFrameRegistration) : FrameCatalogEntry :=
  frames.foldl (fun entry frame =>
    if frame.timestampUs = entry.timestampUs then entry.register frame.purpose frame.keyframe true
    else entry) entry

theorem registered_cons (entry : FrameCatalogEntry) (frame : PlannedFrameRegistration)
    (frames : List PlannedFrameRegistration) :
    entry.registered (frame :: frames) = (entry.registered [frame]).registered frames := rfl

theorem registered_single (entry : FrameCatalogEntry) (frame : PlannedFrameRegistration) :
    (entry.registered [frame]).identity = entry.identity ∧
      (entry.registered [frame]).marks =
        if frame.timestampUs = entry.timestampUs then entry.marks ⊔ frame.given
        else entry.marks := by
  dsimp only [FrameCatalogEntry.registered, List.foldl]
  split
  · refine ⟨rfl, Prod.ext ?_ rfl⟩
    exact (Finset.insert_eq _ _).trans (Finset.union_comm _ _)
  · exact ⟨rfl, rfl⟩

theorem registered_identity (entry : FrameCatalogEntry)
    (frames : List PlannedFrameRegistration) :
    (entry.registered frames).identity = entry.identity := by
  induction frames generalizing entry with
  | nil => rfl
  | cons frame frames ih =>
    rw [registered_cons, ih]
    exact (registered_single entry frame).1

theorem timestampUs_of_identity {entry entry' : FrameCatalogEntry}
    (same : entry.identity = entry'.identity) : entry.timestampUs = entry'.timestampUs :=
  congrArg (fun identity => identity.2.2) same

/-- Registrations accumulate in the marks. -/
theorem registered_marks (entry : FrameCatalogEntry) (frames : List PlannedFrameRegistration) :
    (entry.registered frames).marks =
      accumulate PlannedFrameRegistration.timestampUs PlannedFrameRegistration.given
        entry.timestampUs entry.marks frames := by
  induction frames generalizing entry with
  | nil => rfl
  | cons frame frames ih =>
    obtain ⟨identity, marks⟩ := registered_single entry frame
    rw [registered_cons, ih, marks, timestampUs_of_identity identity]
    rfl

namespace FrameCatalog

/-- The catalog after registrations of planned frames. -/
def registered (catalog : FrameCatalog) (frames : List PlannedFrameRegistration) : FrameCatalog :=
  catalog.withEntries (catalog.plannedEntries.map (·.registered frames)) catalog.lockedToPlan
    (by
      rw [List.map_map]
      exact List.map_congr_left fun entry _ => registered_identity entry frames)
    (by
      intro entry mem
      obtain ⟨before, among, rfl⟩ := List.mem_map.mp mem
      have marks := Lib.le_accumulate.trans_eq (registered_marks before frames).symm
      exact (catalog.purposeful before among).mono marks.1)

theorem entries_unique (catalog : FrameCatalog) {entry entry' : FrameCatalogEntry}
    (mem : entry ∈ catalog.plannedEntries) (mem' : entry' ∈ catalog.plannedEntries)
    (same : entry.timestampUs = entry'.timestampUs) : entry = entry' := by
  obtain ⟨index, at_⟩ := List.mem_iff_getElem?.mp mem
  obtain ⟨index', at_'⟩ := List.mem_iff_getElem?.mp mem'
  have found := (catalog.indexed entry.timestampUs index).mpr (by rw [at_, Option.map_some])
  have found' := (catalog.indexed entry.timestampUs index').mpr (by
    rw [at_', Option.map_some, same])
  rw [found] at found'
  rw [Option.some.inj found', at_'] at at_
  exact (Option.some.inj at_).symm

theorem find?_of_mem (catalog : FrameCatalog) {entry : FrameCatalogEntry}
    (mem : entry ∈ catalog.plannedEntries) :
    (catalog.timestampToIndex.find? entry.timestampUs).isSome = true := by
  obtain ⟨index, at_⟩ := List.mem_iff_getElem?.mp mem
  rw [(catalog.indexed entry.timestampUs index).mpr (by rw [at_, Option.map_some])]
  rfl

/-- A registration at a found index concerns the entry of that timestamp. -/
theorem registerAt_locked {catalog : FrameCatalog} (locked : catalog.lockedToPlan = true)
    {frame : PlannedFrameRegistration} {index : Nat}
    (known : catalog.timestampToIndex.find? frame.timestampUs = some index) :
    catalog.registerAt index frame.purpose frame.keyframe = catalog.registered [frame] := by
  refine ext_of rfl (List.ext_getElem? fun other => ?_) rfl
  dsimp only [registerAt, registered, withEntries]
  rw [List.getElem?_modify, List.getElem?_map, Option.map_eq_map]
  refine Option.map_congr fun entry at_ => ?_
  dsimp only [FrameCatalogEntry.registered, List.foldl]
  have here : index = other ↔ frame.timestampUs = entry.timestampUs := by
    have found := catalog.indexed frame.timestampUs other
    rw [known, at_, Option.map_some, Option.some_inj, Option.some_inj] at found
    exact found.trans eq_comm
  simp only [here, locked]

/-- In plan mode a registration marks its frame, or throws. -/
theorem registerFrame_locked {catalog : FrameCatalog} (locked : catalog.lockedToPlan = true)
    (frame : PlannedFrameRegistration) :
    ((catalog.timestampToIndex.find? frame.timestampUs).isSome = true ∧
      ∃ id, catalog.registerFrame frame.timestampUs frame.purpose frame.keyframe =
        .ok (id, catalog.registered [frame])) ∨
    ((catalog.timestampToIndex.find? frame.timestampUs).isSome = false ∧
      ∃ error, catalog.registerFrame frame.timestampUs frame.purpose frame.keyframe =
        .error error) := by
  unfold registerFrame
  split
  · next index known =>
    refine .inl ⟨Option.isSome_iff_exists.mpr ⟨index, known⟩,
      (catalog.plannedEntries.get ⟨index, catalog.index_lt known⟩).frameId, ?_⟩
    rw [registerAt_locked locked known]
  · next absent =>
    rw [locked, if_pos rfl]
    exact .inr ⟨Option.isSome_eq_false_iff.mpr (Option.isNone_iff_eq_none.mpr absent), _, rfl⟩

theorem registerAll_locked {catalog : FrameCatalog} (locked : catalog.lockedToPlan = true)
    {frames : List PlannedFrameRegistration}
    (planned : ∀ frame ∈ frames,
      (catalog.timestampToIndex.find? frame.timestampUs).isSome = true) :
    catalog.registerAll frames = .ok (catalog.registered frames) := by
  induction frames generalizing catalog with
  | nil => exact congrArg Except.ok (ext_of rfl (List.map_id _).symm rfl)
  | cons frame frames ih =>
    have after : (catalog.registered [frame]).lockedToPlan = true := locked
    rcases registerFrame_locked locked frame with ⟨-, id, first⟩ | ⟨unknown, -⟩
    · rw [registerAll, List.foldlM_cons, first]
      refine (ih after fun other mem => planned other (.tail _ mem)).trans ?_
      exact congrArg Except.ok (ext_of rfl (List.map_map ..) rfl)
    · rw [planned frame List.mem_cons_self] at unknown
      cases unknown

end FrameCatalog

/-! ## A delta stands for its stage -/

/-- The registrations that applying a delta makes. -/
def deltaFrames (delta : List FrameDelta) : List PlannedFrameRegistration :=
  delta.flatMap fun frame => frame.purposes.map fun purpose =>
    { timestampUs := frame.timestampUs, purpose, keyframe := frame.keyframe }

theorem applyFrameCatalogDelta_eq (catalog : FrameCatalog) (delta : List FrameDelta) :
    applyFrameCatalogDelta catalog delta = catalog.registerAll (deltaFrames delta) := by
  induction delta generalizing catalog with
  | nil => rfl
  | cons frame delta ih =>
    rw [applyFrameCatalogDelta, List.foldlM_cons, FrameCatalog.registerAll, deltaFrames,
      List.flatMap_cons, List.foldlM_append, List.foldlM_map]
    exact congrArg _ (funext ih)

theorem applyDeltas_eq (catalog : FrameCatalog) (deltas : List (List FrameDelta)) :
    deltas.foldlM applyFrameCatalogDelta catalog =
      catalog.registerAll (deltas.map deltaFrames).flatten := by
  induction deltas generalizing catalog with
  | nil => rfl
  | cons delta deltas ih =>
    rw [List.foldlM_cons, applyFrameCatalogDelta_eq, FrameCatalog.registerAll, List.map_cons,
      List.flatten_cons, FrameCatalog.registerAll, List.foldlM_append]
    exact congrArg _ (funext ih)

theorem mem_deltaFrames {catalog : FrameCatalog} {frame : PlannedFrameRegistration} :
    frame ∈ deltaFrames (frameCatalogDelta catalog) ↔
      ∃ entry ∈ catalog.plannedEntries, entry.decoded = true ∧
        frame.timestampUs = entry.timestampUs ∧ frame.purpose ∈ entry.purposes ∧
        frame.keyframe = entry.keyframe := by
  obtain ⟨timestampUs, purpose, keyframe⟩ := frame
  simp only [deltaFrames, frameCatalogDelta, FrameCatalog.entries, List.mem_flatMap, List.mem_map,
    List.mem_filter, PlannedFrameRegistration.mk.injEq]
  constructor
  · rintro ⟨_, ⟨entry, ⟨mem, decoded⟩, rfl⟩, purpose, among, rfl, rfl, rfl⟩
    exact ⟨entry, mem, decoded, rfl, Lib.mem_ascending.mp among, rfl⟩
  · rintro ⟨entry, mem, decoded, rfl, among, rfl⟩
    exact ⟨_, ⟨entry, ⟨mem, decoded⟩, rfl⟩, purpose, Lib.mem_ascending.mpr among, rfl, rfl, rfl⟩

/-- At a planned frame the delta of a stage gives what the stage registered there, and
the marks the plan gave the frame. -/
theorem delta_standsFor (loaded : FrameCatalog) {entry : FrameCatalogEntry}
    (mem : entry ∈ loaded.plannedEntries) (stage : List PlannedFrameRegistration) :
    StandsFor PlannedFrameRegistration.timestampUs PlannedFrameRegistration.given
      entry.timestampUs entry.marks
      (deltaFrames (frameCatalogDelta (loaded.registered stage))) stage := by
  intro bound above
  have time := timestampUs_of_identity (registered_identity entry stage)
  have here : entry.registered stage ∈ (loaded.registered stage).plannedEntries :=
    List.mem_map_of_mem mem
  have marks := registered_marks entry stage
  have below_iff : (entry.registered stage).marks ≤ bound ↔
      GivesBelow PlannedFrameRegistration.timestampUs PlannedFrameRegistration.given
        entry.timestampUs stage bound := by
    rw [marks, Lib.accumulate_le_iff]
    exact and_iff_right above
  rw [← below_iff]
  constructor
  · intro below
    cases decoded : (entry.registered stage).decoded with
    | true =>
      obtain ⟨purpose, some_⟩ := (loaded.registered stage).purposeful _ here
      have gives : ∀ purpose ∈ (entry.registered stage).purposes,
          (({purpose}, (entry.registered stage).keyframe, true) : Finset String × Bool × Bool) ≤
            bound := fun purpose among =>
        below ⟨entry.timestampUs, purpose, (entry.registered stage).keyframe⟩
          (mem_deltaFrames.mpr ⟨_, here, decoded, time.symm, among, rfl⟩) rfl
      have flags := (gives purpose some_).2
      refine ⟨fun purpose among => ?_, flags.1, decoded.le.trans flags.2⟩
      exact Finset.singleton_subset_iff.mp (gives purpose among).1
    | false =>
      -- a stage that registered the frame would have decoded it
      refine below_iff.mpr fun frame among at_ => ?_
      have gives : frame.given ≤ (entry.registered stage).marks :=
        marks ▸ Lib.givesBelow_accumulate frame among at_
      have set : true ≤ (entry.registered stage).decoded := gives.2.2
      rw [decoded] at set
      cases set rfl
  · intro below frame among at_
    obtain ⟨other, isEntry, decoded, sameTime, purpose, keyframe⟩ := mem_deltaFrames.mp among
    obtain rfl := (loaded.registered stage).entries_unique isEntry here
      (sameTime.symm.trans (at_.trans time.symm))
    refine le_trans ⟨?_, ?_, ?_⟩ below
    · exact Finset.singleton_subset_iff.mpr purpose
    · exact keyframe.le
    · exact decoded.ge

/-! ## Loading a plan -/

namespace FrameCatalog

/-- In open mode every registration succeeds, and no frame is lost. -/
theorem registerFrame_open {catalog : FrameCatalog} (open_ : catalog.lockedToPlan = false)
    (frame : PlannedFrameRegistration) :
    ∃ after, Prod.snd <$> catalog.registerFrame frame.timestampUs frame.purpose frame.keyframe =
        .ok after ∧ after.lockedToPlan = false ∧
      (after.timestampToIndex.find? frame.timestampUs).isSome = true ∧
      ∀ timestampUs, (catalog.timestampToIndex.find? timestampUs).isSome = true →
        (after.timestampToIndex.find? timestampUs).isSome = true := by
  unfold registerFrame
  split
  · next index known =>
    refine ⟨_, rfl, open_, ?_, fun _ kept => kept⟩
    exact Option.isSome_iff_exists.mpr ⟨index, known⟩
  · next absent =>
    rw [open_, if_neg Bool.false_ne_true]
    refine ⟨_, rfl, open_, ?_, fun timestampUs kept => ?_⟩
    · dsimp only [append]
      rw [OrderedMap.find?_insert, if_pos rfl]
      rfl
    · dsimp only [append]
      rw [OrderedMap.find?_insert]
      split
      · rfl
      · exact kept

theorem registerAll_open {catalog : FrameCatalog} (open_ : catalog.lockedToPlan = false)
    (frames : List PlannedFrameRegistration) :
    ∃ after, catalog.registerAll frames = .ok after ∧ after.lockedToPlan = false ∧
      (∀ timestampUs, (catalog.timestampToIndex.find? timestampUs).isSome = true →
        (after.timestampToIndex.find? timestampUs).isSome = true) ∧
      ∀ frame ∈ frames, (after.timestampToIndex.find? frame.timestampUs).isSome = true := by
  induction frames generalizing catalog with
  | nil => exact ⟨catalog, rfl, open_, fun _ kept => kept, nofun⟩
  | cons frame frames ih =>
    obtain ⟨next, registered, open_', here, kept⟩ := registerFrame_open open_ frame
    obtain ⟨after, all, open_'', kept', found⟩ := ih open_'
    refine ⟨after, ?_, open_'', fun t known => kept' t (kept t known), ?_⟩
    · rw [registerAll, List.foldlM_cons, registered]
      exact all
    · exact List.forall_mem_cons.mpr ⟨kept' _ here, found⟩

theorem lockToPlan_locked (catalog : FrameCatalog) : catalog.lockToPlan.lockedToPlan = true := by
  unfold lockToPlan
  split
  · next locked => exact locked
  · rfl

theorem lockToPlan_found (catalog : FrameCatalog) :
    catalog.lockToPlan.timestampToIndex = catalog.timestampToIndex := by
  unfold lockToPlan
  split
  · rfl
  · rfl

end FrameCatalog

theorem loadFramePlan_ok (plan : List PlannedFrameRegistration) :
    ∃ loaded, loadFramePlan .empty plan = .ok loaded ∧ loaded.lockedToPlan = true ∧
      ∀ frame ∈ plan, (loaded.timestampToIndex.find? frame.timestampUs).isSome = true := by
  obtain ⟨after, registered, -, -, found⟩ := FrameCatalog.registerAll_open
    (rfl : FrameCatalog.empty.lockedToPlan = false) plan
  refine ⟨after.lockToPlan, ?_, after.lockToPlan_locked, ?_⟩
  · exact (congrArg (FrameCatalog.lockToPlan <$> ·) registered)
  · rw [after.lockToPlan_found]
    exact found

/-! ## Ids never move -/

inductive CatalogCall
  | registerFrame (frame : PlannedFrameRegistration)
  | lockToPlan

/-- The catalog after a call; one that throws leaves it as it is. -/
def FrameCatalog.after (catalog : FrameCatalog) : CatalogCall → FrameCatalog
  | .registerFrame frame =>
    match catalog.registerFrame frame.timestampUs frame.purpose frame.keyframe with
    | .ok (_, after) => after
    | .error _ => catalog
  | .lockToPlan => catalog.lockToPlan

/-- The same frames under the same ids, indices and timestamps. -/
structure SameFrames (catalog catalog' : FrameCatalog) : Prop where
  identities : catalog'.plannedEntries.map FrameCatalogEntry.identity =
    catalog.plannedEntries.map FrameCatalogEntry.identity
  byId : catalog'.getFrameIndex = catalog.getFrameIndex
  byTimestamp : catalog'.getFrameIndexAt = catalog.getFrameIndexAt

theorem sameFrames_of {catalog catalog' : FrameCatalog}
    (found : catalog'.timestampToIndex = catalog.timestampToIndex)
    (identities : catalog'.plannedEntries.map FrameCatalogEntry.identity =
      catalog.plannedEntries.map FrameCatalogEntry.identity) : SameFrames catalog catalog' := by
  refine ⟨identities, funext fun frameId => ?_, funext fun timestampUs => ?_⟩
  · have byId : ∀ c : FrameCatalog, c.getFrameIndex frameId =
        ((c.plannedEntries.map FrameCatalogEntry.identity).find? fun identity =>
          identity.1 == frameId).map fun identity => identity.2.1 := fun c => by
      rw [List.find?_map, Option.map_map]
      rfl
    rw [byId, byId, identities]
  · have byTimestamp : ∀ c : FrameCatalog, c.getFrameIndexAt timestampUs =
        (c.timestampToIndex.find? timestampUs).bind fun index =>
          ((c.plannedEntries.map FrameCatalogEntry.identity)[index]?).map
            fun identity => identity.2.1 := fun c => by
      unfold FrameCatalog.getFrameIndexAt
      refine Option.bind_congr fun index _ => ?_
      rw [List.getElem?_map, Option.map_map]
      cases c.plannedEntries[index]? with
      | none => rfl
      | some entry => rfl
    rw [byTimestamp, byTimestamp, identities, found]

/-- One call on a locked catalog. -/
theorem after_locked {catalog : FrameCatalog} (locked : catalog.lockedToPlan = true)
    (call : CatalogCall) :
    (catalog.after call).lockedToPlan = true ∧
      (catalog.after call).timestampToIndex = catalog.timestampToIndex ∧
      (catalog.after call).plannedEntries.map FrameCatalogEntry.identity =
        catalog.plannedEntries.map FrameCatalogEntry.identity := by
  cases call with
  | registerFrame frame =>
    unfold FrameCatalog.after
    dsimp only
    rcases FrameCatalog.registerFrame_locked locked frame with ⟨-, id, ok⟩ | ⟨-, error, thrown⟩
    · rw [ok]
      refine ⟨locked, rfl, (List.map_map ..).trans ?_⟩
      exact List.map_congr_left fun entry _ => registered_identity entry _
    · rw [thrown]
      exact ⟨locked, rfl, rfl⟩
  | lockToPlan =>
    have same : catalog.lockToPlan = catalog := if_pos locked
    rw [FrameCatalog.after, same]
    exact ⟨locked, rfl, rfl⟩

/-- A whole run of calls. -/
theorem calls_locked {catalog : FrameCatalog} (locked : catalog.lockedToPlan = true)
    (calls : List CatalogCall) : SameFrames catalog (calls.foldl FrameCatalog.after catalog) := by
  have run : (calls.foldl FrameCatalog.after catalog).timestampToIndex =
        catalog.timestampToIndex ∧
      (calls.foldl FrameCatalog.after catalog).plannedEntries.map FrameCatalogEntry.identity =
        catalog.plannedEntries.map FrameCatalogEntry.identity := by
    induction calls generalizing catalog with
    | nil => exact ⟨rfl, rfl⟩
    | cons call calls ih =>
      obtain ⟨locked, found, identities⟩ := after_locked locked call
      obtain ⟨found', identities'⟩ := ih locked
      exact ⟨found'.trans found, identities'.trans identities⟩
  exact sameFrames_of run.1 run.2

/-! ## Merging -/

/-- The deltas of stages, applied in any order and any number of times, make the catalog
of the stages' registrations themselves. -/
theorem deltas_merge {loaded : FrameCatalog} (locked : loaded.lockedToPlan = true)
    {stages : List (List PlannedFrameRegistration)} {deltas : List (List FrameDelta)}
    {direct : List PlannedFrameRegistration}
    (handed : ∀ delta, delta ∈ deltas ↔
      delta ∈ stages.map fun stage => frameCatalogDelta (loaded.registered stage))
    (made : ∀ frame, frame ∈ direct ↔ frame ∈ stages.flatten)
    (planned : ∀ frame ∈ direct,
      (loaded.timestampToIndex.find? frame.timestampUs).isSome = true) :
    deltas.foldlM applyFrameCatalogDelta loaded = .ok (loaded.registered direct) ∧
      loaded.registerAll direct = .ok (loaded.registered direct) := by
  refine ⟨?_, FrameCatalog.registerAll_locked locked planned⟩
  have plannedDelta : ∀ frame ∈ (deltas.map deltaFrames).flatten,
      (loaded.timestampToIndex.find? frame.timestampUs).isSome = true := by
    intro frame mem
    obtain ⟨frames, isReport, mem⟩ := List.mem_flatten.mp mem
    obtain ⟨delta, among, rfl⟩ := List.mem_map.mp isReport
    obtain ⟨stage, -, rfl⟩ := List.mem_map.mp ((handed delta).mp among)
    obtain ⟨entry, isEntry, -, time, -⟩ := mem_deltaFrames.mp mem
    rw [time]
    exact (loaded.registered stage).find?_of_mem isEntry
  rw [applyDeltas_eq, FrameCatalog.registerAll_locked locked plannedDelta]
  refine congrArg Except.ok (FrameCatalog.ext_of rfl ?_ rfl)
  refine List.map_congr_left fun entry mem => FrameCatalogEntry.eq_of ?_ ?_
  · rw [registered_identity, registered_identity]
  · have reports : ∀ r, r ∈ deltas.map deltaFrames ↔ ∃ stage ∈ stages,
        deltaFrames (frameCatalogDelta (loaded.registered stage)) = r := by
      intro r
      rw [List.mem_map]
      constructor
      · rintro ⟨delta, among, rfl⟩
        obtain ⟨stage, isStage, rfl⟩ := List.mem_map.mp ((handed delta).mp among)
        exact ⟨stage, isStage, rfl⟩
      · rintro ⟨stage, isStage, rfl⟩
        exact ⟨_, (handed _).mpr (List.mem_map_of_mem isStage), rfl⟩
    rw [registered_marks, registered_marks,
      Lib.accumulate_relay reports fun stage _ => delta_standsFor loaded mem stage]
    exact (Lib.accumulate_of_mem made).symm

/-- Whatever planned frames the stages register, each on its own catalog loaded with the
plan, applying their deltas in any order to a further one gives the catalog on which all
registrations were made directly; and no call changes an id or an index. -/
theorem frame_catalog_deltas_merge {plan : List PlannedFrameRegistration}
    {stages : List (List PlannedFrameRegistration)}
    (planned : ∀ stage ∈ stages, ∀ frame ∈ stage,
      frame.timestampUs ∈ plan.map PlannedFrameRegistration.timestampUs) :
    ∃ loaded, loadFramePlan .empty plan = .ok loaded ∧
      (∃ catalogs, stages.mapM loaded.registerAll = .ok catalogs ∧
        ∀ (deltas : List (List FrameDelta)) direct, (∀ delta, delta ∈ deltas ↔ delta ∈ catalogs.map frameCatalogDelta) →
          (∀ frame, frame ∈ direct ↔ frame ∈ stages.flatten) →
          ∃ merged, deltas.foldlM applyFrameCatalogDelta loaded = .ok merged ∧
            loaded.registerAll direct = .ok merged) ∧
      ∀ calls : List CatalogCall, SameFrames loaded (calls.foldl FrameCatalog.after loaded) := by
  obtain ⟨loaded, ok, locked, found⟩ := loadFramePlan_ok plan
  have known : ∀ stage ∈ stages, ∀ frame ∈ stage,
      (loaded.timestampToIndex.find? frame.timestampUs).isSome = true := by
    intro stage among frame mem
    obtain ⟨frame', isPlanned, time⟩ := List.mem_map.mp (planned stage among frame mem)
    exact time ▸ found frame' isPlanned
  refine ⟨loaded, ok, ⟨stages.map loaded.registered, ?_, ?_⟩, calls_locked locked⟩
  · exact Exec.mapM_eq_pure fun stage among => FrameCatalog.registerAll_locked locked (known stage among)
  · intro deltas direct handed made
    rw [List.map_map] at handed
    refine ⟨_, deltas_merge locked handed made fun frame mem => ?_⟩
    obtain ⟨stage, among, mem⟩ := List.mem_flatten.mp ((made frame).mp mem)
    exact known stage among frame mem

/-- Two stages that share a frame. -/
theorem frame_catalog_deltas_merge_sample :
    ∃ loaded, loadFramePlan .empty [⟨0, "color", true⟩, ⟨500000, "ocr", false⟩] = .ok loaded ∧
      (∃ catalogs, [[⟨500000, "ocr", false⟩], [⟨0, "color", true⟩, ⟨500000, "color", true⟩]].mapM
          loaded.registerAll = .ok catalogs ∧
        ∀ (deltas : List (List FrameDelta)) direct,
          (∀ delta, delta ∈ deltas ↔ delta ∈ catalogs.map frameCatalogDelta) →
          (∀ frame, frame ∈ direct ↔ frame ∈
            [[⟨500000, "ocr", false⟩], [⟨0, "color", true⟩, ⟨500000, "color", true⟩]].flatten) →
          ∃ merged, deltas.foldlM applyFrameCatalogDelta loaded = .ok merged ∧
            loaded.registerAll direct = .ok merged) ∧
      ∀ calls : List CatalogCall, SameFrames loaded (calls.foldl FrameCatalog.after loaded) :=
  frame_catalog_deltas_merge (by decide)

end Svp.Vision

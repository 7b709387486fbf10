import Svp.Vision.EntityAccounts

/-!
# Whole runs of the entity assembler

The books of an assembler are kept by appending a fragment (`Books.appendFragment`), by
a window (`Books.appendWindow`) and by emission (`Books.emitFinalizedBefore`), and with
them the accounts of a run are exact (`entity_accounts_exact`), as long as every
fragment is in order with the entity it goes to.

Two fragments of one window that interleave in time can go to one entity, and then the
entity is said to be last seen when the later begun fragment ends
(`interleaved_misdated`).
-/

namespace Svp.Vision

open Lib (OrderedMap Running Spans Along)

variable {ε : Type}

/-- The regions the entities still hold. -/
def live (entities : OrderedMap String (EntityState ε)) : List (TrackedRegion ε) :=
  entities.values.flatMap EntityState.regions

/-- The books of an assembler: the ledger, for the regions appended so far, and the
balance of what was sent on and what is still held. -/
structure Books (a : VisualEntityWindowAssembler ε) (appended emitted : List (TrackedRegion ε)) :
    Prop where
  ledger : Ledger a.entities a.nextEntityIndex a.nextTrackIndex a.nextRegionIndex appended
  balance : appended.Perm (emitted ++ live a.entities)
  finite : ∀ r ∈ appended, r.timestampUs < maxTimestampUs
  sink : a.options.artifactSink = true → a.sunk.flatMap Prod.fst = emitted
  memory : a.options.retainArtifactsInMemory = true → a.collectedRegions = emitted

/-! ## Fragments -/

theorem live_insert {entities : OrderedMap String (EntityState ε)} {key : String}
    {state state' : EntityState ε} {out : List (TrackedRegion ε)}
    (mem : (key, state) ∈ entities.entries) (stored : state'.regions = state.regions ++ out) :
    (live (entities.insert key state')).Perm (live entities ++ out) := by
  simp only [live, OrderedMap.values, List.flatMap_map]
  refine ((entities.insert_perm key state').flatMap_right _).trans ?_
  refine List.Perm.trans ?_ (((entities.perm_erase mem).flatMap_right _).append_right out).symm
  rw [List.flatMap_cons, List.flatMap_cons, stored, List.append_assoc, List.append_assoc]
  exact List.perm_append_comm.append_left state.regions

theorem live_insert_new {entities : OrderedMap String (EntityState ε)} {key : String}
    {state : EntityState ε} (absent : entities.find? key = none) (none : state.regions = []) :
    (live (entities.insert key state)).Perm (live entities) := by
  simp only [live, OrderedMap.values, List.flatMap_map]
  refine ((entities.insert_perm key state).flatMap_right _).trans ?_
  rw [List.flatMap_cons, none, List.nil_append,
    OrderedMap.erase_of_absent (OrderedMap.find?_eq_none.mp absent)]

theorem Ledger.entity_absent {entities : OrderedMap String (EntityState ε)}
    {nextEntity nextTrack nextRegion : Nat} {appended : List (TrackedRegion ε)}
    (h : Ledger entities nextEntity nextTrack nextRegion appended) :
    entities.find? (numberedId "entity_" nextEntity) = none := by
  refine OrderedMap.find?_eq_none.mpr fun state mem => ?_
  obtain ⟨i, less, same⟩ := (h.booked _ state mem).number
  exact absurd (numberedId_injective same) less.ne'

theorem Ledger.key_ne_empty {entities : OrderedMap String (EntityState ε)}
    {nextEntity nextTrack nextRegion : Nat} {appended : List (TrackedRegion ε)}
    (h : Ledger entities nextEntity nextTrack nextRegion appended) :
    entities.find? "" = none := by
  refine OrderedMap.find?_eq_none.mpr fun state mem => ?_
  obtain ⟨i, -, same⟩ := (h.booked _ state mem).number
  exact absurd same.symm (numberedId_ne_empty (by decide) i)

/-- A new entity is an empty book. -/
theorem Ledger.newEntity {entities : OrderedMap String (EntityState ε)}
    {nextEntity nextTrack nextRegion : Nat} {appended : List (TrackedRegion ε)}
    (h : Ledger entities nextEntity nextTrack nextRegion appended) :
    Ledger (entities.insert (numberedId "entity_" nextEntity)
        { entityId := numberedId "entity_" nextEntity })
      (nextEntity + 1) nextTrack nextRegion appended := by
  have fresh : ∀ r ∈ appended, r.entityId ≠ numberedId "entity_" nextEntity := by
    intro r mem same
    obtain ⟨state, found, -⟩ := h.named r mem
    exact OrderedMap.find?_eq_none.mp h.entity_absent state (same ▸ found)
  refine ⟨h.regionIds, h.regionNumbers, fun key state mem => ?_,
    fun p hp q hq id inP inQ => ?_, fun r mem => ?_, fun p hp id inP => ?_⟩
  · rcases OrderedMap.mem_insert.mp mem with new | ⟨-, old⟩
    · obtain ⟨rfl, rfl⟩ := Prod.mk.inj new
      refine ⟨rfl, ⟨nextEntity, Nat.lt_succ_self _, rfl⟩, List.nodup_nil, by simp, ?_, ?_, by simp⟩
      · intro id track found
        cases found
      · rw [timesOf_none fresh]
        exact Running.exact_empty 0 0
    · obtain ⟨i, less, same⟩ := (h.booked key state old).number
      exact { h.booked key state old with number := ⟨i, less.trans (Nat.lt_succ_self _), same⟩ }
  · rcases OrderedMap.mem_insert.mp hp with rfl | ⟨-, oldP⟩
    · cases inP
    · rcases OrderedMap.mem_insert.mp hq with rfl | ⟨-, oldQ⟩
      · cases inQ
      · exact h.owners p oldP q oldQ id inP inQ
  · obtain ⟨state, found, track⟩ := h.named r mem
    exact ⟨state, OrderedMap.mem_insert.mpr (.inr ⟨fresh r mem, found⟩), track⟩
  · rcases OrderedMap.mem_insert.mp hp with rfl | ⟨-, old⟩
    · cases inP
    · exact h.used p old id inP

theorem Books.newEntity {a : VisualEntityWindowAssembler ε}
    {appended emitted : List (TrackedRegion ε)} (h : Books a appended emitted) :
    Books a.newEntity.1 appended emitted ∧
      a.newEntity.1.entities.find? a.newEntity.2 = some { entityId := a.newEntity.2 } := by
  have inserted : a.newEntity.1.entities = a.entities.insert
      (numberedId "entity_" a.nextEntityIndex)
      { entityId := numberedId "entity_" a.nextEntityIndex } :=
    OrderedMap.emplace_absent _ h.ledger.entity_absent
  refine ⟨⟨?_, ?_, h.finite, h.sink, h.memory⟩, ?_⟩
  · rw [inserted]
    exact h.ledger.newEntity
  · rw [inserted]
    exact h.balance.trans ((live_insert_new h.ledger.entity_absent rfl).symm.append_left emitted)
  · rw [inserted, OrderedMap.find?_insert]
    exact if_pos rfl

theorem Books.appendRegions {a : VisualEntityWindowAssembler ε}
    {appended emitted regions : List (TrackedRegion ε)} {globalId : String}
    {state : EntityState ε} {continuesTrack : Bool} {emitAfterUs : Int}
    (h : Books a appended emitted) (found : a.entities.find? globalId = some state)
    (sorted : (regions.map TrackedRegion.timestampUs).Pairwise (· ≤ ·))
    (order : InOrder state continuesTrack (passing a.options emitAfterUs regions)) :
    ∃ out, Books (a.appendRegions globalId continuesTrack emitAfterUs regions)
        (appended ++ out) emitted ∧
      out.map TrackedRegion.source =
        (passing a.options emitAfterUs regions).map TrackedRegion.source ∧
      ∃ state', (a.appendRegions globalId continuesTrack emitAfterUs regions).entities =
        a.entities.insert globalId state' := by
  have mem := OrderedMap.find?_eq_some.mp found
  obtain ⟨out, change, booked⟩ := EntityBooked.append
    (f := ⟨state, "", a.nextTrackIndex, a.nextRegionIndex, a.pendingMasks⟩) rfl
    (h.ledger.booked globalId state mem) h.ledger.unused sorted order
  have finite : ∀ r ∈ appended ++ out, r.timestampUs < maxTimestampUs := by
    intro r hr
    rcases List.mem_append.mp hr with old | new
    · exact h.finite r old
    · have time : r.timestampUs ∈
          (passing a.options emitAfterUs regions).map TrackedRegion.timestampUs := by
        rw [← timestamps_of_sources change.sources]
        exact List.mem_map_of_mem new
      obtain ⟨r', hr', same⟩ := List.mem_map.mp time
      exact same ▸ order.finite r' hr'
  refine ⟨out, ?_, change.sources, ?_⟩
  · rw [VisualEntityWindowAssembler.appendRegions, found]
    refine ⟨h.ledger.append mem change booked, ?_, finite, h.sink, h.memory⟩
    refine (h.balance.append_right out).trans ?_
    rw [List.append_assoc]
    exact (live_insert mem change.stored).symm.append_left emitted
  · rw [VisualEntityWindowAssembler.appendRegions, found]
    exact ⟨_, rfl⟩

/-! ## The entity a fragment goes to -/

theorem betterMatch_cases (options : VisualEntityWindowAssemblerOptions) (best : String × ℚ)
    (id : String) (score : ℚ) :
    betterMatch options best id score = best ∨ betterMatch options best id score = (id, score) := by
  unfold betterMatch
  split
  · exact .inr rfl
  · exact .inl rfl

/-- The entity reacquired is one there is. -/
theorem reacquiredEntityId_mem (scores : IdentityReconciliation ε)
    (options : VisualEntityWindowAssemblerOptions) (entities : OrderedMap String (EntityState ε))
    (regions : List (TrackedRegion ε)) :
    reacquiredEntityId scores options entities regions = "" ∨
      ∃ state, (reacquiredEntityId scores options entities regions, state) ∈ entities.entries := by
  refine List.foldlRecOn
    (motive := fun best : String × ℚ =>
      best.1 = "" ∨ ∃ state, (best.1, state) ∈ entities.entries)
    entities.entries _ (.inl rfl) fun best known existing mem => ?_
  split
  · exact known
  · rcases betterMatch_cases options best existing.1
        (fragmentScore scores options (reconciliationRegions existing.2) regions) with same | new
    · rwa [same]
    · rw [new]
      exact .inr ⟨existing.2, mem⟩

theorem candidateMatch_globalId {scores : IdentityReconciliation ε}
    {options : VisualEntityWindowAssemblerOptions} {overlapStartUs : Int}
    {fragment : String × List (TrackedRegion ε)} {entity : String × EntityState ε}
    {candidate : CandidateMatch}
    (found : candidateMatch scores options overlapStartUs fragment entity = some candidate) :
    candidate.globalId = entity.1 := by
  simp only [candidateMatch] at found
  split at found
  · cases found
    rfl
  · split at found
    · split at found
      · cases found
        rfl
      · split at found
        · cases found
          rfl
        · cases found
    · cases found

theorem candidates_globalId {scores : IdentityReconciliation ε}
    {options : VisualEntityWindowAssemblerOptions} {overlapStartUs : Int}
    {fragments : OrderedMap String (List (TrackedRegion ε))}
    {entities : OrderedMap String (EntityState ε)} {candidate : CandidateMatch}
    (mem : candidate ∈ candidates scores options overlapStartUs fragments entities) :
    ∃ state, (candidate.globalId, state) ∈ entities.entries := by
  have listed := (List.perm_insertionSort _ _).mem_iff.mp mem
  obtain ⟨fragment, -, inner⟩ := List.mem_flatMap.mp listed
  obtain ⟨entity, inside, found⟩ := List.mem_filterMap.mp inner
  rw [candidateMatch_globalId found]
  exact ⟨entity.2, inside⟩

/-- The window's map leads to entities there are. -/
def Known (localToGlobal : OrderedMap String String)
    (entities : OrderedMap String (EntityState ε)) : Prop :=
  ∀ localId globalId, localToGlobal.find? localId = some globalId →
    ∃ state, (globalId, state) ∈ entities.entries

theorem known_insert {localToGlobal : OrderedMap String String}
    {entities : OrderedMap String (EntityState ε)} {localId globalId : String}
    {state : EntityState ε} (known : Known localToGlobal entities) :
    Known (localToGlobal.insert localId globalId) (entities.insert globalId state) := by
  intro other target found
  rw [OrderedMap.find?_insert] at found
  split at found
  · cases found
    exact ⟨state, OrderedMap.mem_insert.mpr (.inl rfl)⟩
  · obtain ⟨old, mem⟩ := known other target found
    exact OrderedMap.key_insert globalId state mem

theorem known_assignCandidates {entities : OrderedMap String (EntityState ε)}
    {pairs : List CandidateMatch}
    (inside : ∀ candidate ∈ pairs, ∃ state, (candidate.globalId, state) ∈ entities.entries) :
    Known (assignCandidates pairs).1 entities := by
  refine List.foldlRecOn
    (motive := fun maps : OrderedMap String String × OrderedMap String Bool × Finset String =>
      Known maps.1 entities)
    pairs _ (fun localId globalId found => by cases found) fun maps known candidate mem => ?_
  split
  · exact known
  · intro localId globalId found
    rw [OrderedMap.find?_insert] at found
    split at found
    · cases found
      exact inside candidate mem
    · exact known localId globalId found

theorem globalIdOf_mem (scores : IdentityReconciliation ε) {h : Handoff ε}
    (known : Known h.localToGlobal h.assembler.entities) (parents : OrderedMap String String)
    (fragment : String × List (TrackedRegion ε)) :
    (h.globalIdOf scores parents fragment).1 = "" ∨
      ∃ state, ((h.globalIdOf scores parents fragment).1, state) ∈
        h.assembler.entities.entries := by
  unfold Handoff.globalIdOf
  split
  · next globalId found => exact .inr (known _ _ found)
  · next unmapped =>
    simp only
    split
    · exact reacquiredEntityId_mem scores _ _ _
    · next inherited =>
      cases found : (parents.find? fragment.1).bind h.localToGlobal.find? with
      | none =>
        rw [found] at inherited
        exact absurd rfl inherited
      | some globalId =>
        obtain ⟨parent, -, mapped⟩ := Option.bind_eq_some_iff.mp found
        exact .inr (known _ _ mapped)

/-! ## A window -/

/-- The fragment is in order with the entity it is about to be appended to. -/
def Handoff.InOrder (scores : IdentityReconciliation ε) (parents : OrderedMap String String)
    (emitAfterUs : Int) (h : Handoff ε) (fragment : String × List (TrackedRegion ε)) : Prop :=
  let chosen := h.globalIdOf scores parents fragment
  Vision.InOrder ((h.assembler.entities.find? chosen.1).getD { entityId := chosen.1 }) chosen.2
    (passing h.assembler.options emitAfterUs fragment.2)

/-- Every fragment of the window is in order when it is appended. -/
def VisualEntityWindowAssembler.WindowInOrder (scores : IdentityReconciliation ε)
    (a : VisualEntityWindowAssembler ε) (call : WindowCall ε) : Prop :=
  Along (windowStep scores a.options call)
    (Handoff.InOrder scores
      (localIdentityParents scores a.options [] (localOrder (localRegions call)) .empty)
      call.emitAfterUs)
    (a.beginWindow scores call) (localOrder (localRegions call))

theorem appendRegions_options (a : VisualEntityWindowAssembler ε) (globalId : String)
    (continuesTrack : Bool) (emitAfterUs : Int) (regions : List (TrackedRegion ε)) :
    (a.appendRegions globalId continuesTrack emitAfterUs regions).options = a.options := by
  unfold VisualEntityWindowAssembler.appendRegions
  split
  · rfl
  · rfl

theorem known_newEntity {localToGlobal : OrderedMap String String}
    {a : VisualEntityWindowAssembler ε} {appended emitted : List (TrackedRegion ε)}
    (h : Books a appended emitted) (known : Known localToGlobal a.entities) :
    Known localToGlobal a.newEntity.1.entities := by
  intro localId globalId found
  obtain ⟨state, mem⟩ := known localId globalId found
  have inserted : a.newEntity.1.entities = a.entities.insert _ _ :=
    OrderedMap.emplace_absent _ h.ledger.entity_absent
  rw [inserted]
  exact OrderedMap.key_insert _ _ mem

/-- A fragment in order, appended, keeps the books. -/
theorem Books.appendFragment {scores : IdentityReconciliation ε}
    {parents : OrderedMap String String} {emitAfterUs : Int} {h : Handoff ε}
    {fragment : String × List (TrackedRegion ε)} {appended emitted : List (TrackedRegion ε)}
    (books : Books h.assembler appended emitted)
    (known : Known h.localToGlobal h.assembler.entities)
    (sorted : (fragment.2.map TrackedRegion.timestampUs).Pairwise (· ≤ ·))
    (order : h.InOrder scores parents emitAfterUs fragment) :
    let next := h.appendFragment scores emitAfterUs parents fragment
    ∃ out, Books next.assembler (appended ++ out) emitted ∧
      out.map TrackedRegion.source =
        (passing h.assembler.options emitAfterUs fragment.2).map TrackedRegion.source ∧
      Known next.localToGlobal next.assembler.entities ∧
      next.assembler.options = h.assembler.options := by
  simp only [Handoff.appendFragment]
  rcases globalIdOf_mem scores known parents fragment with none | ⟨state, mem⟩
  · obtain ⟨books', found⟩ := books.newEntity
    have order' : Vision.InOrder { entityId := h.assembler.newEntity.2 }
        (h.globalIdOf scores parents fragment).2
        (passing h.assembler.newEntity.1.options emitAfterUs fragment.2) := by
      rw [Handoff.InOrder, none, books.ledger.key_ne_empty] at order
      exact ⟨order.entity, order.track, order.finite, order.count⟩
    obtain ⟨out, kept, sources, state', entities⟩ := books'.appendRegions found sorted order'
    rw [if_pos none]
    refine ⟨out, kept, sources, ?_, appendRegions_options _ _ _ _ _⟩
    rw [entities]
    exact known_insert (known_newEntity books known)
  · have found := OrderedMap.find?_eq_some.mpr mem
    have named : (h.globalIdOf scores parents fragment).1 ≠ "" := by
      intro empty
      rw [empty, books.ledger.key_ne_empty] at found
      cases found
    rw [Handoff.InOrder, found] at order
    obtain ⟨out, kept, sources, state', entities⟩ := books.appendRegions found sorted order
    rw [if_neg named]
    refine ⟨out, kept, sources, ?_, appendRegions_options _ _ _ _ _⟩
    rw [entities]
    exact known_insert known

theorem localOrder_perm (fragments : OrderedMap String (List (TrackedRegion ε))) :
    (localOrder fragments).Perm fragments.entries := List.perm_insertionSort _ _

/-- The fragments hold the window's regions, each once. -/
theorem fragments_perm (call : WindowCall ε) :
    ((localOrder (localRegions call)).flatMap Prod.snd).Perm call.regions := by
  refine ((localOrder_perm _).flatMap_right _).trans ?_
  exact OrderedMap.foldl_push_perm _ call.regions .empty

theorem fragment_sorted {call : WindowCall ε}
    (sorted : (call.regions.map TrackedRegion.timestampUs).Pairwise (· ≤ ·))
    {fragment : String × List (TrackedRegion ε)}
    (mem : fragment ∈ localOrder (localRegions call)) :
    (fragment.2.map TrackedRegion.timestampUs).Pairwise (· ≤ ·) := by
  have entry : (fragment.1, fragment.2) ∈ (localRegions call).entries :=
    (localOrder_perm _).mem_iff.mp mem
  rw [(OrderedMap.mem_foldl_push.mp entry).1]
  exact sorted.sublist (List.filter_sublist.map _)

theorem passing_flatMap (options : VisualEntityWindowAssemblerOptions) (emitAfterUs : Int)
    (fragments : List (String × List (TrackedRegion ε))) :
    (fragments.flatMap fun fragment => passing options emitAfterUs fragment.2) =
      passing options emitAfterUs (fragments.flatMap Prod.snd) := by
  rw [passing, List.filter_flatMap]
  rfl

theorem Books.beginWindow {a : VisualEntityWindowAssembler ε}
    {appended emitted : List (TrackedRegion ε)} (books : Books a appended emitted)
    (scores : IdentityReconciliation ε) (call : WindowCall ε) :
    Books (a.beginWindow scores call).assembler appended emitted ∧
      Known (a.beginWindow scores call).localToGlobal
        (a.beginWindow scores call).assembler.entities :=
  ⟨⟨books.ledger, books.balance, books.finite, books.sink, books.memory⟩,
    known_assignCandidates fun _ mem => candidates_globalId mem⟩

/-- A window's fragments in order keep the books, and append what passes. -/
theorem Books.fragments {scores : IdentityReconciliation ε}
    {a : VisualEntityWindowAssembler ε} {call : WindowCall ε}
    {appended emitted : List (TrackedRegion ε)} (books : Books a appended emitted)
    (sorted : (call.regions.map TrackedRegion.timestampUs).Pairwise (· ≤ ·))
    (order : a.WindowInOrder scores call) :
    let after := ((localOrder (localRegions call)).foldl (windowStep scores a.options call)
      (a.beginWindow scores call)).assembler
    ∃ out, Books after (appended ++ out) emitted ∧
      (out.map TrackedRegion.source).Perm
        ((passing a.options call.emitAfterUs call.regions).map TrackedRegion.source) ∧
      after.options = a.options := by
  intro after
  have run := order.invariant
    (P := fun done h => ∃ out, Books h.assembler (appended ++ out) emitted ∧
      out.map TrackedRegion.source =
        (done.flatMap fun fragment => passing a.options call.emitAfterUs fragment.2).map
          TrackedRegion.source ∧
      Known h.localToGlobal h.assembler.entities ∧ h.assembler.options = a.options)
    (by
      obtain ⟨started, known⟩ := books.beginWindow scores call
      exact ⟨[], (List.append_nil appended).symm ▸ started, rfl, known, rfl⟩)
    (by
      rintro done h fragment mem ⟨out, kept, sources, known, options⟩ inOrder
      obtain ⟨out', kept', sources', known', options'⟩ :=
        kept.appendFragment known (fragment_sorted sorted mem) inOrder
      refine ⟨out ++ out', (List.append_assoc _ _ _) ▸ kept', ?_, known', options'.trans options⟩
      rw [List.map_append, sources, sources', options, List.flatMap_append, List.map_append,
        List.flatMap_singleton])
  obtain ⟨out, kept, sources, -, options⟩ := run
  refine ⟨out, kept, ?_, options⟩
  rw [sources, passing_flatMap]
  exact ((fragments_perm call).filter _).map _

/-! ## Emission -/

/-- The regions that leave the entities at `timestampUs`. -/
def finalized (entities : OrderedMap String (EntityState ε)) (timestampUs : Int) :
    List (TrackedRegion ε) :=
  entities.values.flatMap fun state =>
    state.regions.filter fun region => !decide (timestampUs ≤ region.timestampUs)

/-- The entities without them. -/
def keptBy (entities : OrderedMap String (EntityState ε)) (timestampUs : Int) :
    OrderedMap String (EntityState ε) :=
  entities.map fun _ state =>
    { state with
      regions := state.regions.filter fun region => decide (timestampUs ≤ region.timestampUs) }

theorem live_keptBy (entities : OrderedMap String (EntityState ε)) (timestampUs : Int) :
    live (keptBy entities timestampUs) = (live entities).filter
      fun region => decide (timestampUs ≤ region.timestampUs) := by
  simp only [live, keptBy, OrderedMap.values, OrderedMap.map, List.map_map, List.flatMap_map,
    List.filter_flatMap]
  rfl

theorem finalized_perm (entities : OrderedMap String (EntityState ε)) (timestampUs : Int) :
    (finalized entities timestampUs ++ live (keptBy entities timestampUs)).Perm (live entities) := by
  have early : finalized entities timestampUs = (live entities).filter
      fun region => !decide (timestampUs ≤ region.timestampUs) := by
    rw [live, List.filter_flatMap]
    rfl
  rw [early, live_keptBy]
  exact List.perm_append_comm.trans (List.filter_append_perm _ (live entities))

theorem Ledger.keptBy {entities : OrderedMap String (EntityState ε)}
    {nextEntity nextTrack nextRegion : Nat} {appended : List (TrackedRegion ε)}
    (h : Ledger entities nextEntity nextTrack nextRegion appended) (timestampUs : Int) :
    Ledger (keptBy entities timestampUs) nextEntity nextTrack nextRegion appended := by
  have entry : ∀ p ∈ (Vision.keptBy entities timestampUs).entries, ∃ state,
      (p.1, state) ∈ entities.entries ∧ p.2.trackIds = state.trackIds ∧
        ∀ n m l, EntityBooked n m l p.1 state → EntityBooked n m l p.1 p.2 := by
    intro p mem
    obtain ⟨q, inside, rfl⟩ := List.mem_map.mp mem
    exact ⟨q.2, inside, rfl, fun n m l booked => ⟨booked.name, booked.number, booked.trackIds,
      booked.trackNumbers, booked.trackKeys, booked.account, booked.tracks⟩⟩
  refine ⟨h.regionIds, h.regionNumbers, fun key state mem => ?_, fun p hp q hq id inP inQ => ?_,
    fun r mem => ?_, fun p hp id inP => ?_⟩
  · obtain ⟨old, inside, -, booked⟩ := entry (key, state) mem
    exact booked _ _ _ (h.booked key old inside)
  · obtain ⟨oldP, insideP, tracksP, -⟩ := entry p hp
    obtain ⟨oldQ, insideQ, tracksQ, -⟩ := entry q hq
    exact h.owners (p.1, oldP) insideP (q.1, oldQ) insideQ id (tracksP ▸ inP) (tracksQ ▸ inQ)
  · obtain ⟨state, inside, track⟩ := h.named r mem
    exact ⟨_, List.mem_map.mpr ⟨_, inside, rfl⟩, track⟩
  · obtain ⟨old, inside, tracks, -⟩ := entry p hp
    exact h.used _ inside id (tracks ▸ inP)

theorem Books.emitFinalizedBefore {a : VisualEntityWindowAssembler ε}
    {appended emitted : List (TrackedRegion ε)} (h : Books a appended emitted)
    (timestampUs : Int) :
    Books (a.emitFinalizedBefore timestampUs) appended
        (emitted ++ finalized a.entities timestampUs) ∧
      (a.emitFinalizedBefore timestampUs).entities = keptBy a.entities timestampUs ∧
      (a.emitFinalizedBefore timestampUs).options = a.options := by
  have balance : appended.Perm ((emitted ++ finalized a.entities timestampUs) ++
      live (keptBy a.entities timestampUs)) := by
    rw [List.append_assoc]
    exact h.balance.trans ((finalized_perm a.entities timestampUs).symm.append_left emitted)
  unfold VisualEntityWindowAssembler.emitFinalizedBefore
  simp only
  split
  · next nothing =>
    have none : finalized a.entities timestampUs = [] := nothing.1
    refine ⟨⟨h.ledger.keptBy timestampUs, balance, h.finite, fun on => ?_, fun on => ?_⟩, rfl, rfl⟩
    · rw [none, List.append_nil]
      exact h.sink on
    · rw [none, List.append_nil]
      exact h.memory on
  · refine ⟨⟨h.ledger.keptBy timestampUs, balance, h.finite, fun on => ?_, fun on => ?_⟩, rfl, rfl⟩
    · have on' : a.options.artifactSink = true := on
      simp only [if_pos on', List.flatMap_append, List.flatMap_singleton, h.sink on']
      rfl
    · have on' : a.options.retainArtifactsInMemory = true := on
      simp only [if_pos on', h.memory on']
      rfl

theorem Books.appendWindow {scores : IdentityReconciliation ε}
    {a : VisualEntityWindowAssembler ε} {call : WindowCall ε}
    {appended emitted : List (TrackedRegion ε)} (books : Books a appended emitted)
    (sorted : (call.regions.map TrackedRegion.timestampUs).Pairwise (· ≤ ·))
    (order : a.WindowInOrder scores call) :
    ∃ out emitted', Books (a.appendWindow scores call) (appended ++ out) emitted' ∧
      (out.map TrackedRegion.source).Perm
        ((passing a.options call.emitAfterUs call.regions).map TrackedRegion.source) ∧
      (a.appendWindow scores call).options = a.options := by
  obtain ⟨out, kept, sources, options⟩ := books.fragments sorted order
  simp only [VisualEntityWindowAssembler.appendWindow]
  split
  · exact ⟨out, emitted, kept, sources, options⟩
  · obtain ⟨emission, -, options'⟩ := kept.emitFinalizedBefore
      (_ - a.options.handoffRetentionUs)
    exact ⟨out, _, emission, sources, options'.trans options⟩

/-! ## Runs -/

def startAssembler (ε : Type) {options : VisualEntityWindowAssemblerOptions}
    (accepted : options.check = .ok ()) : VisualEntityWindowAssembler ε :=
  { options := options, accepted := accepted }

/-- The assembler after the calls and `finish`. -/
def assembled (scores : IdentityReconciliation ε) {options : VisualEntityWindowAssemblerOptions}
    (accepted : options.check = .ok ()) (calls : List (WindowCall ε)) :
    VisualEntityWindowAssembler ε :=
  (calls.foldl (VisualEntityWindowAssembler.appendWindow scores)
    (startAssembler ε accepted)).finish

/-- Every fragment of every window is in order when it is appended. -/
def RunInOrder (scores : IdentityReconciliation ε) {options : VisualEntityWindowAssemblerOptions}
    (accepted : options.check = .ok ()) (calls : List (WindowCall ε)) : Prop :=
  Along (VisualEntityWindowAssembler.appendWindow scores)
    (VisualEntityWindowAssembler.WindowInOrder scores) (startAssembler ε accepted) calls

/-- What was emitted: the regions the sink was called with, or those collected. -/
def VisualEntityWindowAssembler.emission (a : VisualEntityWindowAssembler ε) :
    List (TrackedRegion ε) :=
  if a.options.artifactSink then a.sunk.flatMap Prod.fst else a.collectedRegions

theorem ledger_empty : Ledger (.empty : OrderedMap String (EntityState ε)) 1 1 1 [] where
  regionIds := List.nodup_nil
  regionNumbers := by simp
  booked := by simp
  owners := by simp
  named := by simp
  used := by simp

theorem books_start {options : VisualEntityWindowAssemblerOptions}
    (accepted : options.check = .ok ()) : Books (startAssembler ε accepted) [] [] where
  ledger := ledger_empty
  balance := List.Perm.refl _
  finite := by simp
  sink := fun _ => rfl
  memory := fun _ => rfl

theorem accepted_bounds {options : VisualEntityWindowAssemblerOptions}
    (accepted : options.check = .ok ()) :
    2 ≤ options.minimumObservationCount ∧
      (options.artifactSink = true ∨ options.retainArtifactsInMemory = true) := by
  unfold VisualEntityWindowAssemblerOptions.check at accepted
  split_ifs at accepted with _ _ few _ _ _ _ _ unheard
  refine ⟨not_lt.mp few, ?_⟩
  rwa [Bool.and_eq_true, Bool.not_eq_true', Bool.not_eq_true', not_and_or, Bool.not_eq_false,
    Bool.not_eq_false] at unheard

/-- A run in order keeps the books, and appends what passes in each window. -/
theorem books_run {scores : IdentityReconciliation ε}
    {options : VisualEntityWindowAssemblerOptions} {accepted : options.check = .ok ()}
    {calls : List (WindowCall ε)}
    (sorted : ∀ call ∈ calls, (call.regions.map TrackedRegion.timestampUs).Pairwise (· ≤ ·))
    (order : RunInOrder scores accepted calls) :
    let a := calls.foldl (VisualEntityWindowAssembler.appendWindow scores)
      (startAssembler ε accepted)
    ∃ appended emitted, Books a appended emitted ∧
      (appended.map TrackedRegion.source).Perm (calls.flatMap fun call =>
        (passing options call.emitAfterUs call.regions).map TrackedRegion.source) ∧
      a.options = options := by
  refine order.invariant
    (P := fun done a => ∃ appended emitted, Books a appended emitted ∧
      (appended.map TrackedRegion.source).Perm (done.flatMap fun call =>
        (passing options call.emitAfterUs call.regions).map TrackedRegion.source) ∧
      a.options = options)
    ⟨[], [], books_start accepted, List.Perm.refl _, rfl⟩ ?_
  rintro done a call mem ⟨appended, emitted, books, sources, same⟩ inOrder
  obtain ⟨out, emitted', books', sources', same'⟩ := books.appendWindow (sorted call mem) inOrder
  refine ⟨appended ++ out, emitted', books', ?_, same'.trans same⟩
  rw [List.map_append, List.flatMap_append, List.flatMap_singleton]
  rw [same] at sources'
  exact sources.append sources'

/-- `finish` leaves nothing behind. -/
theorem Books.finish {a : VisualEntityWindowAssembler ε}
    {appended emitted : List (TrackedRegion ε)} (h : Books a appended emitted) :
    ∃ emitted', Books a.finish appended emitted' ∧ appended.Perm emitted' ∧
      a.finish.options = a.options := by
  obtain ⟨books, entities, options⟩ := h.emitFinalizedBefore maxTimestampUs
  have nothing : live a.finish.entities = [] := by
    rw [VisualEntityWindowAssembler.finish, entities, live_keptBy]
    refine List.filter_eq_nil_iff.mpr fun r mem => ?_
    have early := h.finite r (h.balance.mem_iff.mpr (List.mem_append_right _ mem))
    simpa using early
  refine ⟨_, books, ?_, options⟩
  have balance := books.balance
  rwa [show live (a.emitFinalizedBefore maxTimestampUs).entities = [] from nothing,
    List.append_nil] at balance

/-! ## The accounts -/

theorem timesOf_perm (key : TrackedRegion ε → String) (id : String)
    {l l' : List (TrackedRegion ε)} (same : l.Perm l') :
    (timesOf key id l).Perm (timesOf key id l') := (same.filter _).map _

theorem exact_perm {r : Running Int} {ts us : List Int} (same : ts.Perm us) (h : r.Exact ts) :
    r.Exact us := by
  refine ⟨h.count.trans same.length_eq, fun some => (h.spans ?_).perm same⟩
  rintro rfl
  exact some same.nil_eq.symm

theorem EntityBooked.perm {nextEntity nextTrack : Nat} {l l' : List (TrackedRegion ε)}
    {key : String} {state : EntityState ε} (same : l.Perm l')
    (h : EntityBooked nextEntity nextTrack l key state) :
    EntityBooked nextEntity nextTrack l' key state :=
  { h with
    account := exact_perm (timesOf_perm _ key same) h.account
    tracks := by
      intro id mem
      obtain ⟨track, found, exact, small⟩ := h.tracks id mem
      exact ⟨track, found, exact_perm (timesOf_perm _ id same) exact, small⟩ }

theorem Ledger.perm {entities : OrderedMap String (EntityState ε)}
    {nextEntity nextTrack nextRegion : Nat} {l l' : List (TrackedRegion ε)} (same : l.Perm l')
    (h : Ledger entities nextEntity nextTrack nextRegion l) :
    Ledger entities nextEntity nextTrack nextRegion l' where
  regionIds := (same.map _).nodup_iff.mp h.regionIds
  regionNumbers := fun r mem => h.regionNumbers r (same.mem_iff.mpr mem)
  booked := fun key state mem => (h.booked key state mem).perm same
  owners := h.owners
  named := fun r mem => h.named r (same.mem_iff.mpr mem)
  used := by
    intro p hp id inP
    obtain ⟨r, mem, track⟩ := h.used p hp id inP
    exact ⟨r, same.mem_iff.mp mem, track⟩

/-- The accounts of a run: every region that passes is emitted once, under an id of its
own and the ids of one entity and one of its tracks; the records of the result are those
of the entities with enough observations and of their tracks, and hold the extents of
what was emitted. -/
structure ExactAccounts (options : VisualEntityWindowAssemblerOptions)
    (calls : List (WindowCall ε)) (final : VisualEntityWindowAssembler ε)
    (emitted : List (TrackedRegion ε)) : Prop where
  once : (emitted.map TrackedRegion.source).Perm (calls.flatMap fun call =>
    (passing options call.emitAfterUs call.regions).map TrackedRegion.source)
  regionIds : (emitted.map TrackedRegion.regionId).Nodup
  named : ∀ r ∈ emitted, ∃ state, final.entities.find? r.entityId = some state ∧
    state.entityId = r.entityId ∧ r.trackId ∈ state.trackIds ∧
    ∀ p ∈ final.entities.entries, r.trackId ∈ p.2.trackIds → p.1 = r.entityId
  entityIds : (final.result.entities.map EntityRecord.entityId).Nodup
  trackIds : (final.result.tracks.map TrackRecord.trackId).Nodup
  recorded : ∀ r ∈ emitted,
    options.minimumObservationCount ≤
        (timesOf TrackedRegion.entityId r.entityId emitted).length →
      (∃ record ∈ final.result.entities, record.entityId = r.entityId ∧
        r.trackId ∈ record.trackIds) ∧
      ∃ record ∈ final.result.tracks, record.trackId = r.trackId ∧ record.entityId = r.entityId
  entities : ∀ record ∈ final.result.entities,
    Spans (timesOf TrackedRegion.entityId record.entityId emitted) record.firstSeenUs
      record.lastSeenUs
  tracks : ∀ record ∈ final.result.tracks,
    record.regionCount = (timesOf TrackedRegion.trackId record.trackId emitted).length ∧
    Spans (timesOf TrackedRegion.trackId record.trackId emitted) record.startUs record.endUs

section Accounts

variable {final : VisualEntityWindowAssembler ε} {emitted : List (TrackedRegion ε)}

theorem mem_retained {key : String} {state : EntityState ε} :
    (key, state) ∈ final.retained.entries ↔ (key, state) ∈ final.entities.entries ∧
      final.options.minimumObservationCount ≤ state.observationCount := by
  rw [VisualEntityWindowAssembler.retained, OrderedMap.mem_filter, decide_eq_true_eq]

theorem mem_result_entities {record : EntityRecord} :
    record ∈ final.result.entities ↔ ∃ key state, (key, state) ∈ final.retained.entries ∧
      record = state.record final.provenance.processorId final.sampledTimestampCount := by
  simp only [VisualEntityWindowAssembler.result, OrderedMap.values, List.map_map, List.mem_map,
    Prod.exists, Function.comp_apply, eq_comm]

theorem mem_result_tracks {record : TrackRecord} :
    record ∈ final.result.tracks ↔ ∃ key state id track, (key, state) ∈ final.retained.entries ∧
      id ∈ state.trackIds ∧ state.tracks.find? id = some track ∧
      record = track.record id state.entityId final.provenance.processorId
        final.sampledTimestampCount := by
  simp only [VisualEntityWindowAssembler.result, OrderedMap.values, List.mem_flatMap,
    List.mem_map, List.mem_filterMap, Option.map_eq_some_iff, Prod.exists]
  constructor
  · rintro ⟨state, ⟨key, state', mem, rfl⟩, id, inside, track, found, rfl⟩
    exact ⟨key, state', id, track, mem, inside, found, rfl⟩
  · rintro ⟨key, state, id, track, mem, inside, found, rfl⟩
    exact ⟨state, ⟨key, state, mem, rfl⟩, id, inside, track, found, rfl⟩

variable {nextEntity nextTrack nextRegion : Nat}

theorem Ledger.retained (h : Ledger final.entities nextEntity nextTrack nextRegion emitted)
    {p : String × EntityState ε} (mem : p ∈ final.retained.entries) :
    p ∈ final.entities.entries ∧ EntityBooked nextEntity nextTrack emitted p.1 p.2 :=
  ⟨(mem_retained.mp mem).1, h.booked p.1 p.2 (mem_retained.mp mem).1⟩

theorem Ledger.entities_exact
    (h : Ledger final.entities nextEntity nextTrack nextRegion emitted)
    (several : 2 ≤ final.options.minimumObservationCount) {record : EntityRecord}
    (mem : record ∈ final.result.entities) :
    Spans (timesOf TrackedRegion.entityId record.entityId emitted) record.firstSeenUs
      record.lastSeenUs := by
  obtain ⟨key, state, kept, rfl⟩ := mem_result_entities.mp mem
  obtain ⟨-, booked⟩ := h.retained kept
  have seen : 0 < state.observationCount :=
    Nat.zero_lt_two.trans_le (several.trans (mem_retained.mp kept).2)
  have some : timesOf TrackedRegion.entityId key emitted ≠ [] := by
    intro none
    have count : state.observationCount = 0 := by
      rw [show state.observationCount = _ from booked.account.count, none, List.length_nil]
    exact absurd count seen.ne'
  rw [show (state.record _ _).entityId = key from booked.name]
  exact booked.account.spans some

theorem Ledger.tracks_exact
    (h : Ledger final.entities nextEntity nextTrack nextRegion emitted) {record : TrackRecord}
    (mem : record ∈ final.result.tracks) :
    record.regionCount = (timesOf TrackedRegion.trackId record.trackId emitted).length ∧
      Spans (timesOf TrackedRegion.trackId record.trackId emitted) record.startUs
        record.endUs := by
  obtain ⟨key, state, id, track, kept, inside, found, rfl⟩ := mem_result_tracks.mp mem
  obtain ⟨entry, booked⟩ := h.retained kept
  obtain ⟨track', found', exact, small⟩ := booked.tracks id inside
  rw [found] at found'
  cases found'
  have count : track.regionCount = (timesOf TrackedRegion.trackId id emitted).length := exact.count
  have some : timesOf TrackedRegion.trackId id emitted ≠ [] := by
    obtain ⟨r, hr, same⟩ := h.used _ entry id inside
    refine List.ne_nil_of_mem (List.mem_map_of_mem (List.mem_filter.mpr ⟨hr, ?_⟩))
    exact decide_eq_true same
  refine ⟨?_, exact.spans some⟩
  -- a count below `2 ^ 31` is its own `int`
  simp only [TrackState.record, ← count]
  exact Int.bmod_eq_of_le (by omega) (by omega)

theorem Ledger.recorded (h : Ledger final.entities nextEntity nextTrack nextRegion emitted)
    {r : TrackedRegion ε} (mem : r ∈ emitted)
    (enough : final.options.minimumObservationCount ≤
      (timesOf TrackedRegion.entityId r.entityId emitted).length) :
    (∃ record ∈ final.result.entities, record.entityId = r.entityId ∧
        r.trackId ∈ record.trackIds) ∧
      ∃ record ∈ final.result.tracks, record.trackId = r.trackId ∧
        record.entityId = r.entityId := by
  obtain ⟨state, entry, inside⟩ := h.named r mem
  have booked := h.booked _ _ entry
  have kept : (r.entityId, state) ∈ final.retained.entries :=
    mem_retained.mpr ⟨entry, enough.trans booked.account.count.ge⟩
  obtain ⟨track, found, -⟩ := booked.tracks _ inside
  exact ⟨⟨_, mem_result_entities.mpr ⟨_, _, kept, rfl⟩, booked.name, inside⟩,
    ⟨_, mem_result_tracks.mpr ⟨_, _, _, _, kept, inside, found, rfl⟩, rfl, booked.name⟩⟩

theorem Ledger.entityIds_nodup
    (h : Ledger final.entities nextEntity nextTrack nextRegion emitted) :
    (final.result.entities.map EntityRecord.entityId).Nodup := by
  have keys : final.result.entities.map EntityRecord.entityId =
      final.retained.entries.map Prod.fst := by
    simp only [VisualEntityWindowAssembler.result, OrderedMap.values, List.map_map]
    exact List.map_congr_left fun p mem => (h.retained mem).2.name
  rw [keys]
  exact final.retained.keys_nodup

theorem Ledger.trackIds_nodup
    (h : Ledger final.entities nextEntity nextTrack nextRegion emitted) :
    (final.result.tracks.map TrackRecord.trackId).Nodup := by
  have ids : final.result.tracks.map TrackRecord.trackId =
      final.retained.entries.flatMap fun p => p.2.trackIds := by
    simp only [VisualEntityWindowAssembler.result, OrderedMap.values, List.map_flatMap,
      List.flatMap_map]
    refine List.flatMap_congr fun p mem => ?_
    have booked := (h.retained mem).2
    rw [List.map_filterMap]
    refine (List.filterMap_congr fun id inside => ?_).trans List.filterMap_some
    obtain ⟨track, found, -⟩ := booked.tracks id inside
    rw [found]
    rfl
  rw [ids, List.nodup_flatMap]
  refine ⟨fun p mem => (h.retained mem).2.trackIds, ?_⟩
  refine (List.pairwise_map.mp final.retained.keys_nodup).imp_of_mem ?_
  intro p q inP inQ apart id here there
  exact apart (h.owners p (mem_retained.mp inP).1 q (mem_retained.mp inQ).1 id here there)

end Accounts

/-- After every run whose fragments are in order, the accounts are exact. -/
theorem entity_accounts_exact (scores : IdentityReconciliation ε)
    {options : VisualEntityWindowAssemblerOptions} (accepted : options.check = .ok ())
    (calls : List (WindowCall ε))
    (sorted : ∀ call ∈ calls, (call.regions.map TrackedRegion.timestampUs).Pairwise (· ≤ ·))
    (order : RunInOrder scores accepted calls) :
    let final := assembled scores accepted calls
    ExactAccounts options calls final final.emission ∧
      (options.retainArtifactsInMemory = true → final.collectedRegions = final.emission) := by
  intro final
  obtain ⟨appended, emitted, books, sources, same⟩ := books_run sorted order
  obtain ⟨emitted', left, all, same'⟩ := books.finish
  have finished : Books final appended emitted' := left
  have options' : final.options = options := same'.trans same
  obtain ⟨several, heard⟩ := accepted_bounds accepted
  have emission : final.emission = emitted' := by
    unfold VisualEntityWindowAssembler.emission
    split
    · next on => exact finished.sink on
    · next off =>
      refine finished.memory ?_
      rw [options'] at off ⊢
      exact heard.resolve_left off
  have ledger := finished.ledger.perm all
  rw [emission]
  refine ⟨⟨?_, ledger.regionIds, fun r mem => ?_, ledger.entityIds_nodup, ledger.trackIds_nodup,
    fun r mem enough => ?_, fun record mem => ?_, fun record mem => ledger.tracks_exact mem⟩,
    fun on => ?_⟩
  · exact (all.symm.map _).trans sources
  · obtain ⟨state, entry, track⟩ := ledger.named r mem
    exact ⟨state, OrderedMap.find?_eq_some.mpr entry, (ledger.booked _ _ entry).name, track,
      fun p hp shared => ledger.owners p hp _ entry _ shared track⟩
  · exact ledger.recorded mem (by rwa [options'])
  · exact ledger.entities_exact (by rwa [options']) mem
  · exact finished.memory (by rwa [options'])

/-! ## Runs on fixed windows -/

instance InOrder.decidable (state : EntityState ε) (continuesTrack : Bool)
    (regions : List (TrackedRegion ε)) : Decidable (InOrder state continuesTrack regions) :=
  decidable_of_iff
    ((regions.isEmpty = false → 0 < state.observationCount →
        state.firstSeenUs ≤ frontUs regions ∧ state.lastSeenUs ≤ backUs regions) ∧
      (regions.isEmpty = false → ∀ track ∈ state.continuedTrack continuesTrack,
        track.startUs ≤ frontUs regions ∧ track.endUs ≤ backUs regions) ∧
      (∀ r ∈ regions, r.timestampUs < maxTimestampUs) ∧
      ((state.continuedTrack continuesTrack).elim 0 TrackState.regionCount) +
        regions.length < 2 ^ 31)
    (by
      rw [List.isEmpty_eq_false_iff]
      exact ⟨fun h => ⟨h.1, h.2.1, h.2.2.1, h.2.2.2⟩,
        fun h => ⟨h.entity, h.track, h.finite, h.count⟩⟩)

instance RunInOrder.decidable (scores : IdentityReconciliation ε)
    {options : VisualEntityWindowAssemblerOptions} (accepted : options.check = .ok ())
    (calls : List (WindowCall ε)) : Decidable (RunInOrder scores accepted calls) :=
  @Along.decidable _ _ _ _
    (fun _ _ => @Along.decidable _ _ _ _ (fun _ _ => InOrder.decidable _ _ _) _ _) _ _

def seenAt (entityId : String) (timestampUs : Int) : TrackedRegion Unit where
  regionId := ""
  entityId := entityId
  trackId := ""
  frameId := ""
  timestampUs := timestampUs
  screenAreaRatio := 1 / 4
  maskPixels := []
  maskWidth := 0
  maskHeight := 0
  embedding := []
  maskRef := ""
  candidateSource := "detector"
  detectorCategoryIndex := 0
  evidence := ()

/-- Fragments that look alike and never overlap. -/
def alike : IdentityReconciliation Unit where
  overlapScore _ _ _ := 0
  supportedReacquisitionScore _ _ := 9 / 10
  motionGroupReacquisitionScore _ _ := -1

def inMemory : VisualEntityWindowAssemblerOptions := { retainArtifactsInMemory := true }

theorem inMemory_accepted : inMemory.check = .ok () := by decide +kernel

/-- One window of five seconds with these regions, as the fold passes it. -/
def oneWindow (regions : List (TrackedRegion Unit)) : List (WindowCall Unit) :=
  foldedCalls (-1) [(⟨0, 5000000, [0]⟩, some ⟨regions, {}, []⟩)]

/-- Entity `b` is seen on both sides of entity `c`, and both look like `a`. -/
def interleaved : List (WindowCall Unit) :=
  oneWindow [seenAt "a" 0, seenAt "a" 200000, seenAt "b" 2000000, seenAt "c" 2200000,
    seenAt "c" 2400000, seenAt "b" 4000000]

theorem entity_accounts_exact_one :
    let calls := oneWindow [seenAt "a" 0, seenAt "a" 200000, seenAt "b" 2000000]
    (∀ call ∈ calls, (call.regions.map TrackedRegion.timestampUs).Pairwise (· ≤ ·)) ∧
      RunInOrder alike inMemory_accepted calls ∧
      ExactAccounts inMemory calls (assembled alike inMemory_accepted calls)
        (assembled alike inMemory_accepted calls).emission := by
  intro calls
  have sorted : ∀ call ∈ calls, (call.regions.map TrackedRegion.timestampUs).Pairwise (· ≤ ·) := by
    decide
  have order : RunInOrder alike inMemory_accepted calls := by decide +kernel
  exact ⟨sorted, order, (entity_accounts_exact alike inMemory_accepted calls sorted order).1⟩

/-- The entity of interleaved fragments is said to be last seen before it is. -/
theorem interleaved_misdated :
    (∀ call ∈ interleaved, (call.regions.map TrackedRegion.timestampUs).Pairwise (· ≤ ·)) ∧
      ¬ ExactAccounts inMemory interleaved (assembled alike inMemory_accepted interleaved)
        (assembled alike inMemory_accepted interleaved).emission := by
  refine ⟨by decide, fun accounts => ?_⟩
  have recorded : ∃ record ∈ (assembled alike inMemory_accepted interleaved).result.entities,
      record.entityId = "entity_000001" ∧ record.lastSeenUs = 2400000 := by decide +kernel
  have later : (4000000 : Int) ∈ timesOf TrackedRegion.entityId "entity_000001"
      (assembled alike inMemory_accepted interleaved).emission := by decide +kernel
  obtain ⟨record, mem, name, last⟩ := recorded
  have spans := accounts.entities record mem
  rw [name, last] at spans
  exact absurd (spans.greatest.2 later) (by decide)

end Svp.Vision

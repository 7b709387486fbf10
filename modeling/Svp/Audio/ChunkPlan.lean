import Svp.Audio.ChunkReconciliation

/-!
# The chunks of a plan and their overlaps

A plan is exact (`ExactChunks`) when its sums fit an `int64`, its chunks cover the audio
in order, every chunk after the first brings new audio, and the two overlap fields of
neighbours are the length of what they share. The planner goes on to every start before
the end of the audio, so a last start inside what the chunk before already covers makes a
chunk without new audio, and one whose overlap is taken for longer than it is:
`asrChunkPlan_exact_iff`.
-/

namespace Svp.Audio

/-- Whether `t` is in the chunk's audio. -/
def AsrChunkPlan.Holds (chunk : AsrChunkPlan) (t : Int) : Prop :=
  chunk.sourceStartUs ≤ t ∧ t < chunk.sourceEndUs

/-- The length of the audio two chunks share. -/
def commonUs (a b : AsrChunkPlan) : Int :=
  max 0 (min a.sourceEndUs b.sourceEndUs - max a.sourceStartUs b.sourceStartUs)

/-- `std::numeric_limits<std::int64_t>::max()`. -/
def maxTimeUs : Int := 2 ^ 63 - 1

/-- The plan a caller may rely on. The first field says that no sum of the planner's
loop overflows: `cursor + chunk_duration_us` is the largest. -/
structure ExactChunks (request : AsrPlanRequest) (chunks : List AsrChunkPlan) : Prop where
  representable : ∀ chunk ∈ chunks, chunk.sourceStartUs + request.chunkDurationUs ≤ maxTimeUs
  ordered : chunks.Pairwise fun a b => a.sourceStartUs < b.sourceStartUs
  covers : ∀ t, (0 ≤ t ∧ t < request.totalDurationUs) ↔ ∃ chunk ∈ chunks, chunk.Holds t
  fresh : ∀ (i : Nat) chunk, 0 < i → chunks[i]? = some chunk →
    ∃ t, chunk.Holds t ∧ ∀ j < i, ∀ earlier, chunks[j]? = some earlier → ¬ earlier.Holds t
  overlaps : ∀ (i : Nat) earlier later, chunks[i]? = some earlier → chunks[i + 1]? = some later →
    earlier.overlapAfterUs = commonUs earlier later ∧
      later.overlapBeforeUs = commonUs earlier later

/-- The start of the last chunk. -/
def AsrPlanRequest.lastStart (request : AsrPlanRequest) : Int :=
  (request.totalDurationUs - 1) / request.step * request.step

/-- One chunk is enough, or the last one reaches past the overlap. -/
def AsrPlanRequest.EndsInNewAudio (request : AsrPlanRequest) : Prop :=
  request.totalDurationUs ≤ request.step ∨
    request.overlapUs ≤ (request.totalDurationUs - 1) % request.step

section Plan

variable {request : AsrPlanRequest} {chunks : List AsrChunkPlan}

theorem plannedFrom_of_lt {ordinal : Nat} {cursor : Int} (step : 0 < request.step) {i : Nat}
    (before : cursor + i * request.step < request.totalDurationUs) :
    (plannedFrom request ordinal cursor)[i]? =
      some (plannedChunk request (ordinal + i) (cursor + i * request.step)) := by
  induction i generalizing ordinal cursor with
  | zero =>
    have here : cursor < request.totalDurationUs := by simpa using before
    rw [plannedFrom, if_pos ⟨here, step⟩]
    simp
  | succ i ih =>
    have next : cursor + request.step + i * request.step =
        cursor + (i + 1 : Nat) * request.step := by
      push_cast
      ring
    have here : cursor < request.totalDurationUs := by
      refine lt_of_le_of_lt (le_add_of_nonneg_right ?_) before
      exact mul_nonneg (Int.natCast_nonneg _) step.le
    rw [plannedFrom, if_pos ⟨here, step⟩, List.getElem?_cons_succ, ih (by rwa [next]), next,
      Nat.add_right_comm, Nat.add_assoc]

/-- The plan's chunks are those that start before the end. -/
theorem buildAsrChunkPlan_getElem? (ok : buildAsrChunkPlan request = .ok chunks) (i : Nat)
    (chunk : AsrChunkPlan) :
    chunks[i]? = some chunk ↔ chunk = plannedChunk request i (i * request.step) ∧
      i * request.step < request.totalDurationUs := by
  have planned := buildAsrChunkPlan_planned ok
  refine ⟨planned.chunk i chunk, ?_⟩
  rintro ⟨rfl, before⟩
  have nonneg : 0 ≤ i * request.step := mul_nonneg (Int.natCast_nonneg _) planned.step.le
  unfold buildAsrChunkPlan at ok
  simp only [bind, Except.bind, pure, Except.pure, throw, throwThe, MonadExceptOf.throw] at ok
  split_ifs at ok with negative empty negativeOverlap wide nothing stuck
  · exact absurd (nothing ▸ before) (not_lt.mpr nonneg)
  · cases ok
    rw [plannedFrom_of_lt planned.step (by simpa using before), Nat.zero_add, zero_add]

theorem mem_chunks (ok : buildAsrChunkPlan request = .ok chunks) {chunk : AsrChunkPlan} :
    chunk ∈ chunks ↔ ∃ i : Nat, chunk = plannedChunk request i (i * request.step) ∧
      i * request.step < request.totalDurationUs := by
  rw [List.mem_iff_getElem?]
  exact exists_congr fun i => buildAsrChunkPlan_getElem? ok i chunk

theorem holds_plannedChunk {i : Nat} {t : Int} :
    (plannedChunk request i (i * request.step)).Holds t ↔
      i * request.step ≤ t ∧ t < i * request.step + request.chunkDurationUs ∧
        t < request.totalDurationUs := by
  rw [AsrChunkPlan.Holds, plannedChunk, lt_min_iff]

/-- A chunk begins at or before the last start. -/
theorem le_lastStart (step : 0 < request.step) {i : Nat}
    (before : i * request.step < request.totalDurationUs) :
    i * request.step ≤ request.lastStart := by
  refine mul_le_mul_of_nonneg_right ?_ step.le
  exact (Int.le_ediv_iff_mul_le step).mpr (Int.le_sub_one_of_lt before)

theorem lastStart_add (request : AsrPlanRequest) :
    request.lastStart + (request.totalDurationUs - 1) % request.step =
      request.totalDurationUs - 1 := by
  rw [AsrPlanRequest.lastStart, mul_comm]
  exact Int.mul_ediv_add_emod _ _

/-- There is a chunk at the last start. -/
theorem exists_last (step : 0 < request.step) (some : 0 < request.totalDurationUs) :
    ∃ n : Nat, (n : Int) * request.step = request.lastStart ∧
      n * request.step < request.totalDurationUs := by
  have nonneg : 0 ≤ (request.totalDurationUs - 1) / request.step :=
    Int.ediv_nonneg (Int.sub_nonneg_of_le some) step.le
  obtain ⟨n, same⟩ := Int.eq_ofNat_of_zero_le nonneg
  have last : (n : Int) * request.step = request.lastStart := by
    rw [AsrPlanRequest.lastStart, same]
  refine ⟨n, last, ?_⟩
  have rest := Int.emod_nonneg (request.totalDurationUs - 1) step.ne'
  rw [last]
  linarith [lastStart_add request]

/-- Where the plan ends in new audio, a chunk that has one before it begins more than the
overlap before the end, and no earlier than the overlap. -/
theorem AsrPlanRequest.EndsInNewAudio.room (ends : request.EndsInNewAudio)
    (step : 0 < request.step) {i : Nat} (later : 0 < i)
    (before : i * request.step < request.totalDurationUs) :
    i * request.step + request.overlapUs < request.totalDurationUs ∧
      request.overlapUs ≤ i * request.step := by
  have one : request.step ≤ i * request.step :=
    le_mul_of_one_le_left step.le (by exact_mod_cast later)
  rcases ends with single | ends
  · exact absurd (before.trans_le single) (not_lt.mpr one)
  · have start := le_lastStart step before
    have short := Int.emod_lt_of_pos (request.totalDurationUs - 1) step
    have last := lastStart_add request
    constructor <;> linarith

theorem covers_of_planned (ok : buildAsrChunkPlan request = .ok chunks) (t : Int) :
    (0 ≤ t ∧ t < request.totalDurationUs) ↔ ∃ chunk ∈ chunks, chunk.Holds t := by
  have planned := buildAsrChunkPlan_planned ok
  have step := planned.step
  constructor
  · rintro ⟨nonneg, before⟩
    obtain ⟨i, same⟩ := Int.eq_ofNat_of_zero_le (Int.ediv_nonneg nonneg step.le)
    have start : (i : Int) * request.step ≤ t := by
      rw [← show t / request.step = i from same]
      exact Int.ediv_mul_le t step.ne'
    have short : t < i * request.step + request.step := by
      rw [← show t / request.step = i from same]
      exact Int.lt_ediv_add_one_mul_self t step |>.trans_eq (add_one_mul _ _)
    refine ⟨_, (mem_chunks ok).mpr ⟨i, rfl, start.trans_lt before⟩,
      holds_plannedChunk.mpr ⟨start, ?_, before⟩⟩
    have wide : request.step ≤ request.chunkDurationUs := sub_le_self _ planned.overlap
    exact short.trans_le (add_le_add_right wide _)
  · rintro ⟨chunk, mem, holds⟩
    obtain ⟨i, rfl, -⟩ := (mem_chunks ok).mp mem
    obtain ⟨start, -, before⟩ := holds_plannedChunk.mp holds
    exact ⟨(mul_nonneg (Int.natCast_nonneg _) step.le).trans start, before⟩

theorem ordered_of_planned (ok : buildAsrChunkPlan request = .ok chunks) :
    chunks.Pairwise fun a b => a.sourceStartUs < b.sourceStartUs := by
  refine List.pairwise_iff_getElem.mpr fun i j hi hj less => ?_
  have first := ((buildAsrChunkPlan_getElem? ok i _).mp (List.getElem?_eq_getElem hi)).1
  have second := ((buildAsrChunkPlan_getElem? ok j _).mp (List.getElem?_eq_getElem hj)).1
  rw [first, second]
  exact mul_lt_mul_of_pos_right (by exact_mod_cast less) (buildAsrChunkPlan_planned ok).step

/-- The end of the chunk before is audio no earlier chunk holds. -/
theorem fresh_of_endsInNewAudio (ok : buildAsrChunkPlan request = .ok chunks)
    (ends : request.EndsInNewAudio) {i : Nat} {chunk : AsrChunkPlan} (later : 0 < i)
    (isChunk : chunks[i]? = some chunk) :
    ∃ t, chunk.Holds t ∧ ∀ j < i, ∀ earlier, chunks[j]? = some earlier → ¬ earlier.Holds t := by
  have planned := buildAsrChunkPlan_planned ok
  have step := planned.step
  obtain ⟨rfl, before⟩ := (buildAsrChunkPlan_getElem? ok i chunk).mp isChunk
  obtain ⟨room, -⟩ := ends.room step later before
  have duration : request.step + request.overlapUs = request.chunkDurationUs :=
    sub_add_cancel _ _
  refine ⟨i * request.step + request.overlapUs, holds_plannedChunk.mpr ⟨?_, ?_, room⟩,
    fun j less earlier isEarlier holds => ?_⟩
  · exact le_add_of_nonneg_right planned.overlap
  · linarith
  · obtain ⟨rfl, -⟩ := (buildAsrChunkPlan_getElem? ok j earlier).mp isEarlier
    obtain ⟨-, short, -⟩ := holds_plannedChunk.mp holds
    have next : ((j + 1 : Nat) : Int) * request.step ≤ i * request.step :=
      mul_le_mul_of_nonneg_right (by exact_mod_cast less) step.le
    push_cast at next
    linarith

/-- Neighbours share the overlap, and say so. -/
theorem overlaps_of_endsInNewAudio (ok : buildAsrChunkPlan request = .ok chunks)
    (ends : request.EndsInNewAudio) {i : Nat} {earlier later : AsrChunkPlan}
    (first : chunks[i]? = some earlier) (second : chunks[i + 1]? = some later) :
    earlier.overlapAfterUs = commonUs earlier later ∧
      later.overlapBeforeUs = commonUs earlier later := by
  have planned := buildAsrChunkPlan_planned ok
  have step := planned.step
  obtain ⟨rfl, -⟩ := (buildAsrChunkPlan_getElem? ok i earlier).mp first
  obtain ⟨rfl, before⟩ := (buildAsrChunkPlan_getElem? ok (i + 1) later).mp second
  obtain ⟨room, full⟩ := ends.room step (Nat.succ_pos i) before
  have next : ((i + 1 : Nat) : Int) * request.step = i * request.step + request.step := by
    push_cast
    ring
  rw [next] at room full before
  have duration : request.step + request.overlapUs = request.chunkDurationUs :=
    sub_add_cancel _ _
  have nonneg := planned.overlap
  have common : commonUs (plannedChunk request i (i * request.step))
      (plannedChunk request (i + 1) ((i + 1 : Nat) * request.step)) = request.overlapUs := by
    have firstEnd : min (i * request.step + request.chunkDurationUs) request.totalDurationUs =
        i * request.step + request.chunkDurationUs := min_eq_left (by linarith)
    have shared : min (i * request.step + request.chunkDurationUs)
        (min (i * request.step + request.step + request.chunkDurationUs)
          request.totalDurationUs) = i * request.step + request.chunkDurationUs :=
      min_eq_left (le_min (by linarith) (by linarith))
    simp only [commonUs, plannedChunk, next]
    rw [firstEnd, shared, max_eq_right (by linarith : (i : Int) * request.step ≤ _), ← duration,
      max_eq_right (by linarith)]
    ring
  rw [common]
  constructor
  · simp only [plannedChunk, if_pos before]
    exact min_eq_left (by linarith)
  · simp only [plannedChunk, Nat.add_one_ne_zero, if_false, next]
    exact min_eq_left full

/-- A plan whose last chunk brings new audio ends in new audio. -/
theorem endsInNewAudio_of_fresh (ok : buildAsrChunkPlan request = .ok chunks)
    (exact : ExactChunks request chunks) : request.EndsInNewAudio := by
  have planned := buildAsrChunkPlan_planned ok
  have step := planned.step
  rcases le_or_gt request.totalDurationUs request.step with single | several
  · exact .inl single
  · obtain ⟨n, last, before⟩ := exists_last step (step.trans several)
    have later : 0 < n := by
      rcases Nat.eq_zero_or_pos n with rfl | later
      · have rest := Int.emod_lt_of_pos (request.totalDurationUs - 1) step
        have sum := lastStart_add request
        rw [← last, Nat.cast_zero, zero_mul, zero_add] at sum
        linarith
      · exact later
    obtain ⟨m, rfl⟩ := Nat.exists_eq_add_of_lt later
    rw [Nat.zero_add] at last before later
    have isLast := (buildAsrChunkPlan_getElem? ok (m + 1) _).mpr ⟨rfl, before⟩
    have start : (m : Int) * request.step + request.step = request.lastStart := by
      rw [← last]
      push_cast
      ring
    have isBefore := (buildAsrChunkPlan_getElem? ok m _).mpr ⟨rfl, by linarith⟩
    obtain ⟨t, holds, new⟩ := exact.fresh (m + 1) _ later isLast
    obtain ⟨begun, -, inside⟩ := holds_plannedChunk.mp holds
    have past : (m : Int) * request.step + request.chunkDurationUs ≤ t := by
      by_contra short
      refine new m (Nat.lt_succ_self m) _ isBefore (holds_plannedChunk.mpr ⟨?_, ?_, inside⟩)
      · linarith
      · exact not_le.mp short
    have duration : request.step + request.overlapUs = request.chunkDurationUs :=
      sub_add_cancel _ _
    have sum := lastStart_add request
    exact .inr (by linarith)

/-- A plan is exact just when its sums fit and its last chunk reaches past the overlap. -/
theorem asrChunkPlan_exact_iff (ok : buildAsrChunkPlan request = .ok chunks) :
    ExactChunks request chunks ↔
      (0 < request.totalDurationUs → request.lastStart + request.chunkDurationUs ≤ maxTimeUs) ∧
        request.EndsInNewAudio := by
  have step := (buildAsrChunkPlan_planned ok).step
  constructor
  · intro exact
    refine ⟨fun some => ?_, endsInNewAudio_of_fresh ok exact⟩
    obtain ⟨n, last, before⟩ := exists_last step some
    have fits := exact.representable _ ((mem_chunks ok).mpr ⟨n, rfl, before⟩)
    rwa [plannedChunk, last] at fits
  · rintro ⟨fits, ends⟩
    refine ⟨fun chunk mem => ?_, ordered_of_planned ok, covers_of_planned ok,
      fun i chunk later isChunk => fresh_of_endsInNewAudio ok ends later isChunk,
      fun i earlier later first second => overlaps_of_endsInNewAudio ok ends first second⟩
    obtain ⟨i, rfl, before⟩ := (mem_chunks ok).mp mem
    have nonneg : 0 ≤ i * request.step := mul_nonneg (Int.natCast_nonneg _) step.le
    exact (add_le_add_left (le_lastStart step before) _).trans (fits (nonneg.trans_lt before))

end Plan

theorem asrChunkPlan_exact_sample : buildAsrChunkPlan sampleRequest = .ok sampleChunks ∧
    ExactChunks sampleRequest sampleChunks :=
  ⟨buildAsrChunkPlan_sample, (asrChunkPlan_exact_iff buildAsrChunkPlan_sample).mpr
    ⟨fun _ => by decide, .inr (by decide)⟩⟩

/-- A track of 27 seconds: the chunk before the last already reaches its end. -/
def coveredRequest : AsrPlanRequest := { totalDurationUs := 27000000, modelId := "model" }

def coveredChunks : List AsrChunkPlan :=
  [plannedChunk coveredRequest 0 0, plannedChunk coveredRequest 1 13000000,
    plannedChunk coveredRequest 2 26000000]

theorem buildAsrChunkPlan_covered : buildAsrChunkPlan coveredRequest = .ok coveredChunks := by
  have plan : plannedFrom coveredRequest 0 0 = coveredChunks := by
    rw [plannedFrom, if_pos (by decide), plannedFrom, if_pos (by decide), plannedFrom,
      if_pos (by decide), plannedFrom, if_neg (by decide)]
    rfl
  rw [buildAsrChunkPlan, plan]
  rfl

/-- Its last chunk brings nothing new, and takes the second of audio it shares for two. -/
theorem coveredChunk_inexact : buildAsrChunkPlan coveredRequest = .ok coveredChunks ∧
    (plannedChunk coveredRequest 2 26000000).overlapBeforeUs = 2000000 ∧
    commonUs (plannedChunk coveredRequest 1 13000000) (plannedChunk coveredRequest 2 26000000) =
      1000000 ∧
    ¬ ExactChunks coveredRequest coveredChunks := by
  refine ⟨buildAsrChunkPlan_covered, by decide, by decide, fun exact => ?_⟩
  rcases endsInNewAudio_of_fresh buildAsrChunkPlan_covered exact with single | ends
  · exact absurd single (by decide)
  · exact absurd ends (by decide)

end Svp.Audio

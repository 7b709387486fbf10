import Svp.Exec.Error

/-!
# The temporal sampling plan of OCR

`computeOcrTemporalTimestamps` places a sample every `effectiveGap` from the start of
the video, and one at its safe end; a few evenly placed samples replace them where
there are too few. Counts are 64- and 32-bit integers: a sum or product out of range
has no defined value, and the plan is none.

1. `gridFrom_eq`, `countFrom_eq`: both loops over the grid in closed form.
2. `length_generateTimestamps`: the samples are one more than the steps, whether or
   not the end is a multiple of the gap; `uncappedCount_eq`: the count of them is not.
3. `ocrPlan_exact_iff`: the plan is as documented exactly when the safe end is off the
   grid and the counts fit their types.
-/

namespace Svp.Vision

/-! ## Machine integers -/

/-- The value, where a signed integer of that many bits holds it. -/
def signed (bits : Nat) (value : Int) : Option Int :=
  if -2 ^ (bits - 1) ≤ value ∧ value < 2 ^ (bits - 1) then some value else none

/-- A conversion to `int` keeps the low 32 bits. -/
def castInt (value : Int) : Int := value.bmod (2 ^ 32)

theorem signed_of_nonneg {bits : Nat} {value : Int} (nonneg : 0 ≤ value) :
    signed bits value = if value < 2 ^ (bits - 1) then some value else none := by
  have low : -2 ^ (bits - 1) ≤ value := (neg_nonpos.mpr (by positivity)).trans nonneg
  simp [signed, low]

theorem castInt_of_lt {value : Int} (nonneg : 0 ≤ value) (fits : value < 2 ^ 31) :
    castInt value = value :=
  Int.bmod_eq_of_le (by omega) (by omega)

theorem castInt_lt (value : Int) : castInt value < 2 ^ 31 :=
  Int.bmod_lt (by decide)

theorem castInt_le (value : Int) (nonneg : 0 ≤ value) : castInt value ≤ value := by
  have low : value % (2 ^ 32 : Nat) ≤ value := by omega
  rw [castInt, Int.bmod_def]
  split <;> omega

/-! ## The program -/

structure OcrSamplingConfig where
  maxSampleGapUs : Int64 := 1_000_000
  safeEndMarginUs : Int64 := 100_000
  minSampleCount : Int32 := 3
  targetMaxSamples : Int32 := 600
  samplingStrategy : String := "temporal_interval"
  temporalCoverageNote : String := "Text visible for less than max_sample_gap_us may be missed."

structure OcrTemporalSamplingResult where
  timestampsUs : List Int := []
  durationUs : Int := 0
  maxSampleGapUs : Int := 0
  safeEndMarginUs : Int := 0
  safeEndUs : Int := 0
  effectiveMaxSampleGapUs : Int := 0
  sampleCount : Int := 0
  uncappedSampleCount : Int := 0
  minSampleCount : Int := 0
  targetMaxSamples : Int := 0
  gapScaled : Bool := false
  samplingStrategy : String := ""
  temporalCoverageNote : String := ""
  sparseCoverage : Bool := false
  sparseCoverageReason : String := ""
deriving DecidableEq

def OcrSamplingConfig.margin (config : OcrSamplingConfig) : Int :=
  if 0 < config.safeEndMarginUs.toInt then config.safeEndMarginUs.toInt else 100_000

def OcrSamplingConfig.safeEnd (config : OcrSamplingConfig) (durationUs : Int64) : Int :=
  if config.margin < durationUs.toInt then durationUs.toInt - config.margin else durationUs.toInt

def OcrSamplingConfig.configuredGap (config : OcrSamplingConfig) : Int :=
  if 0 < config.maxSampleGapUs.toInt then config.maxSampleGapUs.toInt else 1_000_000

/-- The gap of the samples, and whether it was scaled up from the configured one. -/
def OcrSamplingConfig.effectiveGap (config : OcrSamplingConfig) (safeEnd : Int) : Int × Bool :=
  if 0 < config.targetMaxSamples.toInt then
    let scaledGap := safeEnd.tdiv config.targetMaxSamples.toInt
    if config.configuredGap < scaledGap then (scaledGap, true) else (config.configuredGap, false)
  else (config.configuredGap, false)

/-- `for (t = …; t < safe_end; t += gap)`, which lists the values of `t`. -/
def gridFrom (gap safeEnd : Int) : Nat → Int → Option (List Int)
  | 0, _ => some []
  | rounds + 1, t =>
    if t < safeEnd then do
      let rest ← gridFrom gap safeEnd rounds (← signed 64 (t + gap))
      return t :: rest
    else some []

def generateTimestamps (gap safeEnd : Int) : Option (List Int) := do
  let timestamps := 0 :: (← gridFrom gap safeEnd safeEnd.toNat gap)
  return if timestamps.getLastD 0 < safeEnd then timestamps ++ [safeEnd] else timestamps

/-- The sample of that index of the minimum-count rule, in the middle of its part. -/
def minimumTimestamp (minSampleCount safeEnd : Int) (i : Nat) : Option Int := do
  let odd ← signed 32 (2 * i + 1)
  let product ← signed 64 (safeEnd * odd)
  return product.tdiv (← signed 32 (2 * minSampleCount))

def minimumTimestamps (minSampleCount safeEnd : Int) : Option (List Int) :=
  (List.range minSampleCount.toNat).mapM (minimumTimestamp minSampleCount safeEnd)

/-- Whether the minimum-count rule replaces so many samples. -/
def tooFew (config : OcrSamplingConfig) (timestamps : List Int) : Bool :=
  castInt timestamps.length < config.minSampleCount.toInt && 0 < config.minSampleCount.toInt

def placeTimestamps (config : OcrSamplingConfig) (safeEnd : Int) (generated : List Int) :
    Option (List Int) :=
  if tooFew config generated then minimumTimestamps config.minSampleCount.toInt safeEnd
  else some generated

/-- `for (t = …; t < safe_end; t += gap)`, which counts its rounds. -/
def countFrom (gap safeEnd : Int) : Nat → Int → Int → Option Int
  | 0, _, count => some count
  | rounds + 1, t, count =>
    if t < safeEnd then do countFrom gap safeEnd rounds (← signed 64 (t + gap)) (count + 1)
    else some count

def uncappedCount (gap safeEnd : Int) : Option Int := do
  let count ← countFrom gap safeEnd safeEnd.toNat gap 1
  return castInt (if safeEnd.tmod gap ≠ 0 then count + 1 else count)

/-- `std::sort`, then `std::unique`. -/
def sortUnique (timestamps : List Int) : List Int :=
  (timestamps.insertionSort (· ≤ ·)).destutter (· ≠ ·)

def clampTo (safeEnd t : Int) : Int :=
  let t := if safeEnd < t then safeEnd else t
  if t < 0 then 0 else t

/-- The loop over the neighbours, from the largest difference so far. -/
def largestStep : Int → List Int → Int
  | actual, before :: after :: rest =>
    largestStep (if actual < after - before then after - before else actual) (after :: rest)
  | actual, _ => actual

def actualEffectiveGap (timestamps : List Int) : Int :=
  let actual := largestStep 0 timestamps
  if timestamps.length ≤ 1 && !timestamps.isEmpty then timestamps.headD 0 else actual

/-- The plan with these samples placed, once they are sorted. -/
def OcrSamplingConfig.planOf (config : OcrSamplingConfig) (durationUs : Int64) (placed : List Int)
    (uncapped : Int) : OcrTemporalSamplingResult :=
  let safeEnd := config.safeEnd durationUs
  let gapScaled := (config.effectiveGap safeEnd).2
  let timestamps := (sortUnique placed).map (clampTo safeEnd)
  let actual := actualEffectiveGap timestamps
  let result : OcrTemporalSamplingResult :=
    { timestampsUs := timestamps
      durationUs := durationUs.toInt
      maxSampleGapUs := config.maxSampleGapUs.toInt
      safeEndMarginUs := config.margin
      safeEndUs := safeEnd
      effectiveMaxSampleGapUs := actual
      sampleCount := castInt timestamps.length
      uncappedSampleCount := uncapped
      minSampleCount := config.minSampleCount.toInt
      targetMaxSamples := config.targetMaxSamples.toInt
      gapScaled
      samplingStrategy := config.samplingStrategy
      temporalCoverageNote := config.temporalCoverageNote }
  if gapScaled && config.configuredGap < actual then
    { result with
      sparseCoverage := true
      sparseCoverageReason :=
        "Effective sampling gap (" ++ toString actual ++
        " us) exceeds configured max_sample_gap_us (" ++ toString config.configuredGap ++
        " us) because video duration (" ++ toString durationUs.toInt ++
        " us) with target_max_samples (" ++ toString config.targetMaxSamples.toInt ++
        ") requires a larger gap to bound total samples. " ++
        "Text visible for less than the effective gap may be missed."
      temporalCoverageNote :=
        "Sparse coverage: effective_max_sample_gap_us is " ++ toString actual ++
        ", so text visible for less than that effective gap may be missed." }
  else result

/-- The plan; none where an intermediate value does not fit its type. -/
def computeOcrTemporalTimestamps (durationUs : Int64) (config : OcrSamplingConfig) :
    Option OcrTemporalSamplingResult :=
  if durationUs.toInt ≤ 0 then
    some
      { durationUs := durationUs.toInt
        maxSampleGapUs := config.maxSampleGapUs.toInt
        safeEndMarginUs := config.safeEndMarginUs.toInt
        minSampleCount := config.minSampleCount.toInt
        targetMaxSamples := config.targetMaxSamples.toInt
        samplingStrategy := config.samplingStrategy
        temporalCoverageNote := config.temporalCoverageNote }
  else do
    let safeEnd := config.safeEnd durationUs
    let generated ← generateTimestamps (config.effectiveGap safeEnd).1 safeEnd
    let placed ← placeTimestamps config safeEnd generated
    let uncapped ← uncappedCount config.configuredGap safeEnd
    return config.planOf durationUs placed uncapped

/-! ## The grid -/

/-- The steps of the gap from zero to the end or past it. -/
def gridSteps (gap safeEnd : Int) : Int := (safeEnd + gap - 1) / gap

/-- The first multiple of the gap at the end or past it. -/
def gridEnd (gap safeEnd : Int) : Int := gridSteps gap safeEnd * gap

variable {gap safeEnd t : Int}

theorem gridSteps_past (pos : 0 < gap) (past : safeEnd ≤ t) : gridSteps gap (safeEnd - t) ≤ 0 := by
  rw [gridSteps]
  exact Int.lt_add_one_iff.mp (Int.ediv_lt_of_lt_mul pos (by omega))

theorem gridSteps_before (safeEnd t : Int) (pos : 0 < gap) :
    gridSteps gap (safeEnd - t) = gridSteps gap (safeEnd - (t + gap)) + 1 := by
  rw [gridSteps, gridSteps]
  have shift : safeEnd - t + gap - 1 = (safeEnd - (t + gap) + gap - 1) + 1 * gap := by ring
  rw [shift, Int.add_mul_ediv_right _ _ pos.ne']

theorem gridSteps_pos (pos : 0 < gap) (before : t < safeEnd) : 1 ≤ gridSteps gap (safeEnd - t) := by
  rw [gridSteps]
  exact (Int.le_ediv_iff_mul_le pos).mpr (by omega)

/-- The loop lists the grid from `t` on, as long as its last value fits. -/
theorem gridFrom_eq (pos : 0 < gap) (rounds : Nat) (start : 0 ≤ t)
    (enough : (safeEnd - t).toNat ≤ rounds) :
    gridFrom gap safeEnd rounds t =
      if t < safeEnd ∧ 2 ^ 63 ≤ t + gridEnd gap (safeEnd - t) then none
      else some (List.iterate (· + gap) t (gridSteps gap (safeEnd - t)).toNat) := by
  induction rounds generalizing t with
  | zero =>
    have past : safeEnd ≤ t := by omega
    have none_ : (gridSteps gap (safeEnd - t)).toNat = 0 := Int.toNat_of_nonpos (gridSteps_past pos past)
    rw [if_neg fun h => absurd h.1 (not_lt.mpr past), none_]
    rfl
  | succ rounds ih =>
    rw [gridFrom]
    by_cases before : t < safeEnd
    · rw [if_pos before, signed_of_nonneg (by omega : 0 ≤ t + gap)]
      have steps := gridSteps_before safeEnd t pos
      have more := gridSteps_pos pos before
      have last : t + gridEnd gap (safeEnd - t) =
          t + gap + gridSteps gap (safeEnd - (t + gap)) * gap := by
        rw [gridEnd, steps]
        ring
      have rest : 0 ≤ gridSteps gap (safeEnd - (t + gap)) * gap :=
        mul_nonneg (by omega) pos.le
      have length : (gridSteps gap (safeEnd - t)).toNat =
          (gridSteps gap (safeEnd - (t + gap))).toNat + 1 := by omega
      rw [length, last, List.iterate]
      split_ifs with fits tooFar tooFar
      · have ends : t + gap < safeEnd ∧
            2 ^ 63 ≤ t + gap + gridEnd gap (safeEnd - (t + gap)) := by
          refine ⟨?_, tooFar.2⟩
          by_contra past
          have zero : gridSteps gap (safeEnd - (t + gap)) = 0 :=
            le_antisymm (gridSteps_past pos (not_lt.mp past)) (by omega)
          rw [zero, zero_mul, add_zero] at tooFar
          exact absurd fits (not_lt.mpr tooFar.2)
        rw [Option.bind_eq_bind, Option.bind_some, ih (by omega) (by omega), if_pos ends]
        rfl
      · rw [Option.bind_eq_bind, Option.bind_some, ih (by omega) (by omega),
          if_neg fun h => tooFar ⟨before, h.2⟩]
        rfl
      · rfl
      · exact absurd ⟨before, by omega⟩ tooFar
    · have past : safeEnd ≤ t := not_lt.mp before
      have none_ : (gridSteps gap (safeEnd - t)).toNat = 0 :=
        Int.toNat_of_nonpos (gridSteps_past pos past)
      rw [if_neg before, if_neg fun h => before h.1, none_]
      rfl

/-- The counting loop counts what the other one lists. -/
theorem countFrom_eq (rounds : Nat) (t count : Int) :
    countFrom gap safeEnd rounds t count =
      (gridFrom gap safeEnd rounds t).map fun grid => count + grid.length := by
  induction rounds generalizing t count with
  | zero => simp [countFrom, gridFrom]
  | succ rounds ih =>
    rw [countFrom, gridFrom]
    split
    · cases next : signed 64 (t + gap) with
      | none => rfl
      | some after =>
        simp only [Option.bind_eq_bind, Option.bind_some, ih]
        cases gridFrom gap safeEnd rounds after with
        | none => rfl
        | some rest =>
          simp only [Option.map_some, Option.bind_some, Option.pure_def, List.length_cons]
          refine congrArg some ?_
          push_cast
          ring
    · simp

/-! ## The samples -/

/-- The grid up to the end, and the end. -/
def gridTimestamps (gap safeEnd : Int) : List Int :=
  List.iterate (· + gap) 0 (gridSteps gap safeEnd).toNat ++ [safeEnd]

theorem iterate_add_gap (gap t : Int) (n : Nat) : (· + gap)^[n] t = t + n * gap := by
  rw [add_right_iterate, nsmul_eq_mul]

theorem gridEnd_ge (safeEnd : Int) (pos : 0 < gap) : safeEnd ≤ gridEnd gap safeEnd := by
  have below := Int.lt_ediv_add_one_mul_self (safeEnd + gap - 1) pos
  rw [gridEnd, gridSteps]
  linarith

theorem gridEnd_lt (safeEnd : Int) (pos : 0 < gap) : gridEnd gap safeEnd < safeEnd + gap := by
  have below := Int.ediv_mul_le (safeEnd + gap - 1) pos.ne'
  rw [gridEnd, gridSteps]
  linarith

/-- What stands on the grid below its end is before the end. -/
theorem mem_grid_lt (pos : 0 < gap) (mem : t ∈ List.iterate (· + gap) 0 (gridSteps gap safeEnd).toNat) :
    0 ≤ t ∧ t < safeEnd := by
  obtain ⟨n, lt, rfl⟩ := List.mem_iterate.mp mem
  rw [iterate_add_gap, zero_add]
  have last := gridEnd_lt safeEnd pos
  rw [gridEnd] at last
  have le : (n : Int) + 1 ≤ gridSteps gap safeEnd := by omega
  have prod := mul_le_mul_of_nonneg_right le pos.le
  exact ⟨by positivity, by linarith⟩

theorem gridSteps_video (pos : 0 < gap) (video : 0 < safeEnd) : 1 ≤ gridSteps gap safeEnd := by
  have more := gridSteps_pos pos video
  rwa [Int.sub_zero] at more

/-- Both loops start a gap from zero. -/
theorem gridFrom_gap (pos : 0 < gap) (narrow : gap < 2 ^ 63) (video : 0 < safeEnd) :
    gridFrom gap safeEnd safeEnd.toNat gap =
      if gridEnd gap safeEnd < 2 ^ 63 then
        some (List.iterate (· + gap) gap (gridSteps gap safeEnd - 1).toNat)
      else none := by
  have steps := gridSteps_before safeEnd 0 pos
  rw [Int.sub_zero, Int.zero_add] at steps
  have last : gap + gridEnd gap (safeEnd - gap) = gridEnd gap safeEnd := by
    rw [gridEnd, gridEnd, steps]
    ring
  rw [gridFrom_eq pos _ pos.le (by omega), last]
  split_ifs with tooFar fits fits
  · exact absurd fits (not_lt.mpr tooFar.2)
  · rfl
  · rw [steps, Int.add_sub_cancel]
  · -- a gap past the end fits, so the loop has added to it
    refine absurd ⟨?_, not_lt.mp fits⟩ tooFar
    by_contra wide
    have one : gridSteps gap safeEnd = 1 :=
      le_antisymm (by have := gridSteps_past pos (not_lt.mp wide); omega) (gridSteps_video pos video)
    rw [gridEnd, one, one_mul] at fits
    exact fits narrow

/-- The samples at a gap: none where the first multiple past the end does not fit. -/
theorem generateTimestamps_eq (pos : 0 < gap) (narrow : gap < 2 ^ 63) (video : 0 < safeEnd) :
    generateTimestamps gap safeEnd =
      if gridEnd gap safeEnd < 2 ^ 63 then some (gridTimestamps gap safeEnd) else none := by
  rw [generateTimestamps, gridFrom_gap pos narrow video]
  split
  · have grid : 0 :: List.iterate (· + gap) gap (gridSteps gap safeEnd - 1).toNat =
        List.iterate (· + gap) 0 (gridSteps gap safeEnd).toNat := by
      have more := gridSteps_video pos video
      have length : (gridSteps gap safeEnd).toNat = (gridSteps gap safeEnd - 1).toNat + 1 := by omega
      rw [length, List.iterate, Int.zero_add]
    simp only [Option.bind_eq_bind, Option.bind_some, Option.pure_def, grid]
    have before : (List.iterate (· + gap) 0 (gridSteps gap safeEnd).toNat).getLastD 0 < safeEnd := by
      rcases List.eq_nil_or_concat (List.iterate (· + gap) 0 (gridSteps gap safeEnd).toNat) with
        none_ | ⟨init, final, split⟩
      · rw [none_]
        exact video
      · rw [split, List.concat_eq_append, List.getLastD_concat]
        refine (mem_grid_lt pos ?_).2
        rw [split]
        simp
    rw [if_pos before]
    rfl
  · rfl

theorem length_gridTimestamps (pos : 0 < gap) (video : 0 < safeEnd) :
    ((gridTimestamps gap safeEnd).length : Int) = gridSteps gap safeEnd + 1 := by
  have more := gridSteps_video pos video
  rw [gridTimestamps, List.length_append, List.length_iterate, List.length_singleton]
  omega

/-- Neighbours on the grid are apart by at most the gap. -/
theorem gridTimestamps_isChain (pos : 0 < gap) (video : 0 < safeEnd) :
    (gridTimestamps gap safeEnd).IsChain fun a b => a < b ∧ b - a ≤ gap := by
  have ends : ∀ (n : Nat) (t : Int), t + n * gap < safeEnd → safeEnd ≤ t + (n + 1) * gap →
      (List.iterate (· + gap) t (n + 1) ++ [safeEnd]).IsChain fun a b => a < b ∧ b - a ≤ gap := by
    intro n
    induction n with
    | zero =>
      intro t before near
      simp only [Nat.cast_zero, zero_mul, zero_add, one_mul] at before near
      exact .cons_cons ⟨by linarith, by linarith⟩ (.singleton _)
    | succ n ih =>
      intro t before near
      push_cast at before near
      refine .cons_cons ⟨lt_add_of_pos_right t pos, by simp⟩ (ih (t + gap) ?_ ?_)
      · linarith
      · linarith
  have more := gridSteps_video pos video
  obtain ⟨n, steps⟩ : ∃ n : Nat, gridSteps gap safeEnd = n + 1 :=
    ⟨(gridSteps gap safeEnd - 1).toNat, by omega⟩
  have before := gridEnd_lt safeEnd pos
  have near := gridEnd_ge safeEnd pos
  rw [gridEnd, steps] at before near
  rw [gridTimestamps, steps]
  exact ends n 0 (by linarith) (by linarith)

/-- The count of the samples at a gap leaves the end out when it is on the grid. -/
theorem uncappedCount_eq (pos : 0 < gap) (narrow : gap < 2 ^ 63) (video : 0 < safeEnd) :
    uncappedCount gap safeEnd =
      if gridEnd gap safeEnd < 2 ^ 63 then
        some (castInt (gridSteps gap safeEnd + if safeEnd % gap ≠ 0 then 1 else 0))
      else none := by
  have more := gridSteps_video pos video
  rw [uncappedCount, countFrom_eq, gridFrom_gap pos narrow video,
    Int.tmod_eq_emod_of_nonneg video.le]
  split
  · have count : (1 : Int) + ((gridSteps gap safeEnd - 1).toNat : Int) = gridSteps gap safeEnd := by
      omega
    simp only [Option.map_some, Option.bind_eq_bind, Option.bind_some, Option.pure_def,
      List.length_iterate, count]
    split
    · rfl
    · rw [add_zero]
  · rfl

/-- A larger gap takes no more steps. -/
theorem gridSteps_anti {gap' : Int} (pos : 0 < gap) (le : gap ≤ gap') (video : 0 < safeEnd) :
    gridSteps gap' safeEnd ≤ gridSteps gap safeEnd := by
  have near := gridEnd_ge safeEnd pos
  have more := gridSteps_video pos video
  rw [gridEnd] at near
  have wider : gridSteps gap safeEnd * gap ≤ gridSteps gap safeEnd * gap' :=
    mul_le_mul_of_nonneg_left le (by omega)
  rw [gridSteps.eq_def gap']
  refine Int.lt_add_one_iff.mp (Int.ediv_lt_of_lt_mul (pos.trans_le le) ?_)
  rw [add_mul, one_mul]
  linarith

/-! ## The minimum-count rule -/

/-- The middle of the part of that index. -/
def partMiddle (count safeEnd : Int) (i : Nat) : Int := safeEnd * (2 * i + 1) / (2 * count)

theorem mapM_isSome {α β : Type} {f : α → Option β} {l : List α} {l' : List β}
    (done : l.mapM f = some l') {a : α} (mem : a ∈ l) : (f a).isSome := by
  induction l generalizing l' with
  | nil => cases mem
  | cons first rest ih =>
    rw [List.mapM_cons] at done
    cases here : f first with
    | none => simp [here] at done
    | some b =>
      cases others : rest.mapM f with
      | none => simp [here, others] at done
      | some l'' =>
        rcases List.mem_cons.mp mem with rfl | mem
        · rw [here]
          rfl
        · exact ih others mem

/-- The rule is defined while its largest products fit. -/
theorem minimumTimestamps_eq {count : Int} (pos : 0 < count) (video : 0 < safeEnd) :
    minimumTimestamps count safeEnd =
      if 2 * count < 2 ^ 31 ∧ safeEnd * (2 * count - 1) < 2 ^ 63 then
        some ((List.range count.toNat).map (partMiddle count safeEnd))
      else none := by
  rw [minimumTimestamps]
  split
  · next fits =>
    refine Exec.mapM_eq_pure fun i mem => ?_
    have lt : (i : Int) + 1 ≤ count := by
      have := List.mem_range.mp mem
      omega
    have product : safeEnd * (2 * i + 1) ≤ safeEnd * (2 * count - 1) :=
      mul_le_mul_of_nonneg_left (by omega) video.le
    have nonneg : 0 ≤ safeEnd * (2 * (i : Int) + 1) := by positivity
    rw [minimumTimestamp, signed_of_nonneg (by omega), if_pos (by omega)]
    simp only [Option.bind_eq_bind, Option.bind_some, Option.pure_def]
    rw [signed_of_nonneg nonneg, if_pos (product.trans_lt fits.2), signed_of_nonneg (by omega),
      if_pos fits.1]
    simp only [Option.bind_some, Int.tdiv_eq_ediv_of_nonneg nonneg, partMiddle]
  · next tooLarge =>
    -- the last sample has the largest product
    cases done : (List.range count.toNat).mapM (minimumTimestamp count safeEnd) with
    | none => rfl
    | some l =>
      refine absurd ?_ tooLarge
      have last := mapM_isSome done (a := count.toNat - 1) (List.mem_range.mpr (by omega))
      have index : ((count.toNat - 1 : Nat) : Int) = count - 1 := by omega
      have odd : 2 * (count - 1) + 1 = 2 * count - 1 := by ring
      have nonneg : 0 ≤ safeEnd * (2 * count - 1) := mul_nonneg video.le (by omega)
      rw [minimumTimestamp, index, odd, signed_of_nonneg (by omega)] at last
      split at last
      · simp only [Option.bind_eq_bind, Option.bind_some] at last
        rw [signed_of_nonneg nonneg] at last
        split at last
        · next product =>
          simp only [Option.bind_some] at last
          rw [signed_of_nonneg (by omega)] at last
          split at last
          · next divisor => exact ⟨divisor, product⟩
          · cases last
        · cases last
      · cases last

/-- The samples are inside the video. -/
theorem partMiddle_mem {count : Int} {i : Nat} (lt : (i : Int) < count) (video : 0 < safeEnd) :
    0 ≤ partMiddle count safeEnd i ∧ partMiddle count safeEnd i ≤ safeEnd := by
  have parts : (0 : Int) < 2 * count := by omega
  rw [partMiddle]
  refine ⟨Int.ediv_nonneg (by positivity) parts.le, ?_⟩
  refine Int.ediv_le_of_le_mul parts ?_
  exact mul_le_mul_of_nonneg_left (by omega) video.le

/-- Where the first and the last sample of three or more are the same, they are at zero. -/
theorem partMiddle_same {count : Int} (three : 3 ≤ count) (video : 0 < safeEnd)
    (same : partMiddle count safeEnd 0 = partMiddle count safeEnd (count.toNat - 1)) :
    partMiddle count safeEnd 0 = 0 := by
  have parts : (0 : Int) < 2 * count := by omega
  have index : ((count.toNat - 1 : Nat) : Int) = count - 1 := by omega
  have first := Int.ediv_mul_le (safeEnd * (2 * ((0 : Nat) : Int) + 1)) parts.ne'
  have last := Int.lt_ediv_add_one_mul_self (safeEnd * (2 * (count - 1) + 1)) parts
  have firstIs : safeEnd * (2 * ((0 : Nat) : Int) + 1) / (2 * count) = partMiddle count safeEnd 0 := rfl
  have lastIs : safeEnd * (2 * (count - 1) + 1) / (2 * count) = partMiddle count safeEnd 0 := by
    rw [same, partMiddle, index]
  rw [firstIs] at first
  rw [lastIs] at last
  have short : safeEnd = 1 := by
    by_contra long
    have two : 2 ≤ safeEnd := by omega
    have product := mul_le_mul_of_nonneg_right two (by omega : 0 ≤ 2 * count - 2)
    push_cast at first
    linarith
  rw [partMiddle, short]
  refine Int.ediv_eq_zero_of_lt (by norm_num) ?_
  push_cast
  omega

/-! ## Sorting and gaps -/

theorem sortUnique_eq_dedup (l : List Int) :
    sortUnique l = (l.insertionSort (· ≤ ·)).dedup :=
  (List.pairwise_insertionSort (· ≤ ·) l).destutter_eq_dedup

theorem mem_sortUnique {l : List Int} : t ∈ sortUnique l ↔ t ∈ l := by
  rw [sortUnique_eq_dedup, List.mem_dedup, List.mem_insertionSort]

theorem sortUnique_increasing (l : List Int) : (sortUnique l).Pairwise (· < ·) := by
  rw [sortUnique_eq_dedup]
  have sorted := (List.pairwise_insertionSort (· ≤ ·) l).sublist (List.dedup_sublist _)
  exact (sorted.and (List.nodup_dedup _)).imp fun both => lt_of_le_of_ne both.1 both.2

theorem sortUnique_of_increasing {l : List Int} (increasing : l.Pairwise (· < ·)) :
    sortUnique l = l := by
  have sorted : l.Pairwise (· ≤ ·) := increasing.imp fun lt => lt.le
  rw [sortUnique_eq_dedup, sorted.insertionSort_eq]
  exact List.dedup_eq_self.mpr (increasing.imp fun lt => lt.ne)

/-- No two neighbours are further apart than the gap, and some are so far. -/
def IsLargestGap (timestamps : List Int) (gap : Int) : Prop :=
  timestamps.IsChain (fun before after => after - before ≤ gap) ∧
    if timestamps.length ≤ 1 then gap = 0
    else ∃ before after, [before, after] <:+: timestamps ∧ after - before = gap

/-- The loop ends at the largest of the differences and what it started from. -/
theorem largestStep_spec (actual : Int) (l : List Int) :
    actual ≤ largestStep actual l ∧
      l.IsChain (fun before after => after - before ≤ largestStep actual l) ∧
      (largestStep actual l = actual ∨
        ∃ before after, [before, after] <:+: l ∧ after - before = largestStep actual l) := by
  induction l generalizing actual with
  | nil => exact ⟨le_rfl, .nil, .inl rfl⟩
  | cons before rest ih =>
    cases rest with
    | nil => exact ⟨le_rfl, .singleton _, .inl rfl⟩
    | cons after more =>
      rw [largestStep]
      obtain ⟨least, chain, attained⟩ :=
        ih (if actual < after - before then after - before else actual)
      generalize largestStep (if actual < after - before then after - before else actual)
        (after :: more) = largest at least chain attained
      have both : actual ≤ largest ∧ after - before ≤ largest := by
        split at least <;> omega
      refine ⟨both.1, .cons_cons both.2 chain, ?_⟩
      rcases attained with here | ⟨a, b, within, difference⟩
      · split at here
        · exact .inr ⟨before, after, ⟨[], more, rfl⟩, here.symm⟩
        · exact .inl here
      · exact .inr ⟨a, b, within.trans (List.suffix_cons before _).isInfix, difference⟩

/-- Increasing timestamps have the gap the loop finds; a single one does when it is zero. -/
theorem isLargestGap_actualEffectiveGap {l : List Int} (increasing : l.Pairwise (· < ·))
    (alone : l.length ≤ 1 → l.headD 0 = 0) : IsLargestGap l (actualEffectiveGap l) := by
  obtain ⟨-, chain, attained⟩ := largestStep_spec 0 l
  rw [actualEffectiveGap]
  match l, alone, increasing, chain, attained with
  | [], _, _, _, _ => exact ⟨.nil, rfl⟩
  | [only], alone, _, _, _ => exact ⟨.singleton _, alone le_rfl⟩
  | first :: second :: rest, _, increasing, chain, attained =>
    refine ⟨chain, ?_⟩
    rw [if_neg (by simp)]
    rcases attained with zero | found
    · have step := (List.isChain_cons_cons.mp chain).1
      have lt := (List.pairwise_cons.mp increasing).1 second List.mem_cons_self
      rw [zero] at step
      omega
    · exact found

/-! ## The plan -/

/-- The samples before the minimum-count rule, and whether it replaces them. -/
def Replaced (durationUs : Int64) (config : OcrSamplingConfig) : Prop :=
  ∃ generated, generateTimestamps (config.effectiveGap (config.safeEnd durationUs)).1
    (config.safeEnd durationUs) = some generated ∧ tooFew config generated = true

/-- The configuration without scaling and without the minimum-count rule. -/
def OcrSamplingConfig.plain (config : OcrSamplingConfig) : OcrSamplingConfig :=
  { config with targetMaxSamples := 0, minSampleCount := 0 }

/-- The plan is computed and is what it is documented to be. -/
structure ExactPlan (durationUs : Int64) (config : OcrSamplingConfig)
    (result plain : OcrTemporalSamplingResult) : Prop where
  computed : computeOcrTemporalTimestamps durationUs config = some result
  computedPlain : computeOcrTemporalTimestamps durationUs config.plain = some plain
  increasing : result.timestampsUs.Pairwise (· < ·)
  inside : ∀ t ∈ result.timestampsUs, 0 ≤ t ∧ t ≤ result.safeEndUs
  covers : ¬ Replaced durationUs config →
    0 ∈ result.timestampsUs ∧ result.safeEndUs ∈ result.timestampsUs ∧
      result.timestampsUs.IsChain fun before after => after - before ≤
        max config.maxSampleGapUs.toInt (result.safeEndUs / config.targetMaxSamples.toInt)
  effective : IsLargestGap result.timestampsUs result.effectiveMaxSampleGapUs
  /-- The uncapped count is the number of samples of the plain plan. -/
  uncapped : result.uncappedSampleCount = plain.timestampsUs.length

/-- The safe end is no multiple of the configured gap, and what is counted fits. -/
structure PlanFits (durationUs : Int64) (config : OcrSamplingConfig) : Prop where
  offGrid : config.safeEnd durationUs % config.configuredGap ≠ 0
  counted : gridSteps config.configuredGap (config.safeEnd durationUs) + 1 < 2 ^ 31
  configured : gridEnd config.configuredGap (config.safeEnd durationUs) < 2 ^ 63
  scaled : gridEnd (config.effectiveGap (config.safeEnd durationUs)).1
    (config.safeEnd durationUs) < 2 ^ 63
  /-- The products of the minimum-count rule, where it applies. -/
  minimum : gridSteps (config.effectiveGap (config.safeEnd durationUs)).1
      (config.safeEnd durationUs) + 1 < config.minSampleCount.toInt →
    2 * config.minSampleCount.toInt < 2 ^ 31 ∧
      config.safeEnd durationUs * (2 * config.minSampleCount.toInt - 1) < 2 ^ 63

section
variable (config : OcrSamplingConfig) (durationUs : Int64) (placed : List Int) (uncapped : Int)

@[simp] theorem timestampsUs_planOf : (config.planOf durationUs placed uncapped).timestampsUs =
    (sortUnique placed).map (clampTo (config.safeEnd durationUs)) := by
  rw [OcrSamplingConfig.planOf]
  split <;> rfl

@[simp] theorem safeEndUs_planOf :
    (config.planOf durationUs placed uncapped).safeEndUs = config.safeEnd durationUs := by
  rw [OcrSamplingConfig.planOf]
  split <;> rfl

@[simp] theorem effectiveMaxSampleGapUs_planOf :
    (config.planOf durationUs placed uncapped).effectiveMaxSampleGapUs =
      actualEffectiveGap ((sortUnique placed).map (clampTo (config.safeEnd durationUs))) := by
  rw [OcrSamplingConfig.planOf]
  split <;> rfl

@[simp] theorem uncappedSampleCount_planOf :
    (config.planOf durationUs placed uncapped).uncappedSampleCount = uncapped := by
  rw [OcrSamplingConfig.planOf]
  split <;> rfl

end

variable {durationUs : Int64} {config : OcrSamplingConfig} {result plain : OcrTemporalSamplingResult}

theorem safeEnd_pos (config : OcrSamplingConfig) (video : 0 < durationUs.toInt) : 0 < config.safeEnd durationUs := by
  rw [OcrSamplingConfig.safeEnd]
  split
  · next inside => omega
  · exact video

theorem configuredGap_pos (config : OcrSamplingConfig) : 0 < config.configuredGap := by
  rw [OcrSamplingConfig.configuredGap]
  split
  · next pos => exact pos
  · decide

theorem configuredGap_lt (config : OcrSamplingConfig) : config.configuredGap < 2 ^ 63 := by
  rw [OcrSamplingConfig.configuredGap]
  split
  · exact Int64.toInt_lt _
  · decide

theorem effectiveGap_ge (config : OcrSamplingConfig) (safeEnd : Int) :
    config.configuredGap ≤ (config.effectiveGap safeEnd).1 := by
  rw [OcrSamplingConfig.effectiveGap]
  split
  · simp only
    split
    · next scaled => exact scaled.le
    · exact le_rfl
  · exact le_rfl

theorem safeEnd_lt (config : OcrSamplingConfig) (video : 0 < durationUs.toInt) : config.safeEnd durationUs < 2 ^ 63 := by
  have narrow := Int64.toInt_lt durationUs
  have margin : 0 < config.margin := by
    rw [OcrSamplingConfig.margin]
    split
    · next pos => exact pos
    · decide
  rw [OcrSamplingConfig.safeEnd]
  split <;> omega

/-- The gap is the configured one, or what the target asks for. -/
theorem effectiveGap_eq (target : 0 < config.targetMaxSamples.toInt) {safeEnd : Int}
    (video : 0 < safeEnd) : (config.effectiveGap safeEnd).1 =
      max config.configuredGap (safeEnd / config.targetMaxSamples.toInt) := by
  rw [OcrSamplingConfig.effectiveGap, if_pos target, Int.tdiv_eq_ediv_of_nonneg video.le]
  simp only
  split
  · next scaled => exact (max_eq_right scaled.le).symm
  · next unscaled => exact (max_eq_left (not_lt.mp unscaled)).symm

theorem effectiveGap_lt (config : OcrSamplingConfig) (target : 0 < config.targetMaxSamples.toInt)
    (video : 0 < durationUs.toInt) :
    (config.effectiveGap (config.safeEnd durationUs)).1 < 2 ^ 63 := by
  rw [effectiveGap_eq target (safeEnd_pos config video)]
  refine max_lt (configuredGap_lt config) (lt_of_le_of_lt ?_ (safeEnd_lt config video))
  exact Int.ediv_le_self _ (safeEnd_pos config video).le

theorem map_clampTo {l : List Int} (inside : ∀ t ∈ l, 0 ≤ t ∧ t ≤ safeEnd) :
    l.map (clampTo safeEnd) = l := by
  refine (List.map_congr_left fun t mem => ?_).trans (List.map_id l)
  obtain ⟨nonneg, le⟩ := inside t mem
  rw [clampTo, if_neg (not_lt.mpr le)]
  exact if_neg (not_lt.mpr nonneg)

/-- A plan is computed when each of its three parts is. -/
theorem compute_eq_some (video : 0 < durationUs.toInt) :
    computeOcrTemporalTimestamps durationUs config = some result ↔
      ∃ generated placed uncapped,
        generateTimestamps (config.effectiveGap (config.safeEnd durationUs)).1
          (config.safeEnd durationUs) = some generated ∧
        placeTimestamps config (config.safeEnd durationUs) generated = some placed ∧
        uncappedCount config.configuredGap (config.safeEnd durationUs) = some uncapped ∧
        config.planOf durationUs placed uncapped = result := by
  rw [computeOcrTemporalTimestamps, if_neg (not_le.mpr video)]
  simp only [Option.bind_eq_bind, Option.bind_eq_some_iff, Option.pure_def, Option.some.injEq]
  constructor
  · rintro ⟨generated, isGenerated, placed, isPlaced, uncapped, isUncapped, rfl⟩
    exact ⟨generated, placed, uncapped, isGenerated, isPlaced, isUncapped, rfl⟩
  · rintro ⟨generated, placed, uncapped, isGenerated, isPlaced, isUncapped, rfl⟩
    exact ⟨generated, isGenerated, placed, isPlaced, uncapped, isUncapped, rfl⟩

theorem gridTimestamps_increasing (pos : 0 < gap) (video : 0 < safeEnd) :
    (gridTimestamps gap safeEnd).Pairwise (· < ·) :=
  List.isChain_iff_pairwise.mp ((gridTimestamps_isChain pos video).imp fun _ _ both => both.1)

theorem gridTimestamps_inside (pos : 0 < gap) (video : 0 < safeEnd) :
    ∀ t ∈ gridTimestamps gap safeEnd, 0 ≤ t ∧ t ≤ safeEnd := by
  intro t mem
  rcases List.mem_append.mp mem with mem | mem
  · have inside := mem_grid_lt pos mem
    exact ⟨inside.1, inside.2.le⟩
  · rw [List.mem_singleton.mp mem]
    exact ⟨video.le, le_rfl⟩

/-- The samples of the grid are placed as they are. -/
theorem sortUnique_grid (pos : 0 < gap) (video : 0 < safeEnd) :
    (sortUnique (gridTimestamps gap safeEnd)).map (clampTo safeEnd) = gridTimestamps gap safeEnd := by
  rw [sortUnique_of_increasing (gridTimestamps_increasing pos video)]
  exact map_clampTo (gridTimestamps_inside pos video)

/-- The plain plan has the samples of the configured gap. -/
theorem compute_plain (config : OcrSamplingConfig) (video : 0 < durationUs.toInt) :
    computeOcrTemporalTimestamps durationUs config.plain = some plain ↔
      gridEnd config.configuredGap (config.safeEnd durationUs) < 2 ^ 63 ∧
        config.plain.planOf durationUs
          (gridTimestamps config.configuredGap (config.safeEnd durationUs))
          (castInt (gridSteps config.configuredGap (config.safeEnd durationUs) +
            if config.safeEnd durationUs % config.configuredGap ≠ 0 then 1 else 0)) = plain := by
  have pos := configuredGap_pos config
  have narrow := configuredGap_lt config
  have end_ := safeEnd_pos config video
  rw [compute_eq_some video]
  have gap : (config.plain.effectiveGap (config.plain.safeEnd durationUs)).1 =
      config.configuredGap := rfl
  have kept : ∀ safeEnd generated, placeTimestamps config.plain safeEnd generated = some generated :=
    fun safeEnd generated => if_neg (by simp [tooFew, OcrSamplingConfig.plain])
  rw [gap]
  change (∃ generated placed uncapped,
    generateTimestamps config.configuredGap (config.safeEnd durationUs) = some generated ∧ _ ∧
      uncappedCount config.configuredGap (config.safeEnd durationUs) = some uncapped ∧ _) ↔ _
  rw [generateTimestamps_eq pos narrow end_, uncappedCount_eq pos narrow end_]
  simp only [kept]
  split
  · next fits =>
    constructor
    · rintro ⟨generated, placed, uncapped, ⟨⟩, ⟨⟩, ⟨⟩, rfl⟩
      exact ⟨fits, rfl⟩
    · rintro ⟨-, rfl⟩
      exact ⟨_, _, _, rfl, rfl, rfl, rfl⟩
  · next tooFar =>
    constructor
    · rintro ⟨generated, placed, uncapped, impossible, -⟩
      cases impossible
    · rintro ⟨fits, -⟩
      exact absurd fits tooFar

theorem timestampsUs_plain (video : 0 < durationUs.toInt)
    (computed : computeOcrTemporalTimestamps durationUs config.plain = some plain) :
    (plain.timestampsUs.length : Int) =
      gridSteps config.configuredGap (config.safeEnd durationUs) + 1 := by
  obtain ⟨-, rfl⟩ := (compute_plain config video).mp computed
  rw [timestampsUs_planOf]
  have pos := configuredGap_pos config
  have end_ := safeEnd_pos config video
  have placed := sortUnique_grid pos end_
  change ((((sortUnique (gridTimestamps config.configuredGap (config.safeEnd durationUs))).map
    (clampTo (config.safeEnd durationUs))).length : Nat) : Int) = _
  rw [placed, length_gridTimestamps pos end_]

/-- Where the counts fit, the rule applies to a plan of too few steps. -/
theorem tooFew_grid (video : 0 < durationUs.toInt)
    (counted : gridSteps config.configuredGap (config.safeEnd durationUs) + 1 < 2 ^ 31) :
    tooFew config (gridTimestamps (config.effectiveGap (config.safeEnd durationUs)).1
        (config.safeEnd durationUs)) = true ↔
      gridSteps (config.effectiveGap (config.safeEnd durationUs)).1
        (config.safeEnd durationUs) + 1 < config.minSampleCount.toInt := by
  have end_ := safeEnd_pos config video
  have wider := effectiveGap_ge config (config.safeEnd durationUs)
  have pos := (configuredGap_pos config).trans_le wider
  have fewer := gridSteps_anti (configuredGap_pos config) wider end_
  have more := gridSteps_video pos end_
  rw [tooFew, length_gridTimestamps pos end_, castInt_of_lt (by omega) (by omega)]
  simp only [Bool.and_eq_true, decide_eq_true_eq]
  omega

/-- Where the counts fit, samples are placed inside the video, a single one at zero. -/
theorem exists_placed (video : 0 < durationUs.toInt) (fits : PlanFits durationUs config) :
    ∃ placed, placeTimestamps config (config.safeEnd durationUs)
        (gridTimestamps (config.effectiveGap (config.safeEnd durationUs)).1
          (config.safeEnd durationUs)) = some placed ∧
      (∀ t ∈ placed, 0 ≤ t ∧ t ≤ config.safeEnd durationUs) ∧
      ((sortUnique placed).length ≤ 1 → (sortUnique placed).headD 0 = 0) := by
  have end_ := safeEnd_pos config video
  have pos := (configuredGap_pos config).trans_le (effectiveGap_ge config (config.safeEnd durationUs))
  have more := gridSteps_video pos end_
  rw [placeTimestamps]
  split
  · next replaced =>
    have few := (tooFew_grid video fits.counted).mp replaced
    have three : 3 ≤ config.minSampleCount.toInt := by omega
    have middle : ∀ i < config.minSampleCount.toInt.toNat,
        partMiddle config.minSampleCount.toInt (config.safeEnd durationUs) i ∈
          (List.range config.minSampleCount.toInt.toNat).map
            (partMiddle config.minSampleCount.toInt (config.safeEnd durationUs)) :=
      fun i lt => List.mem_map_of_mem (List.mem_range.mpr lt)
    refine ⟨_, (minimumTimestamps_eq (by omega) end_).trans (if_pos (fits.minimum few)), ?_, ?_⟩
    · intro t mem
      obtain ⟨i, lt, rfl⟩ := List.mem_map.mp mem
      exact partMiddle_mem (by have := List.mem_range.mp lt; omega) end_
    · intro single
      have first := mem_sortUnique.mpr (middle 0 (by omega))
      have last := mem_sortUnique.mpr (middle (config.minSampleCount.toInt.toNat - 1) (by omega))
      match sortUnique _, first, last, single with
      | [only], first, last, _ =>
        have atFirst := List.mem_singleton.mp first
        have atLast := List.mem_singleton.mp last
        exact atFirst.symm.trans (partMiddle_same three end_ (atFirst.trans atLast.symm))
      | _ :: _ :: _, _, _, single => exact absurd single (by simp)
  · refine ⟨_, rfl, gridTimestamps_inside pos end_, fun single => ?_⟩
    rw [sortUnique_of_increasing (gridTimestamps_increasing pos end_)] at single
    have length := length_gridTimestamps pos end_
    omega

/-- For every positive duration and every configuration with a positive gap and a target,
the plan is exact exactly when the safe end is off the grid of the configured gap and the
counts fit their types. -/
theorem ocrPlan_exact_iff (durationUs : Int64) (config : OcrSamplingConfig)
    (video : 0 < durationUs.toInt) (gap : 0 < config.maxSampleGapUs.toInt)
    (target : 0 < config.targetMaxSamples.toInt) :
    (∃ result plain, ExactPlan durationUs config result plain) ↔ PlanFits durationUs config := by
  have end_ := safeEnd_pos config video
  have pos := configuredGap_pos config
  have narrow := configuredGap_lt config
  have pos' := pos.trans_le (effectiveGap_ge config (config.safeEnd durationUs))
  have narrow' := effectiveGap_lt config target video
  have more := gridSteps_video pos end_
  constructor
  · rintro ⟨result, plain, exact_⟩
    obtain ⟨generated, placed, uncapped, isGenerated, isPlaced, isUncapped, rfl⟩ :=
      (compute_eq_some video).mp exact_.computed
    have uncapped_eq := exact_.uncapped
    rw [uncappedSampleCount_planOf, timestampsUs_plain video exact_.computedPlain] at uncapped_eq
    rw [uncappedCount_eq pos narrow end_] at isUncapped
    rw [generateTimestamps_eq pos' narrow' end_] at isGenerated
    split at isUncapped
    case isFalse => cases isUncapped
    next configured =>
      split at isGenerated
      case isFalse => cases isGenerated
      next scaled =>
        obtain rfl := Option.some.inj isGenerated
        have counts := (Option.some.inj isUncapped).trans uncapped_eq
        have offGrid : config.safeEnd durationUs % config.configuredGap ≠ 0 := by
          intro onGrid
          rw [if_neg (not_not.mpr onGrid), add_zero] at counts
          have := castInt_le (gridSteps config.configuredGap (config.safeEnd durationUs))
            (by omega)
          omega
        have counted : gridSteps config.configuredGap (config.safeEnd durationUs) + 1 < 2 ^ 31 := by
          rw [← counts]
          exact castInt_lt _
        refine ⟨offGrid, counted, configured, scaled, fun few => ?_⟩
        rw [placeTimestamps, if_pos ((tooFew_grid video counted).mpr few)] at isPlaced
        have steps := gridSteps_video pos' end_
        rw [minimumTimestamps_eq (by omega) end_] at isPlaced
        split at isPlaced
        · next fits => exact fits
        · cases isPlaced
  · intro fits
    have generated := (generateTimestamps_eq pos' narrow' end_).trans (if_pos fits.scaled)
    have uncapped := (uncappedCount_eq pos narrow end_).trans (if_pos fits.configured)
    rw [if_pos fits.offGrid, castInt_of_lt (by omega) fits.counted] at uncapped
    obtain ⟨placed, isPlaced, inside, alone⟩ := exists_placed video fits
    have plainDone := (compute_plain config video).mpr ⟨fits.configured, rfl⟩
    have timestamps : (sortUnique placed).map (clampTo (config.safeEnd durationUs)) =
        sortUnique placed := map_clampTo fun t mem => inside t (mem_sortUnique.mp mem)
    refine ⟨_, _, (compute_eq_some video).mpr ⟨_, placed, _, generated, isPlaced, uncapped, rfl⟩,
      plainDone, ?_, ?_, ?_, ?_, ?_⟩
    · rw [timestampsUs_planOf, timestamps]
      exact sortUnique_increasing placed
    · rw [timestampsUs_planOf, timestamps, safeEndUs_planOf]
      exact fun t mem => inside t (mem_sortUnique.mp mem)
    · intro kept
      -- the rule left the grid as it was
      have same : placed = gridTimestamps (config.effectiveGap (config.safeEnd durationUs)).1
          (config.safeEnd durationUs) := by
        rw [placeTimestamps, if_neg fun few => kept ⟨_, generated, few⟩] at isPlaced
        exact (Option.some.inj isPlaced).symm
      have configuredIs : config.configuredGap = config.maxSampleGapUs.toInt := if_pos gap
      have chain := gridTimestamps_isChain pos' end_
      have steps := gridSteps_video pos' end_
      rw [timestampsUs_planOf, safeEndUs_planOf, timestamps, same,
        sortUnique_of_increasing (gridTimestamps_increasing pos' end_), ← configuredIs,
        ← effectiveGap_eq target end_]
      refine ⟨List.mem_append_left _ (List.mem_iterate.mpr ⟨0, by omega, rfl⟩),
        List.mem_append_right _ List.mem_cons_self, chain.imp fun _ _ both => both.2⟩
    · rw [timestampsUs_planOf, effectiveMaxSampleGapUs_planOf, timestamps]
      exact isLargestGap_actualEffectiveGap (sortUnique_increasing placed) alone
    · rw [uncappedSampleCount_planOf, timestampsUs_plain video plainDone]

/-- A plan off the grid: samples every second of ten and a half. -/
theorem ocrPlan_exact_short :
    ∃ result plain, ExactPlan 10_600_000 {} result plain :=
  (ocrPlan_exact_iff 10_600_000 {} (by decide) (by decide) (by decide)).mpr
    ⟨by decide, by decide, by decide, by decide, fun few => absurd few (by decide)⟩

/-- With a video that ends on the grid the uncapped count is one short of the samples. -/
theorem uncappedCount_onGrid :
    (computeOcrTemporalTimestamps 3_100_000 {}).map
        (fun result => (result.timestampsUs, result.uncappedSampleCount)) =
        some ([0, 1_000_000, 2_000_000, 3_000_000], 3) ∧
      ¬ ∃ result plain, ExactPlan 3_100_000 {} result plain := by
  have planned : (computeOcrTemporalTimestamps 3_100_000 {}).map
      (fun result => (result.timestampsUs, result.uncappedSampleCount)) =
      some ([0, 1_000_000, 2_000_000, 3_000_000], 3) := by decide
  have plainly : (computeOcrTemporalTimestamps 3_100_000 ({} : OcrSamplingConfig).plain).map
      (fun plain => plain.timestampsUs.length) = some 4 := by decide
  refine ⟨planned, ?_⟩
  rintro ⟨result, plain, exact_⟩
  rw [exact_.computed] at planned
  rw [exact_.computedPlain] at plainly
  have count := congrArg Prod.snd (Option.some.inj planned)
  have length : plain.timestampsUs.length = 4 := Option.some.inj plainly
  have same := exact_.uncapped
  rw [length] at same
  simp only at count
  omega

end Svp.Vision

import Svp.Lib.Outcome
import Svp.Vision.EntityWindows

/-!
# Tracking windows and their samples

`makeVisualEntitySamplingPlan` cuts a duration into windows that overlap, each with its
own grid of timestamps. The fold emits from a window what lies after the end of the
window before. A plan is uniform (`UniformPlan`) when what is emitted is one grid over the
whole duration. It is whenever the ends of the windows fit an `int64`:
`samplingPlan_uniform_iff`.
-/

namespace Svp.Vision

open Lib (Outcome Fits signed)
open Lib.Outcome

/-! ## The program -/

structure VisualEntitySamplingOptions where
  sampleIntervalUs : Int64
  windowDurationUs : Int64
  windowOverlapUs : Int64

/-- Options that passed `validate_options`. -/
structure ValidSampling where
  interval : Int
  window : Int
  overlap : Int
  interval_pos : 0 < interval
  interval_le : interval ≤ overlap
  overlap_lt : overlap < window
  window_fits : window < 2 ^ 63

def validateOptions (options : VisualEntitySamplingOptions) : Outcome ValidSampling :=
  if h : options.sampleIntervalUs.toInt ≤ 0 then
    thrown "visual entity sample interval must be positive"
  else if options.windowDurationUs.toInt < options.sampleIntervalUs.toInt then
    thrown "visual entity window must contain at least one sample interval"
  else if h' : options.windowOverlapUs.toInt < options.sampleIntervalUs.toInt ∨
      options.windowDurationUs.toInt ≤ options.windowOverlapUs.toInt then
    thrown ("visual entity window overlap must include at least one sample " ++
      "interval and remain shorter than the window")
  else returned
    { interval := options.sampleIntervalUs.toInt
      window := options.windowDurationUs.toInt
      overlap := options.windowOverlapUs.toInt
      interval_pos := not_le.mp h
      interval_le := not_lt.mp (not_or.mp h').1
      overlap_lt := not_le.mp (not_or.mp h').2
      window_fits := options.windowDurationUs.toInt_lt }

/-- The difference of two times in order, and of the two durations, always fits. -/
def ValidSampling.advance (o : ValidSampling) : Int := o.window - o.overlap

theorem ValidSampling.advance_pos (o : ValidSampling) : 0 < o.advance :=
  sub_pos.mpr o.overlap_lt

/-- The loop of `timestamps_for_window` from a timestamp on. -/
def timestampsFrom (o : ValidSampling) (endUs timestampUs : Int) : Outcome (List Int) :=
  if timestampUs ≤ endUs then
    if Fits 64 (endUs - timestampUs) then
      if endUs - timestampUs < o.interval then returned [timestampUs]
      else if Fits 64 (timestampUs + o.interval) then do
        let later ← timestampsFrom o endUs (timestampUs + o.interval)
        return timestampUs :: later
      else overflowed
    else overflowed
  else returned []
termination_by (endUs - timestampUs + 1).toNat
decreasing_by
  have := o.interval_pos
  omega

/-- The loop over the windows from a start on. -/
def windowsFrom (o : ValidSampling) (durationUs startUs : Int) :
    Outcome (List VisualEntitySamplingWindow) :=
  if startUs < durationUs then
    if Fits 64 (startUs + o.window) then do
      let endUs := min durationUs (startUs + o.window)
      let timestampsUs ← timestampsFrom o endUs startUs
      let window : VisualEntitySamplingWindow := { startUs, endUs, timestampsUs }
      if endUs = durationUs then returned [window]
      else if Fits 64 (startUs + o.advance) then do
        let later ← windowsFrom o durationUs (startUs + o.advance)
        return window :: later
      else overflowed
    else overflowed
  else returned []
termination_by (durationUs - startUs).toNat
decreasing_by
  have := o.advance_pos
  omega

def makeVisualEntitySamplingPlan (durationUs : Int64) (options : VisualEntitySamplingOptions) :
    Outcome (List VisualEntitySamplingWindow) := do
  let o ← validateOptions options
  if durationUs.toInt ≤ 0 then returned [] else windowsFrom o durationUs.toInt 0

/-! ## Uniform plans -/

/-- What the fold emits from the windows, the end of the window before them given. -/
def emittedAfter : Int → List VisualEntitySamplingWindow → List Int
  | _, [] => []
  | previousEndUs, window :: rest =>
    window.timestampsUs.filter (fun t => decide (previousEndUs < t)) ++
      emittedAfter window.endUs rest

/-- One grid over the duration, whose windows agree where they overlap and end with it. -/
structure UniformPlan (interval durationUs : Int) (windows : List VisualEntitySamplingWindow) :
    Prop where
  increasing : (emittedAfter (-1) windows).Pairwise (· < ·)
  multiples : ∀ t, t ∈ emittedAfter (-1) windows ↔ interval ∣ t ∧ 0 ≤ t ∧ t ≤ durationUs
  shared : ∀ (i : Nat) a b, windows[i]? = some a → windows[i + 1]? = some b →
    b.startUs ≤ a.endUs ∧
      ∀ t, t ∈ a.timestampsUs ∧ b.startUs ≤ t ↔ t ∈ b.timestampsUs ∧ t ≤ a.endUs
  finished : ∃ before last, windows = before ++ [last] ∧ last.endUs = durationUs ∧
    ∀ window ∈ before, window.endUs < durationUs

section Plan

variable {o : ValidSampling} {durationUs startUs endUs timestampUs : Int}
  {windows : List VisualEntitySamplingWindow}

/-! ## One window -/

/-- The timestamps of a window are the grid from its start, and no time overflows. -/
theorem timestampsFrom_eq (nonneg : 0 ≤ timestampUs) (short : endUs < 2 ^ 63) :
    ∃ ts, timestampsFrom o endUs timestampUs = returned ts ∧ ts.Pairwise (· < ·) ∧
      ∀ t, t ∈ ts ↔ o.interval ∣ t - timestampUs ∧ timestampUs ≤ t ∧ t ≤ endUs := by
  have positive := o.interval_pos
  fun_induction timestampsFrom o endUs timestampUs with
  | case1 timestampUs inside fits last =>
    refine ⟨[timestampUs], rfl, List.pairwise_singleton _ _, fun t => ?_⟩
    rw [List.mem_singleton]
    constructor
    · rintro rfl
      exact ⟨by simp, le_rfl, inside⟩
    · rintro ⟨divides, from_, to_⟩
      have near : t - timestampUs < o.interval := by linarith
      exact sub_eq_zero.mp
        (Int.eq_zero_of_dvd_of_nonneg_of_lt (sub_nonneg.mpr from_) near divides)
  | case2 timestampUs inside fits more fits' ih =>
    obtain ⟨later, found, sorted, mem⟩ := ih (by linarith)
    refine ⟨timestampUs :: later, ?_, List.pairwise_cons.mpr ⟨fun t isLater => ?_, sorted⟩,
      fun t => ?_⟩
    · rw [found]
      rfl
    · linarith [((mem t).mp isLater).2.1]
    · rw [List.mem_cons, mem, ← sub_sub, dvd_sub_self_right]
      constructor
      · rintro (rfl | ⟨divides, from_, to_⟩)
        · exact ⟨by simp, le_rfl, inside⟩
        · exact ⟨divides, by linarith, to_⟩
      · rintro ⟨divides, from_, to_⟩
        obtain same | after := eq_or_lt_of_le from_
        · exact .inl same.symm
        · have step := Int.le_of_dvd (sub_pos.mpr after) divides
          exact .inr ⟨divides, by linarith, to_⟩
  | case3 timestampUs inside fits more large =>
    exact absurd ((Lib.fits_of_nonneg (by linarith)).mpr (by norm_num; linarith)) large
  | case4 timestampUs inside large =>
    exact absurd ((Lib.fits_of_nonneg (by linarith)).mpr (by norm_num; linarith)) large
  | case5 timestampUs outside =>
    refine ⟨[], rfl, .nil, fun t => iff_of_false List.not_mem_nil ?_⟩
    rintro ⟨-, from_, to_⟩
    exact outside (from_.trans to_)

/-- A window of the grid. -/
structure GridWindow (o : ValidSampling) (window : VisualEntitySamplingWindow) : Prop where
  sorted : window.timestampsUs.Pairwise (· < ·)
  mem_iff : ∀ t, t ∈ window.timestampsUs ↔
    o.interval ∣ t ∧ window.startUs ≤ t ∧ t ≤ window.endUs

/-- One round of the loop over the windows. -/
theorem windowsFrom_step (nonneg : 0 ≤ startUs) (before : startUs < durationUs)
    (short : durationUs < 2 ^ 63) (aligned : o.interval ∣ startUs) :
    ∃ window, GridWindow o window ∧ window.startUs = startUs ∧
      window.endUs = min durationUs (startUs + o.window) ∧
      windowsFrom o durationUs startUs =
        if startUs + o.window < 2 ^ 63 then
          if durationUs ≤ startUs + o.window then returned [window]
          else do
            let later ← windowsFrom o durationUs (startUs + o.advance)
            return window :: later
        else overflowed := by
  have wide : 0 < o.window := (o.interval_pos.trans_le o.interval_le).trans o.overlap_lt
  have shift : o.advance ≤ o.window :=
    sub_le_self _ (o.interval_pos.le.trans o.interval_le)
  have clipped : min durationUs (startUs + o.window) < 2 ^ 63 := (min_le_left _ _).trans_lt short
  obtain ⟨ts, found, sorted, mem⟩ := timestampsFrom_eq (o := o) nonneg clipped
  refine ⟨⟨startUs, min durationUs (startUs + o.window), ts⟩, ⟨sorted, fun t => ?_⟩, rfl, rfl, ?_⟩
  · rw [mem, dvd_sub_left aligned]
  · have range : Fits 64 (startUs + o.window) ↔ startUs + o.window < 2 ^ 63 :=
      Lib.fits_of_nonneg (add_nonneg nonneg wide.le)
    rw [windowsFrom, if_pos before]
    simp only [found, returned_bind, range, min_eq_left_iff]
    split
    · split
      · rfl
      · next unfinished =>
        rw [if_pos]
        have advanced := add_nonneg nonneg o.advance_pos.le
        refine (Lib.fits_of_nonneg advanced).mpr ?_
        norm_num
        linarith [not_le.mp unfinished]
    · rfl

/-! ## All windows -/

/-- What the windows from `startUs` on are, whatever was emitted before. -/
structure PlannedFrom (o : ValidSampling) (durationUs startUs : Int)
    (windows : List VisualEntitySamplingWindow) : Prop where
  begins : ∃ first rest, windows = first :: rest ∧ first.startUs = startUs ∧
    first.endUs = min durationUs (startUs + o.window)
  grid : ∀ window ∈ windows, GridWindow o window
  emitted : ∀ p ≤ durationUs, p ≤ startUs + o.window →
    (∀ t, o.interval ∣ t → p < t → startUs ≤ t) →
    (emittedAfter p windows).Pairwise (· < ·) ∧
      ∀ t, t ∈ emittedAfter p windows ↔ o.interval ∣ t ∧ p < t ∧ t ≤ durationUs
  shared : ∀ (i : Nat) a b, windows[i]? = some a → windows[i + 1]? = some b →
    b.startUs ≤ a.endUs ∧
      ∀ t, t ∈ a.timestampsUs ∧ b.startUs ≤ t ↔ t ∈ b.timestampsUs ∧ t ≤ a.endUs
  finished : ∃ before last, windows = before ++ [last] ∧ last.endUs = durationUs ∧
    ∀ window ∈ before, window.endUs < durationUs

/-- What a window adds to the windows after it. -/
theorem emitted_cons {window : VisualEntitySamplingWindow} {p : Int} (grid : GridWindow o window)
    (before : p ≤ window.endUs) (to_ : window.endUs ≤ durationUs)
    (gap : ∀ t, o.interval ∣ t → p < t → window.startUs ≤ t) {later : List Int}
    (sorted : later.Pairwise (· < ·))
    (mem : ∀ t, t ∈ later ↔ o.interval ∣ t ∧ window.endUs < t ∧ t ≤ durationUs) :
    (window.timestampsUs.filter (fun t => decide (p < t)) ++ later).Pairwise (· < ·) ∧
      ∀ t, t ∈ window.timestampsUs.filter (fun t => decide (p < t)) ++ later ↔
        o.interval ∣ t ∧ p < t ∧ t ≤ durationUs := by
  constructor
  · refine List.pairwise_append.mpr ⟨grid.sorted.filter _, sorted, fun a first b second => ?_⟩
    have within := ((grid.mem_iff a).mp (List.mem_of_mem_filter first)).2.2
    exact within.trans_lt ((mem b).mp second).2.1
  · intro t
    rw [List.mem_append, List.mem_filter, grid.mem_iff, mem, decide_eq_true_iff]
    constructor
    · rintro (⟨⟨divides, -, within⟩, after⟩ | ⟨divides, after, within⟩)
      · exact ⟨divides, after, within.trans to_⟩
      · exact ⟨divides, before.trans_lt after, within⟩
    · rintro ⟨divides, after, within⟩
      rcases le_or_gt t window.endUs with here | later
      · exact .inl ⟨⟨divides, gap t divides after, here⟩, after⟩
      · exact .inr ⟨divides, later, within⟩

/-- The last window. -/
theorem plannedFrom_last {window : VisualEntitySamplingWindow} (grid : GridWindow o window)
    (starts : window.startUs = startUs)
    (ends : window.endUs = min durationUs (startUs + o.window))
    (finishes : durationUs ≤ startUs + o.window) : PlannedFrom o durationUs startUs [window] where
  begins := ⟨window, [], rfl, starts, ends⟩
  grid := by
    intro other mem
    rwa [List.mem_singleton.mp mem]
  emitted p inside _ gap := by
    have atEnd : window.endUs = durationUs := ends.trans (min_eq_left finishes)
    refine emitted_cons grid (inside.trans atEnd.ge) atEnd.le (starts ▸ gap) .nil fun t => ?_
    refine iff_of_false List.not_mem_nil ?_
    rintro ⟨-, after, within⟩
    exact (atEnd ▸ after).not_ge within
  shared i a b _ second := by simp at second
  finished := ⟨[], window, rfl, ends.trans (min_eq_left finishes), nofun⟩

/-- A window before others. -/
theorem plannedFrom_cons {window : VisualEntitySamplingWindow} (grid : GridWindow o window)
    (starts : window.startUs = startUs)
    (ends : window.endUs = min durationUs (startUs + o.window))
    (unfinished : startUs + o.window < durationUs)
    (rest : PlannedFrom o durationUs (startUs + o.advance) windows) :
    PlannedFrom o durationUs startUs (window :: windows) := by
  have atEnd : window.endUs = startUs + o.window := ends.trans (min_eq_right unfinished.le)
  have shift : o.advance ≤ o.window :=
    sub_le_self _ (o.interval_pos.le.trans o.interval_le)
  refine ⟨⟨window, windows, rfl, starts, ends⟩, ?_, fun p inside near gap => ?_, ?_, ?_⟩
  · intro other mem
    rcases List.mem_cons.mp mem with rfl | mem
    · exact grid
    · exact rest.grid other mem
  · have next := rest.emitted window.endUs (atEnd.trans_le unfinished.le)
      (by rw [atEnd]; linarith [o.advance_pos]) fun t _ after => by
        rw [atEnd] at after
        linarith
    exact emitted_cons grid (near.trans atEnd.ge) (atEnd.trans_le unfinished.le) (starts ▸ gap)
      next.1 next.2
  · intro i a b first second
    cases i with
    | zero =>
      obtain rfl : window = a := Option.some.inj first
      obtain ⟨next, others, rfl, nextStarts, nextEnds⟩ := rest.begins
      obtain rfl : next = b := Option.some.inj second
      have nextGrid := rest.grid next List.mem_cons_self
      have longer : window.endUs ≤ next.endUs := by
        rw [atEnd, nextEnds]
        exact le_min unfinished.le (by linarith [o.advance_pos])
      refine ⟨by rw [nextStarts, atEnd]; linarith, fun t => ?_⟩
      rw [grid.mem_iff, nextGrid.mem_iff]
      constructor
      · rintro ⟨⟨divides, -, within⟩, from_⟩
        exact ⟨⟨divides, from_, within.trans longer⟩, within⟩
      · rintro ⟨⟨divides, from_, -⟩, within⟩
        refine ⟨⟨divides, ?_, within⟩, from_⟩
        rw [starts]
        linarith [o.advance_pos]
    | succ i => exact rest.shared i a b first second
  · obtain ⟨before, last, rfl, lastEnds, earlier⟩ := rest.finished
    refine ⟨window :: before, last, rfl, lastEnds, fun other mem => ?_⟩
    rcases List.mem_cons.mp mem with rfl | mem
    · exact atEnd.trans_lt unfinished
    · exact earlier other mem

/-- How many more windows there are after the one that starts at `startUs`. -/
def ValidSampling.later (o : ValidSampling) (durationUs startUs : Int) : Int :=
  (max 0 (durationUs - startUs - o.window) + (o.advance - 1)) / o.advance

/-- The end of the last window before it is clipped to the duration. -/
def ValidSampling.lastEnd (o : ValidSampling) (durationUs startUs : Int) : Int :=
  startUs + o.window + o.later durationUs startUs * o.advance

theorem lastEnd_of_finished (finishes : durationUs ≤ startUs + o.window) :
    o.lastEnd durationUs startUs = startUs + o.window := by
  have positive := o.advance_pos
  rw [ValidSampling.lastEnd, ValidSampling.later, max_eq_left (by linarith), zero_add,
    Int.ediv_eq_zero_of_lt (by linarith) (by linarith), zero_mul, add_zero]

theorem lastEnd_of_unfinished (unfinished : startUs + o.window < durationUs) :
    o.lastEnd durationUs startUs = o.lastEnd durationUs (startUs + o.advance) := by
  have positive := o.advance_pos
  have count : o.later durationUs startUs = o.later durationUs (startUs + o.advance) + 1 := by
    have one := Int.add_mul_ediv_right
      (max 0 (durationUs - (startUs + o.advance) - o.window) + (o.advance - 1)) 1 positive.ne'
    rw [ValidSampling.later, ValidSampling.later, ← one, one_mul]
    rcases le_total (durationUs - (startUs + o.advance) - o.window) 0 with short | long
    · -- fewer than an advance is left, so one more window ends the plan
      have quotient : ∀ n : Int, 0 < n → n ≤ o.advance → (n + (o.advance - 1)) / o.advance = 1 :=
        fun n some few => by
          refine (Int.ediv_eq_iff_of_pos positive).mpr ⟨?_, ?_⟩ <;> linarith
      rw [max_eq_left short, max_eq_right (by linarith), quotient _ (by linarith) (by linarith),
        zero_add, add_comm, quotient _ positive le_rfl]
    · rw [max_eq_right long, max_eq_right (by linarith)]
      congr 1
      ring
  rw [ValidSampling.lastEnd, ValidSampling.lastEnd, count]
  ring

/-- The loop plans all windows, or the end of one overflows. -/
theorem windowsFrom_eq (nonneg : 0 ≤ startUs) (before : startUs < durationUs)
    (short : durationUs < 2 ^ 63) (aligned : o.interval ∣ startUs)
    (steps : o.interval ∣ o.advance) :
    if o.lastEnd durationUs startUs < 2 ^ 63 then
      ∃ windows, windowsFrom o durationUs startUs = returned windows ∧
        PlannedFrom o durationUs startUs windows
    else windowsFrom o durationUs startUs = overflowed := by
  have shift : o.advance < o.window :=
    sub_lt_self _ (o.interval_pos.trans_le o.interval_le)
  have positive := o.advance_pos
  induction left : (durationUs - startUs).toNat using Nat.strong_induction_on
    generalizing startUs with
  | _ count ih =>
    obtain ⟨window, grid, starts, ends, step⟩ := windowsFrom_step nonneg before short aligned
    rw [step]
    rcases le_or_gt durationUs (startUs + o.window) with finishes | unfinished
    · rw [lastEnd_of_finished finishes, if_pos finishes]
      split
      · exact ⟨[window], rfl, plannedFrom_last grid starts ends finishes⟩
      · rfl
    · have fewer : (durationUs - (startUs + o.advance)).toNat < count := by
        rw [← left]
        exact (Int.toNat_lt_toNat (sub_pos.mpr before)).mpr (by linarith)
      have rest := ih _ fewer (add_nonneg nonneg positive.le) (by linarith)
        (dvd_add aligned steps) rfl
      rw [lastEnd_of_unfinished unfinished, if_pos (unfinished.trans short),
        if_neg unfinished.not_ge]
      split
      · next fits =>
        rw [if_pos fits] at rest
        obtain ⟨later, found, planned⟩ := rest
        refine ⟨window :: later, ?_, plannedFrom_cons grid starts ends unfinished planned⟩
        rw [found, returned_bind, pure_eq]
      · next large =>
        rw [if_neg large] at rest
        rw [rest, overflowed_bind]

/-- A plan from the start is uniform. -/
theorem uniformPlan_of_planned (positive : 0 < durationUs)
    (planned : PlannedFrom o durationUs 0 windows) :
    UniformPlan o.interval durationUs windows := by
  have wide := (o.interval_pos.trans_le o.interval_le).trans o.overlap_lt
  obtain ⟨increasing, mem⟩ := planned.emitted (-1) (by linarith) (by linarith) fun t _ after => by
    linarith [Int.add_one_le_of_lt after]
  exact ⟨increasing, mem, planned.shared, planned.finished⟩

end Plan

/-- The windows make one uniform grid just when the end of the last one, not clipped,
fits an `int64`. -/
theorem samplingPlan_uniform_iff (durationUs : Int64) (options : VisualEntitySamplingOptions)
    (o : ValidSampling) (accepted : validateOptions options = returned o)
    (positive : 0 < durationUs.toInt) (windows : o.interval ∣ o.window)
    (overlaps : o.interval ∣ o.overlap) :
    (∃ plan, makeVisualEntitySamplingPlan durationUs options = returned plan ∧
      UniformPlan o.interval durationUs.toInt plan) ↔ o.lastEnd durationUs.toInt 0 < 2 ^ 63 := by
  have plan : makeVisualEntitySamplingPlan durationUs options =
      windowsFrom o durationUs.toInt 0 := by
    rw [makeVisualEntitySamplingPlan, accepted, returned_bind, if_neg positive.not_ge]
  have run := windowsFrom_eq le_rfl positive durationUs.toInt_lt (dvd_zero _)
    (dvd_sub windows overlaps)
  rw [plan]
  split at run
  · next fits =>
    obtain ⟨windows, found, planned⟩ := run
    exact iff_of_true ⟨windows, found, uniformPlan_of_planned positive planned⟩ fits
  · next large =>
    refine iff_of_false ?_ large
    rintro ⟨windows, found, -⟩
    rw [run] at found
    cases found

/-- A duration of 17.66 seconds. -/
theorem samplingPlan_uniform_sample :
    ∃ plan, makeVisualEntitySamplingPlan 17660000 ⟨200000, 5000000, 1000000⟩ = returned plan ∧
      UniformPlan 200000 17660000 plan :=
  (samplingPlan_uniform_iff 17660000 ⟨200000, 5000000, 1000000⟩
    ⟨200000, 5000000, 1000000, by decide, by decide, by decide, by decide⟩ rfl
    (by decide) (by decide) (by decide)).mpr (by decide)

/-- A quarter, three quarters and a quarter of the times from 0 to 2^63. -/
def wideSampling : VisualEntitySamplingOptions :=
  ⟨2305843009213693952, 6917529027641081856, 2305843009213693952⟩

def wideValid : ValidSampling :=
  ⟨2305843009213693952, 6917529027641081856, 2305843009213693952, by decide, by decide, by decide,
    by decide⟩

/-- The end of the second window overflows before it is clipped to the longest duration. -/
theorem samplingPlan_overflows :
    validateOptions wideSampling = returned wideValid ∧
      (wideValid.interval ∣ wideValid.window ∧ wideValid.interval ∣ wideValid.overlap) ∧
      makeVisualEntitySamplingPlan Int64.maxValue wideSampling = overflowed := by
  refine ⟨rfl, ⟨by decide, by decide⟩, ?_⟩
  have run := @windowsFrom_eq wideValid Int64.maxValue.toInt 0 le_rfl (by decide) (by decide)
    (dvd_zero _) (by decide)
  rw [if_neg (by decide)] at run
  exact run

end Svp.Vision

import Svp.Lib.Binary64Order

/-!
# The VAD time mapper

`mapCentiseconds` takes a time of the packed speech back to the recording through a list
of points. Between two points it interpolates, unless the recording goes on far beyond
the speech: there silence was removed, and an onset is the second point and an end the
first.

Through points in order the map is monotone (`mapCentiseconds_mono`) and stays between
the points around a time (`mapCentiseconds_between`).
-/

namespace Svp.Audio

open Lib (round64)

/-! ## Units -/

/-- To the nearest integer, halves away from zero. -/
def llround (q : ℚ) : Int := if 0 ≤ q then ⌊q + 1 / 2⌋ else -⌊-q + 1 / 2⌋

def samplesToCentiseconds (samples : Int) : Int :=
  llround (round64 (round64 (samples * 100 : Int) / 16000))

def centisecondsToSamples (centiseconds : Int) : Int :=
  llround (round64 (round64 (centiseconds * 16000 : Int) / 100))

/-- `static_cast<int>` of a double. -/
def truncate (q : ℚ) : Int := if 0 ≤ q then ⌊q⌋ else ⌈q⌉

def whisperVadCentisecondsToSamples (centiseconds : Int) : Int :=
  truncate (round64 (round64 (round64 (centiseconds / 100) * 16000) + 1 / 2))

theorem llround_mono {p q : ℚ} (nonneg : 0 ≤ p) (le : p ≤ q) : llround p ≤ llround q := by
  rw [llround, llround, if_pos nonneg, if_pos (nonneg.trans le)]
  exact Int.floor_mono (add_le_add_left le (1 / 2))

theorem llround_nonneg {q : ℚ} (nonneg : 0 ≤ q) : 0 ≤ llround q := by
  rw [llround, if_pos nonneg]
  exact Int.floor_nonneg.mpr (by linarith)

theorem llround_intCast {n : Int} (nonneg : 0 ≤ n) : llround n = n := by
  have nonneg : (0 : ℚ) ≤ n := by exact_mod_cast nonneg
  rw [llround, if_pos nonneg, Int.floor_intCast_add]
  norm_num

theorem round64_intCast {n : Int} (nonneg : 0 ≤ n) (small : n < 2 ^ 53) : round64 n = n :=
  Lib.round64_representable (Lib.representable_intCast (by rwa [abs_of_nonneg nonneg]))

theorem centisecondsToSamples_eq {centiseconds : Int} (nonneg : 0 ≤ centiseconds)
    (fits : centiseconds * 160 < 2 ^ 31) : centisecondsToSamples centiseconds = centiseconds * 160 := by
  have ratio : ((centiseconds * 16000 : Int) : ℚ) / 100 = (centiseconds * 160 : Int) := by
    push_cast
    ring
  rw [centisecondsToSamples, round64_intCast (by linarith) (by linarith), ratio,
    round64_intCast (by linarith) (by linarith), llround_intCast (by linarith)]

/-- The helper of whisper rounds three times, and none of it shows. -/
theorem whisperVadCentisecondsToSamples_eq {centiseconds : Int} (nonneg : 0 ≤ centiseconds)
    (fits : centiseconds * 160 < 2 ^ 31) :
    whisperVadCentisecondsToSamples centiseconds = centiseconds * 160 := by
  have low : (0 : ℚ) ≤ centiseconds := by exact_mod_cast nonneg
  have high : (centiseconds : ℚ) * 160 < 2 ^ 31 := by exact_mod_cast fits
  have first := Lib.abs_round64_sub_le (q := centiseconds / 100) (e := 18) (by positivity)
    (by norm_num; linarith) (by decide)
  obtain ⟨firstLow, firstHigh⟩ := abs_le.mp first
  norm_num at firstLow firstHigh
  have hundredth : 0 ≤ round64 (centiseconds / 100) := Lib.round64_nonneg (by positivity)
  have second := Lib.abs_round64_sub_le (q := round64 (centiseconds / 100) * 16000) (e := 31)
    (by positivity) (by norm_num; linarith) (by decide)
  obtain ⟨secondLow, secondHigh⟩ := abs_le.mp second
  norm_num at secondLow secondHigh
  have product : 0 ≤ round64 (round64 (centiseconds / 100) * 16000) := Lib.round64_nonneg (by positivity)
  have third := Lib.abs_round64_sub_le (q := round64 (round64 (centiseconds / 100) * 16000) + 1 / 2)
    (e := 31) (by positivity) (by norm_num; linarith) (by decide)
  obtain ⟨thirdLow, thirdHigh⟩ := abs_le.mp third
  norm_num at thirdLow thirdHigh
  rw [whisperVadCentisecondsToSamples, truncate, if_pos (by linarith), Int.floor_eq_iff]
  push_cast
  constructor <;> linarith

theorem samplesToCentiseconds_eq {samples : Int} (nonneg : 0 ≤ samples) (fits : samples < 2 ^ 31) :
    samplesToCentiseconds samples = (samples + 80) / 160 := by
  have low : (0 : ℚ) ≤ samples := by exact_mod_cast nonneg
  have high : (samples : ℚ) < 2 ^ 31 := by exact_mod_cast fits
  have ratio : ((samples * 100 : Int) : ℚ) / 16000 = samples / 160 := by
    push_cast
    ring
  have error := Lib.abs_round64_sub_le (q := samples / 160) (e := 24) (by positivity)
    (by norm_num; linarith) (by decide)
  obtain ⟨errorLow, errorHigh⟩ := abs_le.mp error
  norm_num at errorLow errorHigh
  have quotient : 0 ≤ round64 (samples / 160) := Lib.round64_nonneg (by positivity)
  rw [samplesToCentiseconds, round64_intCast (by linarith) (by linarith), ratio, llround,
    if_pos quotient, Int.floor_eq_iff]
  obtain ⟨rest, below, split⟩ : ∃ rest : Int, (0 ≤ rest ∧ rest < 160) ∧
      samples + 80 = 160 * ((samples + 80) / 160) + rest :=
    ⟨(samples + 80) % 160, ⟨Int.emod_nonneg _ (by decide), Int.emod_lt_of_pos _ (by decide)⟩, by omega⟩
  generalize (samples + 80) / 160 = k at split
  have splitℚ : (samples : ℚ) + 80 = 160 * k + rest := by exact_mod_cast split
  have restLow : (0 : ℚ) ≤ rest := by exact_mod_cast below.1
  have restHigh : (rest : ℚ) ≤ 159 := by exact_mod_cast Int.le_sub_one_of_lt below.2
  -- The half below `k` is a double, so the rounding does not cross it.
  have half : Lib.Representable ((k : ℚ) - 1 / 2) := by
    refine ⟨2 * k - 1, -1, by decide, ?_, by push_cast; ring⟩
    rw [abs_lt]
    constructor <;> omega
  have above := Lib.le_round64_of_le half (show (k : ℚ) - 1 / 2 ≤ samples / 160 by linarith)
  constructor <;> linarith

theorem samplesToCentiseconds_mono {a b : Int} (nonneg : 0 ≤ a) (le : a ≤ b) (fits : b < 2 ^ 31) :
    samplesToCentiseconds a ≤ samplesToCentiseconds b := by
  rw [samplesToCentiseconds_eq nonneg (le.trans_lt fits), samplesToCentiseconds_eq (nonneg.trans le) fits]
  exact Int.ediv_le_ediv (by decide) (Int.add_le_add_right le 80)

theorem samplesToCentiseconds_add {samples : Int} (nonneg : 0 ≤ samples) {centiseconds : Int}
    (forward : 0 ≤ centiseconds) (fits : samples + centiseconds * 160 < 2 ^ 31) :
    samplesToCentiseconds (samples + centiseconds * 160) = samplesToCentiseconds samples + centiseconds := by
  rw [samplesToCentiseconds_eq (by linarith) fits, samplesToCentiseconds_eq nonneg (by linarith)]
  omega

/-! ## Points -/

structure VadTimeMappingPoint where
  processedCentiseconds : Int
  originalCentiseconds : Int

def appendVadMappingPoint (points : List VadTimeMappingPoint) (processed original : Int) :
    List VadTimeMappingPoint :=
  match points.getLast? with
  | some last =>
    if last.processedCentiseconds = processed then points.dropLast ++ [⟨processed, original⟩]
    else points ++ [⟨processed, original⟩]
  | none => [⟨processed, original⟩]

structure VadTimeMapper where
  points : List VadTimeMappingPoint
  processedSpeechRanges : List (Int × Int)

/-- A removed silence advances the recording by more than this beyond the speech. -/
def kVadSyntheticGapSlackCentiseconds : Int := 5

/-- Between two neighbouring points. -/
def mapBetween (previous current : VadTimeMappingPoint) (processed : Int) (isOnset : Bool) : Int :=
  let processedSpan := current.processedCentiseconds - previous.processedCentiseconds
  let originalSpan := current.originalCentiseconds - previous.originalCentiseconds
  if processedSpan ≤ 0 then current.originalCentiseconds
  else if processedSpan + kVadSyntheticGapSlackCentiseconds < originalSpan then
    if isOnset then current.originalCentiseconds else previous.originalCentiseconds
  else
    previous.originalCentiseconds +
      ((processed - previous.processedCentiseconds) * originalSpan).tdiv processedSpan

/-- The loop over neighbours, from `previous` on. -/
def mapFrom (processed : Int) (isOnset : Bool) (previous : VadTimeMappingPoint) :
    List VadTimeMappingPoint → Int
  | [] => previous.originalCentiseconds
  | current :: rest =>
    if current.processedCentiseconds < processed then mapFrom processed isOnset current rest
    else mapBetween previous current processed isOnset

def VadTimeMapper.mapCentiseconds (mapper : VadTimeMapper) (processed : Int) (isOnset : Bool) : Int :=
  match mapper.points with
  | [] => processed
  | first :: rest =>
    if processed ≤ first.processedCentiseconds then first.originalCentiseconds
    else mapFrom processed isOnset first rest

/-! ## Points in order -/

/-- Later in the packed speech, and no earlier in the recording. -/
def Before (a b : VadTimeMappingPoint) : Prop :=
  a.processedCentiseconds < b.processedCentiseconds ∧ a.originalCentiseconds ≤ b.originalCentiseconds

/-- The points before a time. -/
abbrev pointsBefore (processed : Int) (points : List VadTimeMappingPoint) : List VadTimeMappingPoint :=
  points.filter (·.processedCentiseconds < processed)

/-- The new point replaces the one at its processed time and follows all others. -/
theorem appendVadMappingPoint_eq {points : List VadTimeMappingPoint} {processed : Int} (original : Int)
    (ordered : points.Pairwise Before)
    (upTo : ∀ point ∈ points, point.processedCentiseconds ≤ processed) :
    appendVadMappingPoint points processed original =
      pointsBefore processed points ++ [⟨processed, original⟩] := by
  rw [appendVadMappingPoint]
  cases found : points.getLast? with
  | none => rw [List.getLast?_eq_none_iff.mp found]; rfl
  | some last =>
    obtain ⟨front, rfl⟩ := List.getLast?_eq_some_iff.mp found
    rw [List.pairwise_append] at ordered
    have earlier : front.filter (·.processedCentiseconds < processed) = front := by
      rw [List.filter_eq_self]
      intro point member
      exact decide_eq_true ((ordered.2.2 point member last (List.mem_singleton_self last)).1.trans_le
        (upTo last (by simp)))
    rw [pointsBefore, List.filter_append, earlier]
    by_cases same : last.processedCentiseconds = processed
    · simp [same]
    · have less : last.processedCentiseconds < processed := lt_of_le_of_ne (upTo last (by simp)) same
      simp [same, less]

/-- Points in order, with none beyond the given one. -/
structure UpTo (points : List VadTimeMappingPoint) (processed original : Int) : Prop where
  ordered : points.Pairwise Before
  processedLe : ∀ point ∈ points, point.processedCentiseconds ≤ processed
  originalLe : ∀ point ∈ points, point.originalCentiseconds ≤ original

theorem UpTo.mono {points : List VadTimeMappingPoint} {processed later original further : Int}
    (upTo : UpTo points processed original) (le : processed ≤ later) (le' : original ≤ further) :
    UpTo points later further where
  ordered := upTo.ordered
  processedLe point member := (upTo.processedLe point member).trans le
  originalLe point member := (upTo.originalLe point member).trans le'

theorem UpTo.append {points : List VadTimeMappingPoint} {processed original : Int}
    (upTo : UpTo points processed original) :
    UpTo (appendVadMappingPoint points processed original) processed original := by
  rw [appendVadMappingPoint_eq original upTo.ordered upTo.processedLe]
  refine ⟨?_, ?_, ?_⟩
  · rw [List.pairwise_append]
    refine ⟨upTo.ordered.filter _, List.pairwise_singleton _ _, ?_⟩
    intro point member last isLast
    obtain ⟨member, less⟩ := List.mem_filter.mp member
    obtain rfl := List.mem_singleton.mp isLast
    exact ⟨of_decide_eq_true less, upTo.originalLe point member⟩
  · intro point member
    rcases List.mem_append.mp member with member | isLast
    · exact upTo.processedLe point (List.mem_filter.mp member).1
    · rw [List.mem_singleton.mp isLast]
  · intro point member
    rcases List.mem_append.mp member with member | isLast
    · exact upTo.originalLe point (List.mem_filter.mp member).1
    · rw [List.mem_singleton.mp isLast]

theorem pointsBefore_pointsBefore {x y : Int} (le : x ≤ y) (points : List VadTimeMappingPoint) :
    pointsBefore y (pointsBefore x points) = pointsBefore x points := by
  rw [pointsBefore, List.filter_eq_self]
  intro point member
  have less := of_decide_eq_true (List.mem_filter.mp member).2
  exact decide_eq_true (less.trans_le le)

theorem pointsBefore_concat {front : List VadTimeMappingPoint} {last : VadTimeMappingPoint}
    (ordered : (front ++ [last]).Pairwise Before) :
    pointsBefore last.processedCentiseconds (front ++ [last]) = front := by
  have kept := (List.pairwise_append.mp ordered).2.2
  have all : pointsBefore last.processedCentiseconds front = front := by
    rw [pointsBefore, List.filter_eq_self]
    intro point member
    exact decide_eq_true (kept point member last (List.mem_singleton_self last)).1
  unfold pointsBefore at all ⊢
  rw [List.filter_append, all]
  simp

theorem UpTo.append_eq {points : List VadTimeMappingPoint} {processed original : Int}
    (upTo : UpTo points processed original) :
    appendVadMappingPoint points processed original =
      pointsBefore processed points ++ [⟨processed, original⟩] :=
  appendVadMappingPoint_eq original upTo.ordered upTo.processedLe

theorem UpTo.pointsBefore_append {points : List VadTimeMappingPoint} {processed later original : Int}
    (upTo : UpTo points processed original) (le : processed ≤ later) :
    pointsBefore later (appendVadMappingPoint points processed original) =
      pointsBefore processed points ++ pointsBefore later [⟨processed, original⟩] := by
  rw [upTo.append_eq]
  unfold pointsBefore
  rw [List.filter_append]
  exact congrArg (· ++ _) (pointsBefore_pointsBefore le points)

theorem pointsBefore_prefix {points : List VadTimeMappingPoint} (ordered : points.Pairwise Before)
    (processed : Int) : pointsBefore processed points <+: points := by
  induction points with
  | nil => exact List.prefix_refl _
  | cons point rest ih =>
    obtain ⟨first, ordered⟩ := List.pairwise_cons.mp ordered
    by_cases less : point.processedCentiseconds < processed
    · rw [pointsBefore, List.filter_cons_of_pos (by simpa using less)]
      exact (List.prefix_cons_inj point).mpr (ih ordered)
    · have none : pointsBefore processed (point :: rest) = [] := by
        rw [List.filter_eq_nil_iff]
        intro other member
        rcases List.mem_cons.mp member with rfl | member
        · simpa using less
        · have := (first other member).1
          simp only [decide_eq_true_eq]
          omega
      rw [none]
      exact List.nil_prefix

/-! ## Between two points -/

section
variable {previous current : VadTimeMappingPoint} (before : Before previous current)
include before

theorem mapBetween_cases (processed : Int) (isOnset : Bool) :
    mapBetween previous current processed isOnset =
      if current.processedCentiseconds - previous.processedCentiseconds + kVadSyntheticGapSlackCentiseconds <
          current.originalCentiseconds - previous.originalCentiseconds then
        if isOnset then current.originalCentiseconds else previous.originalCentiseconds
      else
        previous.originalCentiseconds + ((processed - previous.processedCentiseconds) *
          (current.originalCentiseconds - previous.originalCentiseconds)).tdiv
          (current.processedCentiseconds - previous.processedCentiseconds) := by
  have positive : ¬current.processedCentiseconds - previous.processedCentiseconds ≤ 0 := by
    have := before.1
    omega
  rw [mapBetween, if_neg positive]

theorem mapBetween_mono {x y : Int} (isOnset : Bool) (after : previous.processedCentiseconds < x)
    (le : x ≤ y) :
    mapBetween previous current x isOnset ≤ mapBetween previous current y isOnset := by
  obtain ⟨positive, nonneg⟩ := before
  rw [mapBetween_cases ⟨positive, nonneg⟩, mapBetween_cases ⟨positive, nonneg⟩]
  split
  · exact le_refl _
  · rw [Int.tdiv_eq_ediv_of_nonneg (Int.mul_nonneg (by omega) (by omega)),
      Int.tdiv_eq_ediv_of_nonneg (Int.mul_nonneg (by omega) (by omega))]
    have := Int.ediv_le_ediv (Int.sub_pos_of_lt positive)
      (Int.mul_le_mul_of_nonneg_right (Int.sub_le_sub_right le previous.processedCentiseconds)
        (Int.sub_nonneg_of_le nonneg))
    exact Int.add_le_add_left this _

theorem le_mapBetween {x : Int} (isOnset : Bool) (after : previous.processedCentiseconds < x) :
    previous.originalCentiseconds ≤ mapBetween previous current x isOnset := by
  obtain ⟨positive, nonneg⟩ := before
  rw [mapBetween_cases ⟨positive, nonneg⟩]
  split
  · cases isOnset with
    | true => exact nonneg
    | false => exact le_refl _
  · have := Int.tdiv_nonneg (Int.mul_nonneg (Int.sub_nonneg_of_le after.le) (Int.sub_nonneg_of_le nonneg))
      (Int.sub_nonneg_of_le positive.le)
    exact Int.le_add_of_nonneg_right this

/-- At its second point. -/
theorem mapBetween_end (isOnset : Bool) :
    mapBetween previous current current.processedCentiseconds isOnset =
      if current.processedCentiseconds - previous.processedCentiseconds + kVadSyntheticGapSlackCentiseconds <
          current.originalCentiseconds - previous.originalCentiseconds ∧ isOnset = false then
        previous.originalCentiseconds
      else current.originalCentiseconds := by
  have positive : current.processedCentiseconds - previous.processedCentiseconds ≠ 0 := by
    have := before.1
    omega
  rw [mapBetween_cases before, Int.mul_tdiv_cancel_left _ positive]
  cases isOnset <;> split <;> simp_all

theorem mapBetween_le {x : Int} (isOnset : Bool) (after : previous.processedCentiseconds < x)
    (upTo : x ≤ current.processedCentiseconds) :
    mapBetween previous current x isOnset ≤ current.originalCentiseconds := by
  have mono := mapBetween_mono before isOnset after upTo
  rw [mapBetween_end before] at mono
  split at mono
  · exact mono.trans before.2
  · exact mono

end

/-! ## Through all points -/

theorem le_mapFrom {processed : Int} (isOnset : Bool) {previous : VadTimeMappingPoint}
    {points : List VadTimeMappingPoint} (ordered : (previous :: points).Pairwise Before)
    (after : previous.processedCentiseconds < processed) :
    previous.originalCentiseconds ≤ mapFrom processed isOnset previous points := by
  induction points generalizing previous with
  | nil => exact le_refl _
  | cons current rest ih =>
    obtain ⟨first, ordered⟩ := List.pairwise_cons.mp ordered
    have before := first current List.mem_cons_self
    unfold mapFrom
    split
    next later => exact before.2.trans (ih ordered later)
    next => exact le_mapBetween before isOnset after

theorem mapFrom_mono {x y : Int} (isOnset : Bool) {previous : VadTimeMappingPoint}
    {points : List VadTimeMappingPoint} (ordered : (previous :: points).Pairwise Before)
    (after : previous.processedCentiseconds < x) (le : x ≤ y) :
    mapFrom x isOnset previous points ≤ mapFrom y isOnset previous points := by
  induction points generalizing previous with
  | nil => exact le_refl _
  | cons current rest ih =>
    obtain ⟨first, ordered⟩ := List.pairwise_cons.mp ordered
    have before := first current List.mem_cons_self
    unfold mapFrom
    by_cases both : current.processedCentiseconds < x
    · rw [if_pos both, if_pos (both.trans_le le)]
      exact ih ordered both
    rw [if_neg both]
    by_cases one : current.processedCentiseconds < y
    · rw [if_pos one]
      exact (mapBetween_le before isOnset after (Int.not_lt.mp both)).trans (le_mapFrom isOnset ordered one)
    · rw [if_neg one]
      exact mapBetween_mono before isOnset after le

namespace VadTimeMapper

variable {mapper : VadTimeMapper}

/-- Onsets and ends keep their order, unless no speech was packed at all. -/
theorem mapCentiseconds_mono (ordered : mapper.points.Pairwise Before) (isOnset : Bool) {x y : Int}
    (le : x ≤ y) : mapper.mapCentiseconds x isOnset ≤ mapper.mapCentiseconds y isOnset := by
  unfold mapCentiseconds
  cases points : mapper.points with
  | nil => exact le
  | cons first rest =>
    rw [points] at ordered
    dsimp only
    by_cases both : y ≤ first.processedCentiseconds
    · rw [if_pos both, if_pos (le.trans both)]
    rw [if_neg both]
    split
    next => exact le_mapFrom isOnset ordered (Int.not_le.mp both)
    next one => exact mapFrom_mono isOnset ordered (Int.not_le.mp one) le

theorem mapFrom_between {processed : Int} (isOnset : Bool) {previous : VadTimeMappingPoint}
    {front : List VadTimeMappingPoint} {a b : VadTimeMappingPoint} {tail : List VadTimeMappingPoint}
    (ordered : (front ++ a :: b :: tail).Pairwise Before) (after : a.processedCentiseconds < processed)
    (upTo : processed ≤ b.processedCentiseconds) :
    mapFrom processed isOnset previous (front ++ a :: b :: tail) = mapBetween a b processed isOnset := by
  induction front generalizing previous with
  | nil =>
    rw [List.nil_append, mapFrom, if_pos after, mapFrom, if_neg (Int.not_lt.mpr upTo)]
  | cons point front ih =>
    rw [List.cons_append, List.pairwise_cons] at ordered
    have before := ordered.1 a (by simp)
    rw [List.cons_append, mapFrom, if_pos (before.1.trans after), ih ordered.2]

theorem mapCentiseconds_between (isOnset : Bool) {front tail : List VadTimeMappingPoint}
    {a b : VadTimeMappingPoint} (points : mapper.points = front ++ a :: b :: tail)
    (ordered : mapper.points.Pairwise Before) {processed : Int} (after : a.processedCentiseconds < processed)
    (upTo : processed ≤ b.processedCentiseconds) :
    mapper.mapCentiseconds processed isOnset = mapBetween a b processed isOnset := by
  rw [points] at ordered
  rw [mapCentiseconds, points]
  cases front with
  | nil =>
    rw [List.nil_append]
    dsimp only
    rw [if_neg (Int.not_le.mpr after), mapFrom, if_neg (Int.not_lt.mpr upTo)]
  | cons first front =>
    rw [List.cons_append, List.pairwise_cons] at ordered
    have before := (ordered.1 a (by simp)).1.trans after
    rw [List.cons_append]
    dsimp only
    rw [if_neg (Int.not_le.mpr before), mapFrom_between isOnset ordered.2 after upTo]

/-- At a point, an onset takes that point, and an end the point or the one before it. -/
theorem mapCentiseconds_point (isOnset : Bool) {front tail : List VadTimeMappingPoint}
    {point : VadTimeMappingPoint} (points : mapper.points = front ++ point :: tail)
    (ordered : mapper.points.Pairwise Before) :
    mapper.mapCentiseconds point.processedCentiseconds isOnset = point.originalCentiseconds ∨
      (isOnset = false ∧ ∃ last, front.getLast? = some last ∧
        mapper.mapCentiseconds point.processedCentiseconds isOnset = last.originalCentiseconds) := by
  cases found : front.getLast? with
  | none =>
    rw [List.getLast?_eq_none_iff.mp found, List.nil_append] at points
    rw [mapCentiseconds, points]
    dsimp only
    exact .inl (if_pos (le_refl _))
  | some last =>
    obtain ⟨front, rfl⟩ := List.getLast?_eq_some_iff.mp found
    rw [List.append_assoc, List.singleton_append] at points
    have before : Before last point := by
      rw [points, List.pairwise_append, List.pairwise_cons] at ordered
      exact ordered.2.1.1 point List.mem_cons_self
    rw [mapCentiseconds_between isOnset points ordered before.1 (le_refl _), mapBetween_end before]
    split
    next gap => exact .inr ⟨gap.2, last, rfl, rfl⟩
    next => exact .inl rfl

end VadTimeMapper

end Svp.Audio

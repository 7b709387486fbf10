import Svp.Lib.Binary64
import Svp.Lib.Outcome

/-!
# Canonical timing

`ptsToMicroseconds`, `ptsDeltaToMicroseconds` and `frameIndexToMicroseconds` turn counts
of a rational time base into microseconds. They work on 128-bit integers and check the
range of the result only.
-/

namespace Svp.Media

open Lib (Outcome Fits signed roundEven)
open Lib.Outcome

structure Rational where
  numerator : Int64
  denominator : Int64

/-- The number the pair stands for. -/
def Rational.value (r : Rational) : ℚ := r.numerator.toInt / r.denominator.toInt

/-! ## The program -/

/-- `std::gcd`, which needs the magnitudes of its arguments. -/
def gcd64 (a b : Int) : Outcome Int := do
  let m ← signed 64 |a|
  let n ← signed 64 |b|
  let divisor : Int := Int.gcd m n
  return divisor

/-- The numerator and the denominator in lowest terms, the denominator positive. -/
def normalize (r : Rational) : Outcome (Int × Int) :=
  if r.denominator.toInt = 0 then thrown "rational denominator must be non-zero"
  else do
    let numerator ←
      if r.denominator.toInt < 0 then signed 64 (-r.numerator.toInt)
      else returned r.numerator.toInt
    let denominator ←
      if r.denominator.toInt < 0 then signed 64 (-r.denominator.toInt)
      else returned r.denominator.toInt
    let divisor ← gcd64 numerator denominator
    return if divisor ≠ 0 then (numerator.tdiv divisor, denominator.tdiv divisor)
      else (numerator, denominator)

def checkedInt64 (value : Int) : Outcome Int :=
  if Fits 64 value then returned value
  else thrown "canonical timestamp is outside int64 range"

def roundHalfToEvenWide (numerator denominator : Int) : Outcome Int :=
  if denominator ≤ 0 then thrown "rounding denominator must be positive"
  else if numerator < 0 then thrown "canonical timestamp numerator must be non-negative"
  else do
    let quotient := numerator.tdiv denominator
    let remainder := numerator.tmod denominator
    let doubledRemainder ← signed 128 (remainder * 2)
    let rounded ←
      if denominator < doubledRemainder ∨
          (doubledRemainder = denominator ∧ quotient.tmod 2 ≠ 0) then signed 128 (quotient + 1)
      else returned quotient
    checkedInt64 rounded

def ptsToMicroseconds (normalizedPts : Int64) (sourceTimebase : Rational) : Outcome Int := do
  let timebase ← normalize sourceTimebase
  if normalizedPts.toInt < 0 then thrown "normalized source PTS must be non-negative"
  else do
    let product ← signed 128 (normalizedPts.toInt * timebase.1)
    let numerator ← signed 128 (product * 1000000)
    roundHalfToEvenWide numerator timebase.2

def ptsDeltaToMicroseconds (sourcePts : Int64) (sourceTimebase : Rational) (originPts : Int64)
    (originTimebase : Rational) : Outcome Int := do
  let source ← normalize sourceTimebase
  let origin ← normalize originTimebase
  let sourceProduct ← signed 128 (sourcePts.toInt * source.1)
  let sourceTerm ← signed 128 (sourceProduct * origin.2)
  let originProduct ← signed 128 (originPts.toInt * origin.1)
  let originTerm ← signed 128 (originProduct * source.2)
  let normalizedNumerator ← signed 128 (sourceTerm - originTerm)
  let denominator ← signed 128 (source.2 * origin.2)
  if normalizedNumerator < 0 then do
    let magnitude ← signed 128 (-normalizedNumerator)
    let numerator ← signed 128 (magnitude * 1000000)
    let rounded ← roundHalfToEvenWide numerator denominator
    signed 64 (-rounded)
  else do
    let numerator ← signed 128 (normalizedNumerator * 1000000)
    roundHalfToEvenWide numerator denominator

def frameIndexToMicroseconds (frameIndex : Int64) (frameRate : Rational) : Outcome Int := do
  let rate ← normalize frameRate
  if frameIndex.toInt < 0 then thrown "frame index must be non-negative"
  else if rate.1 ≤ 0 ∨ rate.2 ≤ 0 then thrown "frame rate must be positive"
  else do
    let product ← signed 128 (frameIndex.toInt * rate.2)
    let numerator ← signed 128 (product * 1000000)
    roundHalfToEvenWide numerator rate.1

/-! ## Exact times -/

/-- Rounded half to even, a negative number by its magnitude. -/
def halfEven (q : ℚ) : Int := if q < 0 then -roundEven (-q) else roundEven q

/-- The time in microseconds, or the refusal of one outside `int64`. -/
def exactTime (microseconds : ℚ) : Outcome Int :=
  if Fits 64 (halfEven microseconds) then returned (halfEven microseconds)
  else thrown "canonical timestamp is outside int64 range"

/-- The two pairs of numbers whose negation or magnitude overflows are excluded. -/
def Rational.Reducible (r : Rational) : Prop :=
  r.numerator ≠ Int64.minValue ∧ r.denominator ≠ Int64.minValue

/-! ## Lowest terms -/

theorem toInt_ne_min {x : Int64} : x ≠ Int64.minValue ↔ -2 ^ 63 < x.toInt := by
  rw [← Int64.toInt_minValue, lt_iff_le_and_ne, Int64.toInt_minValue]
  refine ⟨fun other => ⟨x.le_toInt, fun same => other ?_⟩, fun h same => h.2 ?_⟩
  · exact Int64.toInt_inj.mp (same.symm.trans Int64.toInt_minValue.symm)
  · rw [same, Int64.toInt_minValue]

theorem lowest_terms {n d : Int} (pos : 0 < d) :
    n.tdiv (Int.gcd n d) = (n / d : ℚ).num ∧ d.tdiv (Int.gcd n d) = ((n / d : ℚ).den : Int) := by
  have swap : Int.gcd d n = Int.gcd n d := Int.gcd_comm d n
  rw [← Rat.divInt_eq_div, Rat.num_divInt, Rat.den_divInt, if_neg pos.ne', swap,
    Int.sign_eq_one_of_pos pos, one_mul]
  refine ⟨Int.tdiv_eq_ediv_of_dvd (Int.gcd_dvd_left _ _), ?_⟩
  rw [Int.tdiv_eq_ediv_of_dvd (Int.gcd_dvd_right _ _), Int.natCast_ediv, Int.natCast_natAbs,
    abs_of_pos pos]

theorem gcd64_of_fits {a b : Int} (fitsA : Fits 64 |a|) (fitsB : Fits 64 |b|) :
    gcd64 a b = .returned (Nat.cast (Int.gcd a b)) := by
  rw [gcd64, Lib.signed_of_fits fitsA, returned_bind, Lib.signed_of_fits fitsB, returned_bind,
    Int.gcd, Int.natAbs_abs, Int.natAbs_abs, ← Int.gcd]
  rfl

theorem normalize_positive {n d : Int} (pos : 0 < d) (fitsN : Fits 64 |n|) (fitsD : Fits 64 |d|) :
    (do
      let divisor ← gcd64 n d
      return if divisor ≠ 0 then (n.tdiv divisor, d.tdiv divisor) else (n, d)) =
      .returned ((n / d : ℚ).num, Nat.cast (n / d : ℚ).den) := by
  have some : (Int.gcd n d : Int) ≠ 0 := by
    intro zero
    exact pos.ne' (Int.gcd_eq_zero_iff.mp (by exact_mod_cast zero)).2
  obtain ⟨top, bottom⟩ := lowest_terms (n := n) pos
  rw [gcd64_of_fits fitsN fitsD, returned_bind, if_pos some, top, bottom, pure_eq]

/-- `normalize` puts a rational in lowest terms. -/
theorem normalize_of_reducible {r : Rational} (valid : r.denominator.toInt ≠ 0)
    (reducible : r.Reducible) :
    normalize r = returned (r.value.num, (r.value.den : Int)) := by
  have lowN := toInt_ne_min.mp reducible.1
  have lowD := toInt_ne_min.mp reducible.2
  have highN := r.numerator.toInt_lt
  have highD := r.denominator.toInt_lt
  have small : ∀ {x : Int}, -2 ^ 63 < x → x < 2 ^ 63 → Fits 64 x ∧ Fits 64 (-x) ∧ Fits 64 |x| := by
    intro x low high
    have magnitude : |x| < 2 ^ (64 - 1) := abs_lt.mpr ⟨low, high⟩
    exact ⟨Lib.fits_of_abs_lt magnitude, Lib.fits_of_abs_lt (by rwa [abs_neg]),
      Lib.fits_of_abs_lt (by rwa [abs_abs])⟩
  obtain ⟨-, negN, absN⟩ := small lowN highN
  obtain ⟨-, negD, absD⟩ := small lowD highD
  rw [normalize, if_neg valid]
  rcases lt_or_gt_of_ne valid with negative | positive
  · simp only [if_pos negative, Lib.signed_of_fits negN, Lib.signed_of_fits negD, returned_bind]
    rw [normalize_positive (neg_pos.mpr negative) (by rwa [abs_neg]) (by rwa [abs_neg])]
    simp only [Rational.value, Int.cast_neg, neg_div_neg_eq]
  · simp only [if_neg positive.not_gt, returned_bind]
    exact normalize_positive positive absN absD

theorem not_fits_min {x : Int64} (least : x = Int64.minValue) :
    ¬ Fits 64 (-x.toInt) ∧ ¬ Fits 64 |x.toInt| := by
  rw [least, Int64.toInt_minValue]
  decide

/-- A rational with the least number in it overflows. -/
theorem normalize_of_not_reducible {r : Rational} (valid : r.denominator.toInt ≠ 0)
    (least : ¬ r.Reducible) : normalize r = overflowed := by
  rw [normalize, if_neg valid]
  rw [Rational.Reducible, not_and_or, not_not, not_not] at least
  rcases lt_or_gt_of_ne valid with negative | positive
  · simp only [if_pos negative]
    rcases least with leastN | leastD
    · rw [Lib.signed_of_not_fits (not_fits_min leastN).1, overflowed_bind]
    · rw [signed]
      split
      · rw [returned_bind, Lib.signed_of_not_fits (not_fits_min leastD).1, overflowed_bind]
      · rfl
  · simp only [if_neg positive.not_gt, returned_bind]
    rcases least with leastN | leastD
    · rw [gcd64, Lib.signed_of_not_fits (not_fits_min leastN).2, overflowed_bind, overflowed_bind]
    · rw [leastD, Int64.toInt_minValue] at positive
      exact absurd positive (by decide)

/-! ## Rounding -/

/-- The nearest integer to a quotient, by its remainder. -/
theorem roundEven_div {n d : Int} (pos : 0 < d) :
    roundEven (n / d : ℚ) =
      if d < n % d * 2 ∨ (n % d * 2 = d ∧ n / d % 2 ≠ 0) then n / d + 1 else n / d := by
  have positive : (0 : ℚ) < d := by exact_mod_cast pos
  have below : ⌊(n / d : ℚ)⌋ = n / d := by
    obtain ⟨k, rfl⟩ := Int.eq_ofNat_of_zero_le pos.le
    exact_mod_cast Rat.floor_intCast_div_natCast n k
  have rest : (n / d : ℚ) - (n / d : Int) = (n % d : Int) / d := by
    have sum : ((d * (n / d) + n % d : Int) : ℚ) = n := by rw [Int.mul_ediv_add_emod]
    push_cast at sum
    field_simp
    linarith
  have low : (n % d : Int) / (d : ℚ) < 1 / 2 ↔ n % d * 2 < d := by
    rw [div_lt_div_iff₀ positive two_pos, one_mul]
    exact_mod_cast Iff.rfl
  have high : 1 / 2 < (n % d : Int) / (d : ℚ) ↔ d < n % d * 2 := by
    rw [div_lt_div_iff₀ two_pos positive, one_mul]
    exact_mod_cast Iff.rfl
  simp only [roundEven, below, rest, low, high]
  rcases lt_trichotomy (n % d * 2) d with less | same | more
  · rw [if_pos less, if_neg]
    rintro (more | ⟨same, -⟩)
    · exact absurd more less.not_gt
    · exact absurd same less.ne
  · rw [if_neg same.not_lt, if_neg same.not_gt]
    rcases Int.emod_two_eq_zero_or_one (n / d) with even | odd
    · rw [even, add_zero, if_neg]
      rintro (more | ⟨-, odd⟩)
      · exact absurd same more.ne'
      · exact odd rfl
    · rw [odd, if_pos (.inr ⟨same, one_ne_zero⟩)]
  · rw [if_neg more.not_gt, if_pos more, if_pos (.inl more)]

/-- `round_half_to_even_wide` rounds, as long as its arguments fit. -/
theorem roundHalfToEvenWide_eq {n d : Int} (pos : 0 < d) (nonneg : 0 ≤ n) (fitsN : n < 2 ^ 127)
    (fitsD : d ≤ 2 ^ 126) : roundHalfToEvenWide n d = exactTime (n / d : ℚ) := by
  have quotient : 0 ≤ n / d := Int.ediv_nonneg nonneg pos.le
  have remainder := Int.emod_nonneg n pos.ne'
  have short := Int.emod_lt_of_pos n pos
  have doubled : Fits 128 (n % d * 2) :=
    (Lib.fits_of_nonneg (by linarith)).mpr (by norm_num at fitsD ⊢; linarith)
  have nonnegative : ¬ (n / d : ℚ) < 0 := by
    rw [not_lt]
    exact div_nonneg (by exact_mod_cast nonneg) (by exact_mod_cast pos.le)
  rw [roundHalfToEvenWide, if_neg (not_le.mpr pos), if_neg (not_lt.mpr nonneg)]
  simp only [Int.tdiv_eq_ediv_of_nonneg nonneg, Int.tmod_eq_emod_of_nonneg nonneg,
    Int.tmod_eq_emod_of_nonneg quotient, Lib.signed_of_fits doubled, returned_bind]
  rw [exactTime, halfEven, if_neg nonnegative, roundEven_div pos]
  split
  · next up =>
    -- a quotient that is rounded up is not that of a division by one
    have wide : 2 ≤ d := by
      rcases up with more | ⟨same, -⟩ <;> omega
    have small : n / d + 1 < 2 ^ (128 - 1) := by
      have half : n / d * 2 ≤ n :=
        (mul_le_mul_of_nonneg_left wide quotient).trans (Int.ediv_mul_le n pos.ne')
      norm_num at fitsN ⊢
      linarith
    rw [Lib.signed_of_fits ((Lib.fits_of_nonneg (by linarith)).mpr small), returned_bind]
    rfl
  · rfl

/-! ## The three conversions -/

theorem Rational.den_pos (r : Rational) : (0 : Int) < r.value.den := by
  exact_mod_cast r.value.den_pos

theorem signed_bind {bits : Nat} {value : Int} {next : Int → Outcome Int} :
    (signed bits value >>= next) = if Fits bits value then next value else overflowed := by
  rw [signed]
  split
  · rfl
  · rfl

theorem abs_toInt_le (x : Int64) : |x.toInt| ≤ 2 ^ 63 :=
  abs_le.mpr ⟨x.le_toInt, x.toInt_lt.le⟩

/-- The terms of a rational are no larger than those of its pair. -/
theorem Rational.terms_le {r : Rational} (valid : r.denominator.toInt ≠ 0) :
    |r.value.num| ≤ 2 ^ 63 ∧ (r.value.den : Int) ≤ 2 ^ 63 := by
  have reduced : r.value = Rat.divInt r.numerator.toInt r.denominator.toInt :=
    (Rat.divInt_eq_div _ _).symm
  have magnitude : ∀ {a b : Int}, a ∣ b → b ≠ 0 → |a| ≤ |b| := fun divides some =>
    Int.le_of_dvd (abs_pos.mpr some) ((abs_dvd_abs _ _).mpr divides)
  rw [reduced]
  constructor
  · rcases eq_or_ne r.numerator.toInt 0 with zero | some
    · rw [zero, Rat.zero_divInt]
      norm_num
    · exact (magnitude (Rat.num_dvd _ valid) some).trans (abs_toInt_le _)
  · refine (le_abs_self _).trans ?_
    exact (magnitude (Rat.den_dvd _ _) valid).trans (abs_toInt_le _)

theorem value_eq (r : Rational) : (r.value.num : ℚ) / r.value.den = r.value :=
  Rat.num_div_den r.value

/-- A product of two terms fits 128 bits. -/
theorem abs_mul_le {a b : Int} (ha : |a| ≤ 2 ^ 63) (hb : |b| ≤ 2 ^ 63) : |a * b| ≤ 2 ^ 126 := by
  rw [abs_mul]
  exact (mul_le_mul ha hb (abs_nonneg _) (by norm_num)).trans_eq (by norm_num)

theorem fits_of_abs_le {a : Int} (small : |a| ≤ 2 ^ 126) : Fits 128 a :=
  Lib.fits_of_abs_lt (small.trans_lt (by norm_num))

/-- A time of a reducible base is exact unless its product with a million overflows. -/
theorem ptsToMicroseconds_eq {pts : Int64} {timebase : Rational}
    (valid : timebase.denominator.toInt ≠ 0) (started : 0 ≤ pts.toInt)
    (accepted : 0 ≤ pts.toInt * timebase.value.num) (reducible : timebase.Reducible) :
    ptsToMicroseconds pts timebase =
      if pts.toInt * timebase.value.num * 1000000 < 2 ^ 127 then
        exactTime (pts.toInt * timebase.value * 1000000)
      else overflowed := by
  have product : Fits 128 (pts.toInt * timebase.value.num) :=
    fits_of_abs_le (abs_mul_le (abs_toInt_le pts) (Rational.terms_le valid).1)
  have time : ((pts.toInt * timebase.value.num * 1000000 : Int) : ℚ) /
      ((timebase.value.den : Int) : ℚ) = pts.toInt * timebase.value * 1000000 := by
    push_cast
    rw [mul_right_comm, mul_div_assoc, value_eq]
    ring
  rw [ptsToMicroseconds, normalize_of_reducible valid reducible, returned_bind,
    if_neg (not_lt.mpr started), signed_bind, if_pos product, signed_bind]
  have nonneg : 0 ≤ pts.toInt * timebase.value.num * 1000000 := mul_nonneg accepted (by norm_num)
  simp only [Lib.fits_of_nonneg nonneg]
  split
  · next fits =>
    rw [roundHalfToEvenWide_eq timebase.den_pos nonneg fits
      ((Rational.terms_le valid).2.trans (by norm_num)), time]
  · rfl

theorem frameIndexToMicroseconds_eq {index : Int64} {rate : Rational}
    (valid : rate.denominator.toInt ≠ 0) (started : 0 ≤ index.toInt)
    (positive : 0 < rate.value.num) (reducible : rate.Reducible) :
    frameIndexToMicroseconds index rate =
      if index.toInt * rate.value.den * 1000000 < 2 ^ 127 then
        exactTime (index.toInt / rate.value * 1000000)
      else overflowed := by
  obtain ⟨num, den⟩ := Rational.terms_le valid
  have product : Fits 128 (index.toInt * rate.value.den) :=
    fits_of_abs_le (abs_mul_le (abs_toInt_le index) (by rwa [abs_of_pos rate.den_pos]))
  have time : ((index.toInt * rate.value.den * 1000000 : Int) : ℚ) / (rate.value.num : ℚ) =
      index.toInt / rate.value * 1000000 := by
    have some : (rate.value.num : ℚ) ≠ 0 := by exact_mod_cast positive.ne'
    have some' : (rate.value.den : ℚ) ≠ 0 := by exact_mod_cast rate.den_pos.ne'
    conv_rhs => rw [← value_eq rate]
    push_cast
    field_simp
  rw [frameIndexToMicroseconds, normalize_of_reducible valid reducible, returned_bind,
    if_neg (not_lt.mpr started), if_neg (not_or.mpr ⟨not_le.mpr positive, not_le.mpr rate.den_pos⟩),
    signed_bind, if_pos product, signed_bind]
  have nonneg : 0 ≤ index.toInt * rate.value.den * 1000000 :=
    mul_nonneg (mul_nonneg started rate.den_pos.le) (by norm_num)
  simp only [Lib.fits_of_nonneg nonneg]
  split
  · next fits =>
    rw [roundHalfToEvenWide_eq positive nonneg fits
      (((le_abs_self _).trans num).trans (by norm_num)), time]
  · rfl

/-- An even number is the nearest one up to half a unit away. -/
theorem roundEven_eq_iff {q : ℚ} {k : Int} (even : k % 2 = 0) :
    roundEven q = k ↔ |q - k| ≤ 1 / 2 := by
  have low := Int.floor_le q
  have high := Int.lt_floor_add_one q
  have whole : ∀ {j : Int}, (⌊q⌋ : ℚ) = j ↔ ⌊q⌋ = j := Int.cast_inj
  rw [roundEven, abs_le]
  constructor
  · rintro rfl
    split
    · constructor <;> linarith
    · split
      · push_cast
        constructor <;> linarith
      · next notBelow notAbove =>
        have half : q - ⌊q⌋ = 1 / 2 := le_antisymm (not_lt.mp notAbove) (not_lt.mp notBelow)
        rcases Int.emod_two_eq_zero_or_one ⌊q⌋ with zero | one
        · rw [zero, add_zero, half]
          norm_num
        · rw [one]
          push_cast
          constructor <;> linarith
  · rintro ⟨above, below⟩
    have lower : k ≤ ⌊q⌋ + 1 := by
      have : (k : ℚ) < ((⌊q⌋ + 1 + 1 : Int) : ℚ) := by push_cast; linarith
      exact Int.lt_add_one_iff.mp (by exact_mod_cast this)
    have upper : ⌊q⌋ ≤ k := by
      have : (⌊q⌋ : ℚ) < ((k + 1 : Int) : ℚ) := by push_cast; linarith
      exact Int.lt_add_one_iff.mp (by exact_mod_cast this)
    rcases eq_or_lt_of_le upper with same | less
    · rw [same]
      split
      · rfl
      · rw [if_neg (by linarith), even, add_zero]
    · have next : ⌊q⌋ + 1 = k := le_antisymm less lower
      have cast : (⌊q⌋ : ℚ) + 1 = k := by exact_mod_cast next
      rw [if_neg (by linarith)]
      split
      · exact next
      · have odd : ⌊q⌋ % 2 = 1 := by omega
        rw [odd, next]

/-- The difference of two times over their common denominator. -/
def deltaTerms (sourcePts : Int64) (source : ℚ) (originPts : Int64) (origin : ℚ) : Int × Int :=
  (sourcePts.toInt * source.num * origin.den, originPts.toInt * origin.num * source.den)

/-- The two terms fit, and so does a million times their difference. -/
def DeltaFits (sourcePts : Int64) (source : ℚ) (originPts : Int64) (origin : ℚ) : Prop :=
  let terms := deltaTerms sourcePts source originPts origin
  Fits 128 terms.1 ∧ Fits 128 terms.2 ∧ |terms.1 - terms.2| * 1000000 < 2 ^ 127

theorem deltaTime (sourcePts originPts : Int64) (s o : ℚ) :
    (((deltaTerms sourcePts s originPts o).1 - (deltaTerms sourcePts s originPts o).2 : Int) : ℚ) /
      ((s.den * o.den : Int) : ℚ) = sourcePts.toInt * s - originPts.toInt * o := by
  have sDen : (s.den : ℚ) ≠ 0 := by exact_mod_cast s.den_ne_zero
  have oDen : (o.den : ℚ) ≠ 0 := by exact_mod_cast o.den_ne_zero
  conv_rhs => rw [← Rat.num_div_den s, ← Rat.num_div_den o]
  rw [deltaTerms]
  push_cast
  field_simp

theorem fits_neg {x : Int} (small : |x| * 1000000 < 2 ^ 127) : Fits 128 x ∧ Fits 128 (-x) := by
  have magnitude : |x| < 2 ^ (128 - 1) :=
    (le_mul_of_one_le_right (abs_nonneg x) (by norm_num)).trans_lt small
  exact ⟨Lib.fits_of_abs_lt magnitude, Lib.fits_of_abs_lt (by rwa [abs_neg])⟩

theorem roundEven_nonneg {q : ℚ} (nonneg : 0 ≤ q) : 0 ≤ roundEven q := by
  have floor := Int.floor_nonneg.mpr nonneg
  rw [roundEven]
  split
  · exact floor
  · split
    · exact floor.trans (le_add_of_nonneg_right zero_le_one)
    · exact add_nonneg floor (Int.emod_nonneg _ two_ne_zero)

theorem halfEven_of_nonneg {q : ℚ} (nonneg : 0 ≤ q) : halfEven q = roundEven q :=
  if_neg nonneg.not_gt

theorem halfEven_neg {q : ℚ} (pos : 0 < q) : halfEven (-q) = -roundEven q := by
  rw [halfEven, if_pos (neg_neg_of_pos pos), neg_neg]

/-- The magnitude is checked before it is negated, so the least `int64` is refused. -/
theorem exactTime_negated {q : ℚ} (pos : 0 < q) :
    (do
      let rounded ← exactTime q
      signed 64 (-rounded)) =
      if halfEven (-q) = -2 ^ 63 then thrown "canonical timestamp is outside int64 range"
      else exactTime (-q) := by
  have nonneg := roundEven_nonneg pos.le
  have large : Fits 64 (-roundEven q) ↔ roundEven q ≤ 2 ^ 63 := by
    refine ⟨fun fits => neg_le_neg_iff.mp fits.1, fun small => ⟨neg_le_neg small, ?_⟩⟩
    exact (neg_nonpos.mpr nonneg).trans_lt (by norm_num)
  rw [exactTime, exactTime, halfEven_neg pos, halfEven_of_nonneg pos.le]
  simp only [neg_inj, Lib.fits_of_nonneg nonneg, large]
  rcases lt_trichotomy (roundEven q) (2 ^ 63) with below | same | above
  · rw [if_pos (by exact below), if_neg below.ne, if_pos below.le, returned_bind]
    exact Lib.signed_of_fits (large.mpr below.le)
  · rw [if_neg (by exact same.not_lt), if_pos same, thrown_bind]
  · rw [if_neg (by exact above.not_gt), if_neg above.ne', if_neg above.not_ge, thrown_bind]

/-- A delta is exact unless it overflows or rounds to the least `int64`. -/
theorem ptsDeltaToMicroseconds_eq {sourcePts originPts : Int64} {source origin : Rational}
    (validS : source.denominator.toInt ≠ 0) (validO : origin.denominator.toInt ≠ 0)
    (reducibleS : source.Reducible) (reducibleO : origin.Reducible)
    (fits : DeltaFits sourcePts source.value originPts origin.value) :
    let exact : ℚ := (sourcePts.toInt * source.value - originPts.toInt * origin.value) * 1000000
    ptsDeltaToMicroseconds sourcePts source originPts origin =
      if halfEven exact = -2 ^ 63 then thrown "canonical timestamp is outside int64 range"
      else exactTime exact := by
  intro exact
  obtain ⟨fitsS, fitsO, small⟩ := fits
  obtain ⟨numS, denS⟩ := Rational.terms_le validS
  obtain ⟨numO, denO⟩ := Rational.terms_le validO
  rw [← abs_of_pos source.den_pos] at denS
  rw [← abs_of_pos origin.den_pos] at denO
  have dens := abs_mul_le denS denO
  have densPos := mul_pos source.den_pos origin.den_pos
  have bound := (le_abs_self _).trans dens
  have time := deltaTime sourcePts originPts source.value origin.value
  simp only [ptsDeltaToMicroseconds, normalize_of_reducible validS reducibleS,
    normalize_of_reducible validO reducibleO, returned_bind,
    Lib.signed_of_fits (fits_of_abs_le (abs_mul_le (abs_toInt_le sourcePts) numS)),
    Lib.signed_of_fits (fits_of_abs_le (abs_mul_le (abs_toInt_le originPts) numO)),
    Lib.signed_of_fits (fits_of_abs_le dens)]
  simp only [deltaTerms] at fitsS fitsO small time
  simp only [Lib.signed_of_fits fitsS, Lib.signed_of_fits fitsO,
    Lib.signed_of_fits (fits_neg small).1, returned_bind]
  have scaled : exact = ((sourcePts.toInt * source.value.num * origin.value.den -
      originPts.toInt * origin.value.num * source.value.den : Int) : ℚ) * 1000000 /
      ((source.value.den * origin.value.den : Int) : ℚ) := by
    rw [mul_div_right_comm, time]
  generalize sourcePts.toInt * source.value.num * origin.value.den -
    originPts.toInt * origin.value.num * source.value.den = difference at small scaled ⊢
  split
  · next negative =>
    have nonneg : 0 ≤ -difference * 1000000 :=
      mul_nonneg (neg_nonneg.mpr negative.le) (by norm_num)
    have fits : Fits 128 (-difference * 1000000) :=
      (Lib.fits_of_nonneg nonneg).mpr (by rwa [← abs_of_neg negative])
    have time : ((-difference * 1000000 : Int) : ℚ) /
        ((source.value.den * origin.value.den : Int) : ℚ) = -exact := by
      rw [scaled]
      push_cast
      ring
    have behind : 0 < -exact := by
      rw [← time]
      exact div_pos (by exact_mod_cast mul_pos (neg_pos.mpr negative) (by norm_num))
        (by exact_mod_cast densPos)
    rw [Lib.signed_of_fits (fits_neg small).2, returned_bind, Lib.signed_of_fits fits,
      returned_bind, roundHalfToEvenWide_eq densPos nonneg fits.2 bound, time,
      exactTime_negated behind, neg_neg]
  · next nonnegative =>
    have nonneg : 0 ≤ difference * 1000000 := mul_nonneg (not_lt.mp nonnegative) (by norm_num)
    have fits : Fits 128 (difference * 1000000) :=
      (Lib.fits_of_nonneg nonneg).mpr (by rwa [← abs_of_nonneg (not_lt.mp nonnegative)])
    have time : ((difference * 1000000 : Int) : ℚ) /
        ((source.value.den * origin.value.den : Int) : ℚ) = exact := by
      rw [scaled, Int.cast_mul]
      rfl
    have ahead : 0 ≤ exact := by
      rw [← time]
      exact div_nonneg (by exact_mod_cast nonneg) (by exact_mod_cast densPos.le)
    have positive : halfEven exact ≠ -2 ^ 63 := by
      rw [halfEven_of_nonneg ahead]
      exact (lt_of_lt_of_le (by norm_num) (roundEven_nonneg ahead)).ne'
    rw [Lib.signed_of_fits fits, returned_bind, roundHalfToEvenWide_eq densPos nonneg fits.2 bound,
      time, if_neg positive]

theorem difference_overflows {difference denominator : Int}
    (wide : 2 ^ 127 ≤ |difference| * 1000000) :
    (if difference < 0 then do
      let magnitude ← signed 128 (-difference)
      let numerator ← signed 128 (magnitude * 1000000)
      let rounded ← roundHalfToEvenWide numerator denominator
      signed 64 (-rounded)
    else do
      let numerator ← signed 128 (difference * 1000000)
      roundHalfToEvenWide numerator denominator) = overflowed := by
  split
  · next negative =>
    rw [abs_of_neg negative] at wide
    rw [signed_bind]
    split
    · rw [Lib.signed_of_not_fits fun fits => wide.not_gt fits.2, overflowed_bind]
    · rfl
  · next nonnegative =>
    rw [abs_of_nonneg (not_lt.mp nonnegative)] at wide
    rw [Lib.signed_of_not_fits fun fits => wide.not_gt fits.2, overflowed_bind]

/-- A delta whose terms do not fit overflows. -/
theorem ptsDeltaToMicroseconds_overflowed {sourcePts originPts : Int64} {source origin : Rational}
    (validS : source.denominator.toInt ≠ 0) (validO : origin.denominator.toInt ≠ 0)
    (reducibleS : source.Reducible) (reducibleO : origin.Reducible)
    (large : ¬ DeltaFits sourcePts source.value originPts origin.value) :
    ptsDeltaToMicroseconds sourcePts source originPts origin = overflowed := by
  rw [ptsDeltaToMicroseconds, normalize_of_reducible validS reducibleS, returned_bind,
    normalize_of_reducible validO reducibleO, returned_bind]
  simp only [DeltaFits, deltaTerms] at large
  rw [signed_bind, signed_bind]
  split
  · split
    · next fitsS =>
      rw [signed_bind, signed_bind]
      split
      · split
        · next fitsO =>
          have wide : 2 ^ 127 ≤ |sourcePts.toInt * source.value.num * origin.value.den -
              originPts.toInt * origin.value.num * source.value.den| * 1000000 :=
            not_lt.mp fun small => large ⟨fitsS, fitsO, small⟩
          rw [signed_bind, signed_bind]
          generalize sourcePts.toInt * source.value.num * origin.value.den -
            originPts.toInt * origin.value.num * source.value.den = difference at wide ⊢
          split
          · split
            · exact difference_overflows wide
            · rfl
          · rfl
        · rfl
      · rfl
    · rfl
  · rfl

/-! ## When a time is exact -/

def PtsAccepted (pts : Int64) (timebase : Rational) : Prop :=
  timebase.denominator.toInt ≠ 0 ∧ 0 ≤ pts.toInt ∧ 0 ≤ pts.toInt * timebase.value

def DeltaAccepted (source origin : Rational) : Prop :=
  source.denominator.toInt ≠ 0 ∧ origin.denominator.toInt ≠ 0

def FrameAccepted (index : Int64) (rate : Rational) : Prop :=
  rate.denominator.toInt ≠ 0 ∧ 0 ≤ index.toInt ∧ 0 < rate.value

theorem exactTime_ne_overflowed (q : ℚ) : overflowed ≠ exactTime q := by
  rw [exactTime]
  split
  · exact nofun
  · exact nofun

theorem ptsToMicroseconds_exact_iff {pts : Int64} {timebase : Rational}
    (accepted : PtsAccepted pts timebase) :
    ptsToMicroseconds pts timebase = exactTime (pts.toInt * timebase.value * 1000000) ↔
      timebase.Reducible ∧ pts.toInt * timebase.value.num * 1000000 < 2 ^ 127 := by
  obtain ⟨valid, started, ahead⟩ := accepted
  by_cases reducible : timebase.Reducible
  · have nonneg : 0 ≤ pts.toInt * timebase.value.num := by
      rw [← value_eq, ← mul_div_assoc,
        le_div_iff₀ (by exact_mod_cast timebase.den_pos), zero_mul] at ahead
      exact_mod_cast ahead
    rw [ptsToMicroseconds_eq valid started nonneg reducible]
    split
    · next fits => exact iff_of_true rfl ⟨reducible, fits⟩
    · next large => exact iff_of_false (exactTime_ne_overflowed _) fun both => large both.2
  · rw [ptsToMicroseconds, normalize_of_not_reducible valid reducible, overflowed_bind]
    exact iff_of_false (exactTime_ne_overflowed _) fun both => reducible both.1

theorem frameIndexToMicroseconds_exact_iff {index : Int64} {rate : Rational}
    (accepted : FrameAccepted index rate) :
    frameIndexToMicroseconds index rate = exactTime (index.toInt / rate.value * 1000000) ↔
      rate.Reducible ∧ index.toInt * rate.value.den * 1000000 < 2 ^ 127 := by
  obtain ⟨valid, started, positive⟩ := accepted
  by_cases reducible : rate.Reducible
  · rw [frameIndexToMicroseconds_eq valid started (Rat.num_pos.mpr positive) reducible]
    split
    · next fits => exact iff_of_true rfl ⟨reducible, fits⟩
    · next large => exact iff_of_false (exactTime_ne_overflowed _) fun both => large both.2
  · rw [frameIndexToMicroseconds, normalize_of_not_reducible valid reducible, overflowed_bind]
    exact iff_of_false (exactTime_ne_overflowed _) fun both => reducible both.1

theorem halfEven_least {q : ℚ} : halfEven q = -2 ^ 63 ↔ |q + 2 ^ 63| ≤ 1 / 2 := by
  have even : (2 ^ 63 : Int) % 2 = 0 := by norm_num
  rcases lt_or_ge q 0 with negative | nonnegative
  · have magnitude : |-q - ((2 ^ 63 : Int) : ℚ)| = |q + 2 ^ 63| := by
      rw [← abs_neg]
      push_cast
      ring_nf
    rw [halfEven, if_pos negative, neg_inj, roundEven_eq_iff even, magnitude]
  · rw [halfEven_of_nonneg nonnegative]
    refine iff_of_false (fun least => ?_) fun near => ?_
    · exact absurd (least ▸ roundEven_nonneg nonnegative) (by norm_num)
    · linarith [(abs_le.mp near).2]

theorem exactTime_of_least {q : ℚ} (least : halfEven q = -2 ^ 63) :
    exactTime q = returned (-2 ^ 63) := by
  rw [exactTime, least]
  rfl

theorem ptsDeltaToMicroseconds_exact_iff {sourcePts originPts : Int64} {source origin : Rational}
    (accepted : DeltaAccepted source origin) :
    ptsDeltaToMicroseconds sourcePts source originPts origin =
        exactTime
          ((sourcePts.toInt * source.value - originPts.toInt * origin.value) * 1000000) ↔
      (source.Reducible ∧ origin.Reducible) ∧
        DeltaFits sourcePts source.value originPts origin.value ∧
        1 / 2 < |(sourcePts.toInt * source.value - originPts.toInt * origin.value) * 1000000 +
          2 ^ 63| := by
  obtain ⟨validS, validO⟩ := accepted
  by_cases reducible : source.Reducible ∧ origin.Reducible
  · by_cases fits : DeltaFits sourcePts source.value originPts origin.value
    · rw [ptsDeltaToMicroseconds_eq validS validO reducible.1 reducible.2 fits]
      split
      · next least =>
        rw [exactTime_of_least least]
        exact iff_of_false nofun fun all => all.2.2.not_ge (halfEven_least.mp least)
      · next above =>
        exact iff_of_true rfl ⟨reducible, fits, not_le.mp fun near => above (halfEven_least.mpr near)⟩
    · rw [ptsDeltaToMicroseconds_overflowed validS validO reducible.1 reducible.2 fits]
      exact iff_of_false (exactTime_ne_overflowed _) fun all => fits all.2.1
  · have stopped : ptsDeltaToMicroseconds sourcePts source originPts origin = overflowed := by
      rw [ptsDeltaToMicroseconds]
      rcases not_and_or.mp reducible with leastS | leastO
      · rw [normalize_of_not_reducible validS leastS, overflowed_bind]
      · by_cases reducibleS : source.Reducible
        · rw [normalize_of_reducible validS reducibleS, returned_bind,
            normalize_of_not_reducible validO leastO, overflowed_bind]
        · rw [normalize_of_not_reducible validS reducibleS, overflowed_bind]
    rw [stopped]
    exact iff_of_false (exactTime_ne_overflowed _) fun all => reducible all.1

/-- When the three conversions are exact or refuse. -/
theorem canonical_timing_exact_iff (pts sourcePts originPts index : Int64)
    (timebase source origin rate : Rational) :
    (PtsAccepted pts timebase →
      (ptsToMicroseconds pts timebase = exactTime (pts.toInt * timebase.value * 1000000) ↔
        timebase.Reducible ∧ pts.toInt * timebase.value.num * 1000000 < 2 ^ 127)) ∧
    (DeltaAccepted source origin →
      (ptsDeltaToMicroseconds sourcePts source originPts origin =
          exactTime
            ((sourcePts.toInt * source.value - originPts.toInt * origin.value) * 1000000) ↔
        (source.Reducible ∧ origin.Reducible) ∧
          DeltaFits sourcePts source.value originPts origin.value ∧
          1 / 2 < |(sourcePts.toInt * source.value - originPts.toInt * origin.value) * 1000000 +
            2 ^ 63|)) ∧
    (FrameAccepted index rate →
      (frameIndexToMicroseconds index rate = exactTime (index.toInt / rate.value * 1000000) ↔
        rate.Reducible ∧ index.toInt * rate.value.den * 1000000 < 2 ^ 127)) :=
  ⟨ptsToMicroseconds_exact_iff, ptsDeltaToMicroseconds_exact_iff, frameIndexToMicroseconds_exact_iff⟩

/-- The thirtieth second of a stream with a time base of 1/90000. -/
theorem canonical_timing_exact_sample :
    ptsToMicroseconds 2700000 ⟨1, 90000⟩ =
      exactTime ((2700000 : Int64).toInt * (⟨1, 90000⟩ : Rational).value * 1000000) :=
  ((canonical_timing_exact_iff 2700000 0 0 0 ⟨1, 90000⟩ ⟨1, 1⟩ ⟨1, 1⟩ ⟨1, 1⟩).1
    ⟨by decide, by decide, by decide +kernel⟩).mpr
    ⟨⟨by decide, by decide⟩, by decide +kernel⟩

/-- A product past 128 bits, and the least `int64` refused. -/
theorem canonical_timing_inexact :
    (PtsAccepted 4611686018427387904 ⟨4611686018427387904, 1⟩ ∧
      ptsToMicroseconds 4611686018427387904 ⟨4611686018427387904, 1⟩ = overflowed) ∧
    DeltaAccepted ⟨1, 1000000⟩ ⟨1, 1⟩ ∧
      exactTime ((Int64.minValue.toInt * (⟨1, 1000000⟩ : Rational).value -
        (0 : Int64).toInt * (⟨1, 1⟩ : Rational).value) * 1000000) = returned (-2 ^ 63) ∧
      ptsDeltaToMicroseconds Int64.minValue ⟨1, 1000000⟩ 0 ⟨1, 1⟩ =
        thrown "canonical timestamp is outside int64 range" :=
  ⟨⟨⟨by decide, by decide, by decide +kernel⟩, by decide +kernel⟩, ⟨by decide, by decide⟩,
    by decide +kernel, by decide +kernel⟩

end Svp.Media

import Svp.Lib.Binary64

/-!
# Order and exactness of rounding

Rounding is monotone (`round64_mono`) and leaves doubles as they are
(`round64_representable`), so comparing a rounded result with a double is comparing the
exact one, but for results within half a unit of it.
-/

namespace Svp.Lib

/-! ## To integers -/

theorem roundEven_intCast (n : ℤ) : roundEven n = n := by
  simp [roundEven]

theorem floor_le_roundEven (q : ℚ) : ⌊q⌋ ≤ roundEven q := by
  have even := Int.emod_nonneg ⌊q⌋ two_ne_zero
  simp only [roundEven]
  split_ifs <;> linarith

theorem roundEven_le_floor_succ (q : ℚ) : roundEven q ≤ ⌊q⌋ + 1 := by
  have even := Int.emod_lt_of_pos ⌊q⌋ two_pos
  simp only [roundEven]
  split_ifs <;> linarith

theorem roundEven_mono {p q : ℚ} (le : p ≤ q) : roundEven p ≤ roundEven q := by
  rcases (Int.floor_mono le).lt_or_eq with less | same
  · calc
      roundEven p ≤ ⌊p⌋ + 1 := roundEven_le_floor_succ p
      _ ≤ ⌊q⌋ := less
      _ ≤ roundEven q := floor_le_roundEven q
  · have bit := Int.emod_two_eq ⌊q⌋
    simp only [roundEven, same]
    split_ifs <;> first | linarith | omega

/-! ## To the last place -/

theorem place_pos (e : ℤ) : (0 : ℚ) < 2 ^ e := zpow_pos two_pos e

theorem lastPlace_mono {p q : ℚ} (pos : 0 < p) (le : p ≤ q) : lastPlace p ≤ lastPlace q := by
  have logs : Int.log 2 p ≤ Int.log 2 q := Int.log_mono_right pos le
  exact max_le_max (sub_le_sub_right logs _) le_rfl

theorem roundMagnitude_nonneg {q : ℚ} (nonneg : 0 ≤ q) : 0 ≤ roundMagnitude q := by
  have scaled : 0 ≤ q / 2 ^ lastPlace q := div_nonneg nonneg (place_pos _).le
  have rounded : 0 ≤ roundEven (q / 2 ^ lastPlace q) :=
    (Int.floor_nonneg.mpr scaled).trans (floor_le_roundEven _)
  exact mul_nonneg (Int.cast_nonneg rounded) (place_pos _).le

/-- What is a whole number of last places is not rounded. -/
theorem roundMagnitude_eq {q : ℚ} {n : ℤ} (whole : q = n * 2 ^ lastPlace q) :
    roundMagnitude q = q := by
  have scaled : q / 2 ^ lastPlace q = n := (div_eq_iff (place_pos _).ne').mpr whole
  rw [roundMagnitude, scaled, roundEven_intCast, ← whole]

/-- A double of at least one last place, whatever the place it is written with. -/
theorem roundMagnitude_of_place {q : ℚ} {n e : ℤ} (le : lastPlace q ≤ e) (eq : q = n * 2 ^ e) :
    roundMagnitude q = q := by
  obtain ⟨shift, rfl⟩ := Int.le.dest le
  refine roundMagnitude_eq (n := n * 2 ^ shift) (eq.trans ?_)
  rw [zpow_add₀ two_ne_zero, zpow_natCast]
  push_cast
  ring

theorem zpow_eq_places (place : ℤ) (shift : ℕ) :
    (2 : ℚ) ^ (place + shift) = ((2 ^ shift : ℤ) : ℚ) * 2 ^ place := by
  rw [zpow_add₀ two_ne_zero, zpow_natCast]
  push_cast
  ring

/-- The scaled number keeps to the power of two it is under. -/
theorem roundMagnitude_le_zpow {q : ℚ} {e : ℤ} (place : lastPlace q ≤ e) (le : q ≤ 2 ^ e) :
    roundMagnitude q ≤ 2 ^ e := by
  obtain ⟨shift, rfl⟩ := Int.le.dest place
  have scaled : q / 2 ^ lastPlace q ≤ ((2 ^ shift : ℤ) : ℚ) := by
    rw [div_le_iff₀ (place_pos _), ← zpow_eq_places]
    exact le
  have rounded := roundEven_mono scaled
  rw [roundEven_intCast] at rounded
  rw [roundMagnitude, zpow_eq_places]
  exact mul_le_mul_of_nonneg_right (Int.cast_le.mpr rounded) (place_pos _).le

theorem zpow_le_roundMagnitude {q : ℚ} {e : ℤ} (place : lastPlace q ≤ e) (le : 2 ^ e ≤ q) :
    2 ^ e ≤ roundMagnitude q := by
  obtain ⟨shift, rfl⟩ := Int.le.dest place
  have scaled : ((2 ^ shift : ℤ) : ℚ) ≤ q / 2 ^ lastPlace q := by
    rw [le_div_iff₀ (place_pos _), ← zpow_eq_places]
    exact le
  have rounded := roundEven_mono scaled
  rw [roundEven_intCast] at rounded
  rw [roundMagnitude, zpow_eq_places]
  exact mul_le_mul_of_nonneg_right (Int.cast_le.mpr rounded) (place_pos _).le

theorem roundMagnitude_mono {p q : ℚ} (pos : 0 < p) (le : p ≤ q) :
    roundMagnitude p ≤ roundMagnitude q := by
  rcases (lastPlace_mono pos le).lt_or_eq with less | same
  · -- a power of two stands between the two places
    have normal : lastPlace q = Int.log 2 q - (significandBits - 1) := by
      have least : leastExponent ≤ lastPlace p := le_max_right _ _
      rcases max_choice (Int.log 2 q - (significandBits - 1)) leastExponent with big | small
      · exact big
      · exact absurd (small ▸ less : lastPlace p < leastExponent) least.not_gt
    have logs : Int.log 2 p < Int.log 2 q := by
      have low : Int.log 2 p - (significandBits - 1) ≤ lastPlace p := le_max_left _ _
      linarith
    have below : p ≤ 2 ^ Int.log 2 q := by
      have succ := Int.lt_zpow_succ_log_self one_lt_two p
      exact succ.le.trans (zpow_le_zpow_right₀ one_le_two logs)
    have above : 2 ^ Int.log 2 q ≤ q := Int.zpow_log_le_self one_lt_two (pos.trans_le le)
    have bits : (0 : ℤ) ≤ significandBits - 1 := by decide
    have room : lastPlace q ≤ Int.log 2 q := by linarith
    exact (roundMagnitude_le_zpow (less.le.trans room) below).trans
      (zpow_le_roundMagnitude room above)
  · rw [roundMagnitude, roundMagnitude, same]
    have scaled : p / 2 ^ lastPlace q ≤ q / 2 ^ lastPlace q :=
      div_le_div_of_nonneg_right le (place_pos _).le
    exact mul_le_mul_of_nonneg_right (Int.cast_le.mpr (roundEven_mono scaled)) (place_pos _).le

/-! ## Doubles -/

theorem round64_neg (q : ℚ) : round64 (-q) = -round64 q := by
  have zero : roundMagnitude 0 = 0 := by simp [roundMagnitude, roundEven]
  unfold round64
  rcases lt_trichotomy q 0 with neg | rfl | pos
  · rw [if_neg (neg_pos.mpr neg).not_gt, if_pos neg, neg_neg]
  · simp [zero]
  · rw [if_pos (neg_neg_iff_pos.mpr pos), if_neg pos.not_gt, neg_neg]

theorem round64_of_nonneg {q : ℚ} (nonneg : 0 ≤ q) : round64 q = roundMagnitude q :=
  if_neg nonneg.not_gt

theorem round64_zero : round64 0 = 0 := by
  simp [round64, roundMagnitude, roundEven]

theorem round64_mono {p q : ℚ} (le : p ≤ q) : round64 p ≤ round64 q := by
  have nonneg : ∀ {q : ℚ}, 0 ≤ q → 0 ≤ round64 q := fun h =>
    (round64_of_nonneg h).symm ▸ roundMagnitude_nonneg h
  have positive : ∀ {p q : ℚ}, 0 < p → p ≤ q → round64 p ≤ round64 q := by
    intro p q pos le
    rw [round64_of_nonneg pos.le, round64_of_nonneg (pos.le.trans le)]
    exact roundMagnitude_mono pos le
  rcases lt_or_ge 0 p with pos | nonpos
  · exact positive pos le
  · have negative : round64 p ≤ 0 := by
      rw [← neg_nonneg, ← round64_neg]
      exact nonneg (neg_nonneg.mpr nonpos)
    rcases lt_or_ge q 0 with neg | above
    · rw [← neg_le_neg_iff, ← round64_neg, ← round64_neg]
      exact positive (neg_pos.mpr neg) (neg_le_neg le)
    · exact negative.trans (nonneg above)

theorem round64_nonneg {q : ℚ} (nonneg : 0 ≤ q) : 0 ≤ round64 q :=
  round64_zero.symm.trans_le (round64_mono nonneg)

/-- A double: a significand below 2^53 at a place that is not too small. -/
def Representable (q : ℚ) : Prop :=
  ∃ n e : ℤ, leastExponent ≤ e ∧ |n| < 2 ^ 53 ∧ q = n * 2 ^ e

theorem round64_representable {q : ℚ} (double : Representable q) : round64 q = q := by
  have positive : ∀ {q : ℚ} {n e : ℤ}, leastExponent ≤ e → n < 2 ^ 53 → 0 < q →
      q = n * 2 ^ e → round64 q = q := by
    intro q n e least small pos eq
    rw [round64_of_nonneg pos.le]
    refine roundMagnitude_of_place (max_le ?_ least) eq
    have below : q < 2 ^ (53 + e) := by
      rw [eq, zpow_add₀ two_ne_zero]
      exact mul_lt_mul_of_pos_right (by exact_mod_cast small) (place_pos e)
    have logs : Int.log 2 q < 53 + e := (Int.lt_zpow_iff_log_lt one_lt_two pos).mp below
    rw [significandBits]
    linarith
  obtain ⟨n, e, least, small, eq⟩ := double
  obtain ⟨low, high⟩ := abs_lt.mp small
  rcases lt_trichotomy q 0 with neg | rfl | pos
  · have flipped : -q = (-n : ℤ) * 2 ^ e := by rw [eq]; push_cast; ring
    have exact := positive least (neg_lt.mp low) (neg_pos.mpr neg) flipped
    rwa [round64_neg, neg_inj] at exact
  · exact round64_zero
  · exact positive least high pos eq

theorem representable_intCast {n : ℤ} (small : |n| < 2 ^ 53) : Representable n :=
  ⟨n, 0, by decide, small, by simp⟩

theorem round64_natCast {n : ℕ} (small : n < 2 ^ 53) : round64 n = n := by
  have double : Representable ((n : ℤ) : ℚ) := representable_intCast (by
    rw [abs_of_nonneg (Int.natCast_nonneg n)]
    exact_mod_cast small)
  simpa using round64_representable double

/-- Rounding does not pass a double. -/
theorem round64_le_of_le {p q : ℚ} (double : Representable q) (le : p ≤ q) : round64 p ≤ q :=
  (round64_mono le).trans_eq (round64_representable double)

theorem le_round64_of_le {p q : ℚ} (double : Representable p) (le : p ≤ q) : p ≤ round64 q :=
  (round64_representable double).symm.trans_le (round64_mono le)

/-! ## The error -/

theorem abs_roundEven_sub_le (q : ℚ) : |(roundEven q : ℚ) - q| ≤ 1 / 2 := by
  have low := Int.floor_le q
  have high := Int.lt_floor_add_one q
  have bit : ((⌊q⌋ % 2 : ℤ) : ℚ) = 0 ∨ ((⌊q⌋ % 2 : ℤ) : ℚ) = 1 := by
    rcases Int.emod_two_eq ⌊q⌋ with even | odd
    · exact .inl (by rw [even, Int.cast_zero])
    · exact .inr (by rw [odd, Int.cast_one])
  simp only [roundEven]
  rw [abs_le]
  split_ifs
  · constructor <;> linarith
  · push_cast
    constructor <;> linarith
  · push_cast at bit ⊢
    rcases bit with even | odd
    · rw [even]
      constructor <;> linarith
    · rw [odd]
      constructor <;> linarith

theorem abs_roundMagnitude_sub_le {q : ℚ} {place : ℤ} (le : lastPlace q ≤ place) :
    |roundMagnitude q - q| ≤ 2 ^ place / 2 := by
  have pos := place_pos (lastPlace q)
  have scaled : roundMagnitude q - q =
      (roundEven (q / 2 ^ lastPlace q) - q / 2 ^ lastPlace q) * 2 ^ lastPlace q := by
    rw [roundMagnitude, sub_mul, div_mul_cancel₀ _ pos.ne']
  calc
    |roundMagnitude q - q|
      = |(roundEven (q / 2 ^ lastPlace q) : ℚ) - q / 2 ^ lastPlace q| * 2 ^ lastPlace q := by
        rw [scaled, abs_mul, abs_of_pos pos]
    _ ≤ 1 / 2 * 2 ^ lastPlace q :=
        mul_le_mul_of_nonneg_right (abs_roundEven_sub_le _) pos.le
    _ ≤ 2 ^ place / 2 := by
        have places : (2 : ℚ) ^ lastPlace q ≤ 2 ^ place := zpow_le_zpow_right₀ one_le_two le
        linarith

/-- Below a power of two the error is at most half of its last place. -/
theorem abs_round64_sub_le {q : ℚ} {e : ℤ} (nonneg : 0 ≤ q) (below : q < 2 ^ (e + 1))
    (normal : leastExponent ≤ e - 52) : |round64 q - q| ≤ 2 ^ (e - 52) / 2 := by
  rcases nonneg.lt_or_eq with pos | rfl
  · rw [round64_of_nonneg nonneg]
    refine abs_roundMagnitude_sub_le (max_le ?_ normal)
    have logs : Int.log 2 q < e + 1 := (Int.lt_zpow_iff_log_lt one_lt_two pos).mp below
    rw [significandBits]
    linarith
  · rw [round64_zero, sub_zero, abs_zero]
    exact div_nonneg (place_pos _).le two_pos.le

/-- Rounding keeps the order of two fractions up to one, unless they are long. -/
theorem round64_ratio_le_iff {n d p q : ℕ} (dPos : 0 < d) (qPos : 0 < q) (small : n ≤ d) (part : p ≤ q)
    (short : d * q < 2 ^ 52) : round64 (n / d) ≤ round64 (p / q) ↔ n * q ≤ p * d := by
  have dPos' : (0 : ℚ) < d := by exact_mod_cast dPos
  have qPos' : (0 : ℚ) < q := by exact_mod_cast qPos
  rw [show n * q ≤ p * d ↔ (n : ℚ) / d ≤ p / q by rw [div_le_div_iff₀ dPos' qPos']; norm_cast]
  refine ⟨?_, round64_mono⟩
  intro le
  by_contra above
  have above : p * d + 1 ≤ n * q := by
    rw [not_le, div_lt_div_iff₀ qPos' dPos'] at above
    exact_mod_cast above
  -- Two different fractions are further apart than the errors reach.
  have gap : (p : ℚ) / q + 1 / (d * q) ≤ n / d := by
    rw [div_add_div _ _ qPos'.ne' (mul_pos dPos' qPos').ne', div_le_div_iff₀ (by positivity) dPos']
    have scaled : ((p : ℚ) * d + 1) * (d * q) ≤ n * q * (d * q) :=
      mul_le_mul_of_nonneg_right (by exact_mod_cast above) (by positivity)
    linarith
  have wide : (1 : ℚ) / 4503599627370496 < 1 / (d * q) := by
    rw [div_lt_div_iff₀ (by norm_num) (by positivity)]
    have : ((d * q : ℕ) : ℚ) < 2 ^ 52 := by exact_mod_cast short
    push_cast at this
    linarith
  have first := @abs_round64_sub_le (n / d) 0 (by positivity)
    ((div_le_one dPos').mpr (by exact_mod_cast small) |>.trans_lt (by norm_num)) (by decide)
  have second := @abs_round64_sub_le (p / q) 0 (by positivity)
    ((div_le_one qPos').mpr (by exact_mod_cast part) |>.trans_lt (by norm_num)) (by decide)
  obtain ⟨low, -⟩ := abs_le.mp first
  obtain ⟨-, high⟩ := abs_le.mp second
  norm_num at low high
  linarith

end Svp.Lib

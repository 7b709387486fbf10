import Mathlib

/-!
# Rounding to binary64

A finite double is the rational number it stands for, and an operation on doubles is
the exact one followed by `round64`: to the nearest double, ties to the even
significand, with gradual underflow. Overflow is not rounded to an infinity: a result
past the largest double keeps its size, and compares with doubles as the infinity does.
-/

namespace Svp.Lib

/-- The nearest integer, the even one at a midpoint. -/
def roundEven (q : ℚ) : ℤ :=
  let below := ⌊q⌋
  if q - below < 1 / 2 then below
  else if 1 / 2 < q - below then below + 1
  else below + below % 2

def significandBits : ℤ := 53

/-- The exponent of the smallest positive double. -/
def leastExponent : ℤ := -1074

/-- The exponent of the last place of a positive double. -/
def lastPlace (q : ℚ) : ℤ := max (Int.log 2 q - (significandBits - 1)) leastExponent

def roundMagnitude (q : ℚ) : ℚ := roundEven (q / 2 ^ lastPlace q) * 2 ^ lastPlace q

def round64 (q : ℚ) : ℚ := if q < 0 then -roundMagnitude (-q) else roundMagnitude q

end Svp.Lib

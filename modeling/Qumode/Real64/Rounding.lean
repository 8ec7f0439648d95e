import Qumode.Real64.Basic

/-!
# Rounding quotients to integers and to doubles

`roundHalfEven` rounds an exact quotient to an integer, a half going to the even neighbour.
`Real64.ofRatio` rounds it to the nearest double by the same rule, and `Real64.ofDecimal` is that
for a decimal number. Everything is integer arithmetic, so each result is exact by construction and
no intermediate value is rounded.
-/

namespace Qumode

/-- The integer nearest to `num / den`; of two equally near ones, the even one. -/
def roundHalfEven (num den : Nat) : Nat :=
  let quotient := num / den
  let twice := 2 * (num % den)
  if twice < den then quotient
  else if den < twice then quotient + 1
  else if quotient % 2 = 0 then quotient else quotient + 1

theorem roundHalfEven_mul {q den : Nat} (h : 0 < den) : roundHalfEven (q * den) den = q := by
  simp [roundHalfEven, Nat.mul_div_cancel _ h, h]

/-- The integer nearest to `num / den * 2 ^ power`. -/
def roundScaled (num den : Nat) : Int → Nat
  | .ofNat power => roundHalfEven (num * Nat.pow 2 power) den
  | .negSucc power => roundHalfEven num (den * Nat.pow 2 (power + 1))

/-- Whether `2 ^ power ≤ num / den`. -/
def powerLe (num den : Nat) : Int → Bool
  | .ofNat power => decide (den * Nat.pow 2 power ≤ num)
  | .negSucc power => decide (den ≤ num * Nat.pow 2 (power + 1))

/-- The largest power of two that does not exceed the positive quotient `num / den`. -/
def floorLog2 (num den : Nat) : Int :=
  let guess : Int := (num.log2 : Int) - den.log2
  if powerLe num den guess then guess else guess - 1

namespace Real64

/-- The magnitude pattern nearest to the positive quotient `num / den`. A quotient in
`[2 ^ k, 2 ^ (k + 1))` lies on a grid of step `2 ^ (k - 52)`, and never finer than `2 ^ -1074`; the
patterns on each grid are consecutive, so a carry out of the significand needs no care. -/
def nearestMagnitude (num den : Nat) : Nat :=
  let step := max (floorLog2 num den - 52) (-1074)
  min ((step + 1074).toNat * numFractions + roundScaled num den (-step)) infinityBits

/-- The double nearest to the quotient `num / den` with the given sign. -/
def ofRatio (isNegative : Bool) (num den : Nat) : Real64 :=
  ofMagnitude isNegative (if num = 0 then 0 else nearestMagnitude num den)

/-- The double nearest to `significand * 10 ^ exponent` with the given sign: infinite when that is
too large. Exponents that settle the answer by themselves are not expanded. -/
def ofDecimal (isNegative : Bool) (significand : Nat) (exponent : Int) : Real64 :=
  if significand = 0 then ofMagnitude isNegative 0
  else if 400 < exponent then infinity isNegative
  else if exponent < -(400 + significand.log2 : Int) then ofMagnitude isNegative 0
  else match exponent with
    | .ofNat power => ofRatio isNegative (significand * Nat.pow 10 power) 1
    | .negSucc power => ofRatio isNegative significand (Nat.pow 10 (power + 1))

/-- The double nearest to an integer. -/
def ofInt (n : Int) : Real64 := ofDecimal (decide (n < 0)) n.natAbs 0

end Real64

end Qumode

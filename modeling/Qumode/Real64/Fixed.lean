import Qumode.Real64.Rounding

/-!
# Reals with a fixed number of decimal places

`toFixed?` writes the exact binary value with a given number of places, a half in the last place
going to the even digit. The sign of a negative zero is kept, and so is the sign of a negative real
that rounds to zero. A real has a text for at most `maxPlaces` places; beyond that there is none,
whatever the real.
-/

namespace Qumode.Real64

/-- The largest number of places that a real can be written with. -/
def maxPlaces : Nat := 65535

/-- The integer nearest to the magnitude of a finite real times `10 ^ places`. -/
def scaledMagnitude (x : Real64) (places : Nat) : Nat :=
  roundScaled (x.significand * Nat.pow 10 places) 1 x.exponent

/-- The decimal digits of `n` with a point before the last `places` of them, and at least one digit
before the point. -/
def withPoint (n places : Nat) : List Char :=
  let digits := Nat.toDigits 10 n
  let padded := List.replicate (places + 1 - digits.length) '0' ++ digits
  let whole := padded.take (padded.length - places)
  if places = 0 then whole else whole ++ '.' :: padded.drop (padded.length - places)

/-- The real with `places` decimal places. -/
def fixedText (x : Real64) (places : Nat) : String :=
  if x.isNaN then "NaN"
  else
    let magnitude :=
      if x.isInfinite then ['i', 'n', 'f'] else withPoint (x.scaledMagnitude places) places
    String.ofList (if x.negative then '-' :: magnitude else magnitude)

/-- The real with `places` decimal places, if that many can be written. -/
def toFixed? (x : Real64) (places : Nat) : Option String :=
  if places ≤ maxPlaces then some (x.fixedText places) else none

theorem toFixed?_isSome {x : Real64} {places : Nat} :
    (x.toFixed? places).isSome ↔ places ≤ maxPlaces := by
  simp only [toFixed?]; split <;> simp [*]

end Qumode.Real64

import Qumode.Document.Numeral

/-!
# Decimals

A number as JSON text writes it: `1`, `1.0` and `1e0` are three decimals, and so are `0` and `-0`.
Only a decimal without fraction and exponent is an integer. `Decimal.toReal` is the nearest double,
and `Decimal.ofReal` writes a finite double with the fewest digits that `toReal` reads back.
-/

namespace Qumode.Json

/-- A decimal: `whole`, then the digits of the fraction, then a power of ten. -/
structure Decimal where
  negative : Bool
  whole : Nat
  fraction : List Char := []
  exponent : Option Int := none
  deriving DecidableEq, Repr

namespace Decimal

def ofInt (n : Int) : Decimal := ⟨decide (n < 0), n.natAbs, [], none⟩

/-- The integer that the decimal is, if it is one. A negative zero is none: it is the real of that
sign. -/
def toInt? (n : Decimal) : Option Int :=
  if n.fraction.isEmpty && n.exponent.isNone then
    if n.negative then (if n.whole = 0 then none else some (-n.whole)) else some n.whole
  else none

/-- The digits before the power of ten, read as one integer. -/
def significand (n : Decimal) : Nat := Nat.ofDigitChars 10 n.fraction n.whole

/-- The power of ten that scales `significand`. -/
def power (n : Decimal) : Int := n.exponent.getD 0 - n.fraction.length

/-- The nearest double, infinite when the decimal is too large for one. -/
def toReal (n : Decimal) : Real64 := Real64.ofDecimal n.negative n.significand n.power

/-- The decimal as written. -/
def text (n : Decimal) : List Char :=
  (if n.negative then ['-'] else []) ++ Nat.toDigits 10 n.whole
    ++ (if n.fraction.isEmpty then [] else '.' :: n.fraction)
    ++ (match n.exponent with
        | none => []
        | some (.ofNat power) => 'e' :: Nat.toDigits 10 power
        | some (.negSucc power) => 'e' :: '-' :: Nat.toDigits 10 (power + 1))

/-- How the decimal `significand * 10 ^ power` is laid out: without an exponent when its point
falls among the first sixteen places or the five before them, and always with a fraction then. -/
def layout (isNegative : Bool) (significand : Nat) (power : Int) : Decimal :=
  let digits := Nat.toDigits 10 significand
  let point : Int := digits.length + power
  if 0 ≤ power ∧ point ≤ 16 then
    ⟨isNegative, significand * Nat.pow 10 power.toNat, ['0'], none⟩
  else if 0 < point ∧ point ≤ 16 then
    ⟨isNegative, Nat.ofDigitChars 10 (digits.take point.toNat) 0, digits.drop point.toNat, none⟩
  else if -5 < point ∧ point ≤ 0 then
    ⟨isNegative, 0, List.replicate (-point).toNat '0' ++ digits, none⟩
  else
    ⟨isNegative, Nat.ofDigitChars 10 (digits.take 1) 0, digits.drop 1, some (point - 1)⟩

/-- The two multiples of `10 ^ power` around the magnitude of `x`, the nearer first. -/
def neighbours (x : Real64) (power : Int) : List (Nat × Int) :=
  let (num, den) := match x.exponent with
    | .ofNat e => (x.significand * Nat.pow 2 e, 1)
    | .negSucc e => (x.significand, Nat.pow 2 (e + 1))
  let (num, den) := match power with
    | .ofNat p => (num, den * Nat.pow 10 p)
    | .negSucc p => (num * Nat.pow 10 (p + 1), den)
  let below := num / den
  let nearest := roundHalfEven num den
  if nearest = below then [(below, power), (below + 1, power)]
  else [(below + 1, power), (below, power)]

/-- A power of ten at least as large as the magnitude of `x`, for a nonzero `x`. -/
def coarsestPower (x : Real64) : Int :=
  ((x.exponent + x.significand.log2 + 1) * 30103).fdiv 100000 + 1

/-- The exact decimal expansion of a finite real. -/
def exactDecimal (x : Real64) : Nat × Int :=
  match x.exponent with
  | .ofNat e => (x.significand * Nat.pow 2 e, 0)
  | .negSucc e => (x.significand * Nat.pow 5 (e + 1), -(e + 1))

/-- The decimals tried for a real: the neighbours on coarser grids come before those on finer
ones. -/
def candidates (x : Real64) : List (Nat × Int) :=
  (List.range 20).flatMap fun (step : Nat) => neighbours x (coarsestPower x - (step : Int))

/-- A finite real with the fewest digits that read back: the first candidate that does, and the
exact expansion if there were none. -/
def ofReal (x : Real64) : Decimal :=
  let laid (d : Nat × Int) := layout x.negative d.1 d.2
  if x.isZero then laid (0, 0)
  else (((candidates x).map laid).find? (·.toReal = x)).getD (laid (exactDecimal x))

/-- What a document holds of a decimal: an integer that is out of range is a real. -/
def toNumeral (n : Decimal) : Numeral :=
  match n.toInt?.filter Numeral.integerRange with
  | some value => .integer value
  | none => .real n.toReal

end Decimal

end Qumode.Json

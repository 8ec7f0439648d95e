/-!
# Double-precision reals

A real parameter is kept as its 64 interchange bits, so that every value a circuit can carry (both
zeros, infinities, every not-a-number) is told apart from every other, and nothing depends on
machine arithmetic. A finite pattern denotes `significand * 2 ^ exponent`, with the sign apart.

Two comparisons exist side by side. Equality of patterns is Lean's `=`. `numEq` is the numeric
comparison that readouts are matched with: it identifies the two zeros and holds of no
not-a-number, so it is symmetric and transitive but not reflexive.
-/

namespace Qumode

/-- A double-precision real, as its interchange bits. -/
structure Real64 where
  bits : UInt64
  deriving DecidableEq, Repr, Inhabited

namespace Real64

/-- The value of the sign bit in the pattern. -/
def signWeight : Nat := Nat.pow 2 63

/-- How many fractions there are to an exponent. -/
def numFractions : Nat := Nat.pow 2 52

/-- The sign bit. -/
def negative (x : Real64) : Bool := decide (signWeight ≤ x.bits.toNat)

/-- The pattern without its sign bit. -/
def magnitudeBits (x : Real64) : Nat := x.bits.toNat % signWeight

/-- The eleven exponent bits. -/
def exponentField (x : Real64) : Nat := x.magnitudeBits / numFractions

/-- The fifty-two fraction bits. -/
def fractionField (x : Real64) : Nat := x.magnitudeBits % numFractions

/-- The pattern of positive infinity; larger magnitudes are not numbers. -/
def infinityBits : Nat := 2047 * numFractions

def isFinite (x : Real64) : Bool := decide (x.magnitudeBits < infinityBits)

def isInfinite (x : Real64) : Bool := decide (x.magnitudeBits = infinityBits)

def isNaN (x : Real64) : Bool := decide (infinityBits < x.magnitudeBits)

def isZero (x : Real64) : Bool := decide (x.magnitudeBits = 0)

/-- The integer whose multiple by `2 ^ exponent` is the magnitude of a finite real. -/
def significand (x : Real64) : Nat :=
  if x.exponentField = 0 then x.fractionField else numFractions + x.fractionField

/-- The power of two that scales `significand`. -/
def exponent (x : Real64) : Int :=
  if x.exponentField = 0 then -1074 else (x.exponentField : Int) - 1075

/-- The real with the given sign and magnitude pattern. -/
def ofMagnitude (isNegative : Bool) (magnitude : Nat) : Real64 :=
  ⟨UInt64.ofNat (if isNegative then signWeight + magnitude else magnitude)⟩

def zero : Real64 := ⟨0⟩

/-- The real nearest to half the circle constant. -/
def halfPi : Real64 := ⟨0x3FF921FB54442D18⟩

/-- The quiet not-a-number with an empty payload. -/
def nan : Real64 := ⟨0x7FF8000000000000⟩

def infinity (isNegative : Bool) : Real64 := ofMagnitude isNegative infinityBits

/-- Numeric equality: a not-a-number equals nothing, itself included, and the two zeros are
equal. -/
def numEq (x y : Real64) : Bool :=
  !x.isNaN && !y.isNaN && (x.bits == y.bits || (x.isZero && y.isZero))

theorem numEq_symm {x y : Real64} (h : x.numEq y = true) : y.numEq x = true := by
  simp only [numEq, Bool.and_eq_true, Bool.or_eq_true, beq_iff_eq] at h ⊢
  obtain ⟨⟨hx, hy⟩, hb | ⟨hzx, hzy⟩⟩ := h
  · exact ⟨⟨hy, hx⟩, .inl hb.symm⟩
  · exact ⟨⟨hy, hx⟩, .inr ⟨hzy, hzx⟩⟩

theorem numEq_self_iff {x : Real64} : x.numEq x = true ↔ x.isNaN = false := by
  simp [numEq]

end Real64

end Qumode

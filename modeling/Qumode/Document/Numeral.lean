import Qumode.Real64.Rounding

/-!
# Numbers in documents

A document tells integers from reals by the way they are written, so `1` and `1.0` differ in it. How
the digits of a real become a double is up to the format that the document is read from.
-/

namespace Qumode

inductive Numeral where
  | integer (value : Int)
  | real (value : Real64)
  deriving DecidableEq, Repr

namespace Numeral

/-- The integers that a document can hold. -/
def integerRange (n : Int) : Bool := decide (Int64.minValue.toInt ≤ n ∧ n < UInt64.size)

def ofNat (n : Nat) : Numeral := integer n

def ofInt (n : Int) : Numeral := integer n

def toInt? : Numeral → Option Int
  | integer value => some value
  | real _ => none

/-- The number as a double, rounded if it is an integer. -/
def toReal : Numeral → Real64
  | integer value => Real64.ofInt value
  | real value => value

end Numeral

end Qumode

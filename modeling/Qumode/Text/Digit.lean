/-!
# Digits

The characters that stand for digits, up to base sixteen, and runs of them.
-/

namespace Qumode.Digit

/-- The digit that a character stands for, up to hexadecimal. -/
def value? (c : Char) : Option Nat :=
  if '0' ≤ c ∧ c ≤ '9' then some (c.toNat - '0'.toNat)
  else if 'a' ≤ c ∧ c ≤ 'f' then some (c.toNat - 'a'.toNat + 10)
  else if 'A' ≤ c ∧ c ≤ 'F' then some (c.toNat - 'A'.toNat + 10)
  else none

/-- A nonempty run of digits below `base`, read as one number. -/
def number? (base : Nat) (cs : List Char) : Option Nat :=
  if cs.isEmpty then none
  else cs.foldlM (fun acc c => do
    let d ← value? c
    if d < base then some (base * acc + d) else none) 0

/-- The lower-case hexadecimal digit of a number below sixteen. -/
def hex (n : Nat) : Char := Nat.digitChar (n % 16)

/-- The longest run of decimal digits in front, and what follows it. -/
def span (cs : List Char) : List Char × List Char :=
  (cs.takeWhile Char.isDigit, cs.dropWhile Char.isDigit)

end Qumode.Digit

import Qumode.Document.Tree
import Qumode.Text.Digit

/-!
# The values of bare words

A bare word is, in this order: nothing, a truth value, an integer (decimal, or hexadecimal, octal
or binary after `0x`, `0o`, `0b`), a real, or a text. Digits that begin with a superfluous zero are
a text.
-/

namespace Qumode.Yaml.Word

def isNull (word : String) : Bool := word ∈ ["", "~", "null", "Null", "NULL"]

def toBool? (word : String) : Option Bool :=
  if word ∈ ["true", "True", "TRUE"] then some true
  else if word ∈ ["false", "False", "FALSE"] then some false
  else none

/-- Digits with a superfluous leading zero, after an optional sign. -/
def hasLeadingZero (cs : List Char) : Bool :=
  match cs with
  | '+' :: '0' :: c :: rest | '-' :: '0' :: c :: rest | '0' :: c :: rest =>
    (c :: rest).all Char.isDigit
  | _ => false

def magnitude? : List Char → Option Nat
  | '0' :: 'x' :: rest => Digit.number? 16 rest
  | '0' :: 'o' :: rest => Digit.number? 8 rest
  | '0' :: 'b' :: rest => Digit.number? 2 rest
  | cs => Digit.number? 10 cs

def toInt? (word : String) : Option Int :=
  let cs := word.toList
  if hasLeadingZero cs then none
  else match cs with
    | '-' :: rest => (magnitude? rest).map fun n => -(n : Int)
    | '+' :: rest => (magnitude? rest).map Int.ofNat
    | rest => (magnitude? rest).map Int.ofNat

/-- A decimal with digits on at least one side of an optional point and an optional exponent. -/
def decimal? (isNegative : Bool) (cs : List Char) : Option Real64 := do
  let (whole, rest) := Digit.span cs
  let (fraction, rest) := match rest with
    | '.' :: rest => Digit.span rest
    | rest => ([], rest)
  if whole.isEmpty && fraction.isEmpty then none
  let exponent ← match rest with
    | [] => some 0
    | e :: rest =>
      if e ≠ 'e' ∧ e ≠ 'E' then none
      else match rest with
        | '-' :: ds => (Digit.number? 10 ds).map fun n => -(n : Int)
        | '+' :: ds => (Digit.number? 10 ds).map Int.ofNat
        | ds => (Digit.number? 10 ds).map Int.ofNat
  let x := Real64.ofDecimal isNegative (Nat.ofDigitChars 10 (whole ++ fraction) 0)
    (exponent - fraction.length)
  if x.isFinite then some x else none

def toReal? (word : String) : Option Real64 :=
  if word ∈ [".nan", ".NaN", ".NAN"] then some Real64.nan
  else if word ∈ [".inf", ".Inf", ".INF", "+.inf", "+.Inf", "+.INF"] then
    some (Real64.infinity false)
  else if word ∈ ["-.inf", "-.Inf", "-.INF"] then some (Real64.infinity true)
  else match word.toList with
    | '-' :: rest => decimal? true rest
    | '+' :: rest => decimal? false rest
    | rest => decimal? false rest

/-- The value of a bare word; an integer out of range has none. -/
def toScalar? (word : String) : Option Scalar :=
  if isNull word then some .null
  else if let some b := toBool? word then some (.bool b)
  else if let some n := toInt? word then
    if Numeral.integerRange n then some (.integer n) else none
  else if hasLeadingZero word.toList then some (.text word)
  else if let some x := toReal? word then some (.real x)
  else some (.text word)

/-- A bare word as a document. -/
def toDocument (word : String) : Document := .bare word (toScalar? word)

end Qumode.Yaml.Word

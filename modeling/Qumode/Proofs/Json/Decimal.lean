import Qumode.Json.Decimal
import Qumode.Proofs.Real64.Exact

/-!
# Numbers read back from their decimals

However a decimal is laid out, it keeps its sign and its value, is not an integer, and has nothing
but digits in its fraction (`Decimal.layout_lays`). So a finite real reads back from the decimal
that is written for it: either a candidate was found that does, or the exact expansion is written,
and that is not rounded. An integer is written without a fraction and reads back as an integer, so
the two kinds of numbers are told apart (`Decimal.toNumeral_ofInt`, `Decimal.toNumeral_ofReal`).
-/

namespace Qumode.Json

namespace Decimal

/-- The number that a decimal stands for, its sign apart. -/
def value (n : Decimal) : ℚ := n.significand * 10 ^ n.power

/-- Only digits stand behind the point. -/
def Plain (n : Decimal) : Prop := ∀ c ∈ n.fraction, c.isDigit = true

/-- The decimal is that of a real: the decimal `significand * 10 ^ power` with a sign. -/
structure Lays (n : Decimal) (isNegative : Bool) (significand : Nat) (power : Int) : Prop where
  negative : n.negative = isNegative
  value : n.value = significand * 10 ^ power
  real : n.toInt? = none
  plain : n.Plain

variable {isNegative : Bool} {significand : Nat} {power : Int}

/-- A decimal with a fraction is no integer. -/
theorem toInt?_eq_none_of_fraction {n : Decimal} (fraction : n.fraction ≠ []) :
    n.toInt? = none := by
  rw [toInt?, if_neg (by simp [fraction])]

theorem isDigit_of_mem_toDigits {c : Char} (hc : c ∈ Nat.toDigits 10 significand) :
    c.isDigit = true :=
  Nat.isDigit_of_mem_toDigits (by decide) (by decide) hc

/-- A number is written with a digit in front. -/
theorem toDigits_eq_cons (n : Nat) :
    ∃ d ds, Nat.toDigits 10 n = d :: ds ∧ d.isDigit = true := by
  cases front : Nat.toDigits 10 n with
  | nil => exact absurd front Nat.toDigits_ne_nil
  | cons d ds => exact ⟨d, ds, rfl, isDigit_of_mem_toDigits (front ▸ List.mem_cons_self)⟩

/-- The digits of a number, cut anywhere, are read as that number. -/
theorem ofDigitChars_split (k significand : Nat) :
    Nat.ofDigitChars 10 ((Nat.toDigits 10 significand).drop k)
      (Nat.ofDigitChars 10 ((Nat.toDigits 10 significand).take k) 0) = significand := by
  rw [← Nat.ofDigitChars_append, List.take_append_drop, Nat.ofDigitChars_ten_toDigits]

/-- A decimal with the digits and the power of another lays out the same number. -/
theorem lays_of_eq {n : Decimal} (negative : n.negative = isNegative)
    (digits : n.significand = significand) (scale : n.power = power) (real : n.toInt? = none)
    (plain : n.Plain) : n.Lays isNegative significand power :=
  ⟨negative, by rw [Decimal.value, digits, scale], real, plain⟩

/-- However it is laid out, a decimal keeps sign and value and is not an integer. -/
theorem layout_lays (isNegative : Bool) (significand : Nat) (power : Int) :
    (layout isNegative significand power).Lays isNegative significand power := by
  have some_digit := Nat.length_toDigits_pos (b := 10) (n := significand)
  unfold layout
  dsimp only
  split
  case isTrue integral =>
    obtain ⟨places, rfl⟩ := Int.eq_ofNat_of_zero_le integral.1
    refine ⟨rfl, ?_, rfl, by simp [Plain]⟩
    -- The fraction of zero is one digit more, and scales the number down by as much.
    have digits : Nat.ofDigitChars 10 ['0'] (significand * Nat.pow 10 places)
        = 10 * (significand * 10 ^ places) := rfl
    rw [Decimal.value, Decimal.significand, Int.toNat_natCast, digits, Decimal.power, zpow_natCast]
    simp
    ring
  case isFalse not_integral =>
    split
    case isTrue within =>
      refine lays_of_eq rfl (ofDigitChars_split _ _) ?_ ?_ ?_
      · simp only [Decimal.power, Option.getD_none, List.length_drop]
        omega
      · refine toInt?_eq_none_of_fraction ?_
        simp only [ne_eq, List.drop_eq_nil_iff]
        omega
      · exact fun c hc => isDigit_of_mem_toDigits (List.mem_of_mem_drop hc)
    case isFalse not_within =>
      split
      case isTrue small =>
        refine lays_of_eq rfl ?_ ?_ ?_ ?_
        · simp only [Decimal.significand, Nat.ofDigitChars_append, Nat.ofDigitChars_replicate_zero,
            Nat.mul_zero, Nat.ofDigitChars_ten_toDigits]
        · simp only [Decimal.power, Option.getD_none, List.length_append, List.length_replicate]
          omega
        · refine toInt?_eq_none_of_fraction ?_
          simp [Nat.toDigits_ne_nil]
        · intro c hc
          obtain zero | digit := List.mem_append.1 hc
          · rw [List.eq_of_mem_replicate zero]
            decide
          · exact isDigit_of_mem_toDigits digit
      case isFalse =>
        refine lays_of_eq rfl (ofDigitChars_split _ _) ?_ ?_ ?_
        · simp only [Decimal.power, Option.getD_some, List.length_drop]
          omega
        · simp [toInt?]
        · exact fun c hc => isDigit_of_mem_toDigits (List.mem_of_mem_drop hc)

/-- The exact expansion is the magnitude of the real. -/
theorem exactDecimal_eq (x : Real64) :
    ((exactDecimal x).1 : ℚ) * 10 ^ (exactDecimal x).2 = x.magnitude := by
  unfold exactDecimal Real64.magnitude
  cases x.exponent with
  | ofNat e =>
    rw [zpow_zero, mul_one, Int.ofNat_eq_natCast, zpow_natCast]
    norm_cast
  | negSucc e =>
    dsimp only
    have ten : (10 : ℚ) ^ (e + 1) = 5 ^ (e + 1) * 2 ^ (e + 1) := by
      rw [← mul_pow]
      norm_num
    have five : ((Nat.pow 5 (e + 1) : Nat) : ℚ) = 5 ^ (e + 1) := by norm_cast
    have scale : (-(e + 1) : Int) = Int.negSucc e := (Int.negSucc_eq e).symm
    rw [scale, zpow_negSucc, zpow_negSucc, ten, Nat.cast_mul, five]
    field_simp

/-- The decimal of a zero reads back with its sign. -/
theorem toReal_layout_zero {x : Real64} (zero : x.isZero = true) :
    (layout x.negative 0 0).toReal = x := by
  have bits : x.magnitudeBits = 0 := of_decide_eq_true zero
  calc (layout x.negative 0 0).toReal = Real64.ofMagnitude x.negative x.magnitudeBits := by
        rw [bits]
        rfl
    _ = x := Real64.ofMagnitude_magnitudeBits x

/-- The decimal of a real is a layout of some decimal, and the real reads back from it. -/
theorem ofReal_spec {x : Real64} (finite : x.isFinite = true) :
    (ofReal x).toReal = x ∧ ∃ d : Nat × Int, ofReal x = layout x.negative d.1 d.2 := by
  unfold ofReal
  dsimp only
  split
  case isTrue zero => exact ⟨toReal_layout_zero zero, (0, 0), rfl⟩
  case isFalse nonzero =>
    cases found : ((candidates x).map fun d => layout x.negative d.1 d.2).find? (·.toReal = x) with
    | some n =>
      obtain ⟨d, -, laid⟩ := List.mem_map.1 (List.mem_of_find?_eq_some found)
      have reads : n.toReal = x := by simpa using List.find?_some found
      exact ⟨reads, d, laid.symm⟩
    | none =>
      refine ⟨?_, exactDecimal x, rfl⟩
      have laid := layout_lays x.negative (exactDecimal x).1 (exactDecimal x).2
      have exact : (layout x.negative (exactDecimal x).1 (exactDecimal x).2).value = x.magnitude :=
        laid.value.trans (exactDecimal_eq x)
      rw [Option.getD_none, toReal, laid.negative]
      exact Real64.ofDecimal_eq finite (Bool.eq_false_iff.2 nonzero) exact

/-- A finite real reads back from the decimal that is written for it. -/
theorem toReal_ofReal {x : Real64} (finite : x.isFinite = true) : (ofReal x).toReal = x :=
  (ofReal_spec finite).1

/-- The decimal of a real is not an integer. -/
theorem toInt?_ofReal {x : Real64} (finite : x.isFinite = true) : (ofReal x).toInt? = none := by
  obtain ⟨d, laid⟩ := (ofReal_spec finite).2
  rw [laid]
  exact (layout_lays _ _ _).real

/-- The fraction of a real is made of digits. -/
theorem plain_ofReal {x : Real64} (finite : x.isFinite = true) : (ofReal x).Plain := by
  obtain ⟨d, laid⟩ := (ofReal_spec finite).2
  rw [laid]
  exact (layout_lays _ _ _).plain

theorem plain_ofInt (n : Int) : (ofInt n).Plain := List.forall_mem_nil _

/-- An integer is written as one, with its sign. -/
theorem toInt?_ofInt (n : Int) : (ofInt n).toInt? = some n := by
  cases n with
  | ofNat n => rfl
  | negSucc n =>
    rw [ofInt, decide_eq_true (Int.negSucc_lt_zero n)]
    exact congrArg some (Int.negSucc_eq n).symm

/-- An integer in range is the integer in a document. -/
theorem toNumeral_ofInt {n : Int} (range : Numeral.integerRange n = true) :
    (ofInt n).toNumeral = .integer n := by
  rw [toNumeral, toInt?_ofInt, Option.filter_some, if_pos range]

/-- A finite real is the real in a document, whatever its value. -/
theorem toNumeral_ofReal {x : Real64} (finite : x.isFinite = true) :
    (ofReal x).toNumeral = .real x := by
  rw [toNumeral, toInt?_ofReal finite, Option.filter_none]
  exact congrArg Numeral.real (toReal_ofReal finite)

end Decimal

end Qumode.Json

/-!
# Wires

A front end names a wire by a small integer or by a label, and the integer `0` and the label `"0"`
name different wires. Inside a circuit wires are dense ids, and every wire is in the end a qubit
(discrete) or a qumode (continuous).
-/

namespace Qumode

/-- A wire as the front end names it. -/
inductive Wire where
  | index (number : UInt32)
  | label (name : String)
  deriving DecidableEq, Repr, Inhabited

namespace Wire

def text : Wire → String
  | index number => toString number.toNat
  | label name => name

instance : ToString Wire := ⟨text⟩

/-- Integers come before labels; labels are in code point order, which is also the order of their
UTF-8 octets. -/
def le : Wire → Wire → Bool
  | index a, index b => decide (a ≤ b)
  | index _, label _ => true
  | label _, index _ => false
  | label a, label b => decide (a ≤ b)

/-- The wires in order, each once. -/
def sorted (wires : List Wire) : List Wire := wires.eraseDups.mergeSort le

instance : Ord Wire where
  compare
    | index a, index b => compare a b
    | index _, label _ => .lt
    | label _, index _ => .gt
    | label a, label b => compare a b

instance : Std.TransOrd Wire where
  eq_swap {a b} := by
    cases a <;> cases b
    case index.index a b => exact Std.OrientedOrd.eq_swap (α := UInt32)
    case label.label a b => exact Std.OrientedOrd.eq_swap (α := String)
    all_goals rfl
  isLE_trans {a b c} := by
    cases a <;> cases b <;> cases c
    case index.index.index a b c => exact Std.TransOrd.isLE_trans (α := UInt32)
    case label.label.label a b c => exact Std.TransOrd.isLE_trans (α := String)
    all_goals
      intro ab bc
      first
        | rfl
        | exact absurd ab Bool.false_ne_true
        | exact absurd bc Bool.false_ne_true

instance : Std.LawfulEqOrd Wire where
  compare_self {a} := by cases a <;> exact Std.ReflCmp.compare_self
  eq_of_compare {a b} := by
    cases a <;> cases b
    case index.index a b =>
      exact fun h => congrArg index (Std.LawfulEqOrd.eq_of_compare (α := UInt32) h)
    case label.label a b =>
      exact fun h => congrArg label (Std.LawfulEqOrd.eq_of_compare (α := String) h)
    all_goals exact fun h => nomatch h

end Wire

/-- A wire inside one circuit. Ids are handed out in order of first reference, from zero and without
a largest one: where ids are kept in 32 bits, they are told apart up to `2 ^ 32` distinct wires. -/
@[ext]
structure WireId where
  index : Nat
  deriving DecidableEq, Repr, Inhabited

namespace WireId

def text (w : WireId) : String := "w" ++ toString w.index

instance : ToString WireId := ⟨text⟩

instance : Ord WireId := ⟨compareOn index⟩

instance : Std.TransOrd WireId := inferInstanceAs (Std.TransCmp (compareOn index))

instance : Std.LawfulEqOrd WireId where
  compare_self {w} := Std.ReflOrd.compare_self (α := Nat) (a := w.index)
  eq_of_compare {v w} h := by
    cases v
    cases w
    exact congrArg mk (Std.LawfulEqOrd.eq_of_compare (α := Nat) h)

end WireId

/-- What a wire is: a two-level register or an oscillator. -/
inductive WireType where
  | discrete
  | continuous
  deriving DecidableEq, Repr, Inhabited

namespace WireType

def opposite : WireType → WireType
  | discrete => continuous
  | continuous => discrete

/-- The word for the register of that type. -/
def text : WireType → String
  | discrete => "qubit"
  | continuous => "qumode"

instance : ToString WireType := ⟨text⟩

theorem opposite_opposite (t : WireType) : t.opposite.opposite = t := by cases t <;> rfl

theorem ne_iff_eq_opposite {s t : WireType} : s ≠ t ↔ s = t.opposite := by
  cases s <;> cases t <;> decide

end WireType

end Qumode

import Qumode.Real64.Fixed
import Qumode.Wire.Order

/-!
# Operations

An operation is a name, the wires it acts on, numeric parameters that no analysis inspects, and a
capability, which says what type it demands of each of its wires. `requirements` lists these
demands in wire order.
-/

namespace Qumode

/-- A numeric parameter. -/
inductive Param where
  | int (value : Int64)
  | real (value : Real64)
  deriving DecidableEq, Repr

namespace Param

/-- The parameter with `precision` decimal places; an integer has none and is always written. -/
def text? (precision : Nat) : Param → Option String
  | int value => some (toString value.toInt)
  | real value => value.toFixed? precision

/-- Equality of kinds and values, reals compared numerically. -/
def numEq : Param → Param → Bool
  | int a, int b => decide (a = b)
  | real a, real b => a.numEq b
  | _, _ => false

end Param

/-- What an operation acts on. -/
inductive Capability where
  | standard
  | continuousNative
  | hybrid (numContinuous : Nat)
  deriving DecidableEq, Repr

/-- The type demanded of the wire at `position` of an operation with `arity` wires. -/
def Capability.requiredType (capability : Capability) (position arity : Nat) : WireType :=
  match capability with
  | .standard => .discrete
  | .continuousNative => .continuous
  | .hybrid numContinuous => hybridWireOrder.typeAt position arity numContinuous

structure Operation where
  name : String
  wires : List WireId
  params : List Param
  capability : Capability
  deriving DecidableEq, Repr

namespace Operation

/-- The rotation of one qumode by an angle. -/
def rotation (angle : Real64) (wire : WireId) : Operation :=
  ⟨"Rotation", [wire], [.real angle], .continuousNative⟩

/-- A gate without parameters on one qubit. -/
def qubitGate (name : String) (wire : WireId) : Operation := ⟨name, [wire], [], .standard⟩

/-- Each wire with the type demanded of it, in wire order. -/
def requirements (op : Operation) : List (WireId × WireType) :=
  op.wires.zipIdx.map fun (wire, position) =>
    (wire, op.capability.requiredType position op.wires.length)

/-- Equality with real parameters compared numerically. -/
def numEq (a b : Operation) : Bool :=
  decide (a.name = b.name) && decide (a.wires = b.wires) && a.params.isEqv b.params Param.numEq
    && decide (a.capability = b.capability)

def text (op : Operation) : String :=
  op.name ++ "(" ++ ", ".intercalate (op.wires.map WireId.text) ++ ")"

instance : ToString Operation := ⟨text⟩

end Operation

end Qumode

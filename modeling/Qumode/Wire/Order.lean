import Qumode.Wire.Basic

/-!
# Where the qumodes of a hybrid item stand

A hybrid operation or observable acts on qumodes and qubits at once and says only how many of its
wires are qumodes. Which ones is a convention: the leading wires or the trailing ones. `typeAt`
splits under either convention, and everything that splits wires goes through `hybridWireOrder`.
-/

namespace Qumode

inductive HybridOrder where
  | continuousFirst
  | discreteFirst
  deriving DecidableEq, Repr

/-- The convention of every circuit. -/
def hybridWireOrder : HybridOrder := .continuousFirst

/-- The type of the wire at `position` of an item with `arity` wires, `numContinuous` of them
qumodes. A count above the arity makes every wire a qumode. -/
def HybridOrder.typeAt (order : HybridOrder) (position arity numContinuous : Nat) : WireType :=
  match order with
  | .continuousFirst => if position < numContinuous then .continuous else .discrete
  | .discreteFirst => if arity - numContinuous ≤ position then .continuous else .discrete

end Qumode

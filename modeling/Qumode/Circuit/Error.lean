import Qumode.Observable.Basic
import Qumode.Wire.Basic

/-!
# What can be wrong with a front-end record

Each constructor is one cause, found while a record is turned into a part of a circuit.
-/

namespace Qumode

/-- What is wrong with an operation record. -/
inductive OperationFault where
  | missingCount
  | countExceedsWires (count wires : Nat)
  deriving DecidableEq, Repr

def OperationFault.text : OperationFault → String
  | missingCount => "hybrid operation without continuous-wire count"
  | countExceedsWires count wires =>
    "continuous-wire count " ++ toString count ++ " exceeds " ++ toString wires ++ " wires"

/-- What is wrong with a named observable. -/
inductive ObservableFault where
  | noWires
  | missingAngle
  | tooFewWires
  deriving DecidableEq, Repr

def ObservableFault.text : ObservableFault → String
  | noWires => "acts on no wires"
  | missingAngle => "missing quadrature angle"
  | tooFewWires => "hybrid observable needs a qumode and a qubit"

/-- Why a record is no part of a circuit. -/
inductive CircuitError where
  | malformedOperation (index : Nat) (name : String) (fault : OperationFault)
  | duplicateWire (wire : Wire) (name : String)
  | unknownObservable (name : String)
  | malformedObservable (name : String) (fault : ObservableFault)
  | emptyComposite (kind : Composite)
  deriving DecidableEq, Repr

def CircuitError.message : CircuitError → String
  | malformedOperation index name fault =>
    "Malformed operation '" ++ name ++ "' (operation " ++ toString index ++ "): " ++ fault.text
  | duplicateWire wire name => "Duplicate wire " ++ wire.text ++ " in '" ++ name ++ "'"
  | unknownObservable name => "Unknown observable '" ++ name ++ "'"
  | malformedObservable name fault => "Malformed observable '" ++ name ++ "': " ++ fault.text
  | emptyComposite kind => "Composite observable '" ++ kind.text ++ "' has no children"

end Qumode

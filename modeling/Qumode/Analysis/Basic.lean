import Qumode.Circuit.Builder
import Qumode.Grouping.Indexed
import Qumode.Readout.Resolution

/-!
# Static analysis of a circuit

The analysis settles the type of every wire, the readouts of every measurement and the execution
groups. Operations make their demands first, then the measurements on the same slots; then every
slot has to be filled; then the measurements are grouped. The first failure ends it.
-/

namespace Qumode

/-- What the analysis of a circuit finds. -/
structure Analysis where
  wireTypes : List WireType
  schemas : List MeasurementSchema
  groups : List ExecutionGroup
  deriving DecidableEq, Repr

namespace Analysis

/-- The types of all wires and the readouts of all measurements. -/
def resolved (c : Circuit) : Typing (List MeasurementSchema) := do
  Typing.operations c
  Typing.measurements c

/-- The analysis of a circuit. -/
def ofCircuit (c : Circuit) : Except AnalysisError Analysis :=
  match (resolved c).run (.start c) with
  | .error e _ => .error e
  | .ok schemas ctx => do
    let wireTypes ← ctx.finish c
    .ok ⟨wireTypes, schemas, Grouping.groupMeasurements schemas⟩

/-- The analysis of the circuit that a description stands for. -/
def ofDescription (d : Description) : Except AnalysisError Analysis :=
  match Circuit.ofDescription d with
  | .error e => .error (.circuit e)
  | .ok c => ofCircuit c

/-- The type of a wire of the circuit. -/
def wireType? (r : Analysis) (w : WireId) : Option WireType := r.wireTypes[w.index]?

/-- How many wires the analysis covers. -/
def numWires (r : Analysis) : Nat := r.wireTypes.length

/-- The wires of a type, ascending. -/
def wiresOf (r : Analysis) (type : WireType) : List WireId :=
  (r.wireTypes.zipIdx.filter fun (t, _) => t = type).map fun (_, index) => ⟨index⟩

def discreteWires (r : Analysis) : List WireId := r.wiresOf .discrete

def continuousWires (r : Analysis) : List WireId := r.wiresOf .continuous

/-- Whether all wires are qubits. -/
def isDiscreteOnly (r : Analysis) : Bool := r.wireTypes.all (· = .discrete)

/-- Equality with angles compared as numbers, so a result with an angle that is not a number differs
from itself. -/
def numEq (a b : Analysis) : Bool :=
  decide (a.wireTypes = b.wireTypes) && a.schemas.isEqv b.schemas MeasurementSchema.numEq
    && a.groups.isEqv b.groups ExecutionGroup.numEq

end Analysis

end Qumode

import Qumode.Typing.Context

/-!
# Resolving observables to readouts

A leaf makes one demand on each of its wires, in wire order: a type, and a readout unless the leaf
has no natural basis there. An observable makes the demands of its leaves from left to right and
collects the readouts in one schema, so a wire must be read out in the same way wherever the
observable touches it.
-/

namespace Qumode

/-- What a leaf demands of one wire. The readout is missing where the leaf cannot be read out. -/
structure Demand where
  wire : WireId
  type : WireType
  readout : Option WireReadout
  deriving DecidableEq, Repr

/-- How a qumode is read out in a natural basis. -/
def NaturalBasis.readout (wire : WireId) : NaturalBasis → WireReadout
  | fock => .plain .discrete
  | quadrature angle => .rotated .position angle wire
  | coherent phase => .rotated .coherent phase wire

namespace Demand

/-- A qumode read out in the given basis. -/
def qumode (basis : Option NaturalBasis) (wire : WireId) : Demand :=
  ⟨wire, .continuous, basis.map (NaturalBasis.readout wire)⟩

/-- A qubit read out after the given gates. -/
def qubit (gates : List String) (wire : WireId) : Demand :=
  ⟨wire, .discrete, some ⟨.discrete, gates.map fun gate => .qubitGate gate wire⟩⟩

end Demand

/-- The demands of a leaf, in wire order. -/
def Leaf.demands (leaf : Leaf) : List Demand :=
  match leaf.kind with
  | .identity => []
  | .discrete gates => leaf.wires.map (Demand.qubit gates)
  | .continuous basis => leaf.wires.map (Demand.qumode basis)
  | .hybrid numContinuous basis =>
    leaf.wires.zipIdx.map fun (wire, position) =>
      match hybridWireOrder.typeAt position leaf.wires.length numContinuous with
      | .continuous => Demand.qumode basis wire
      | .discrete => Demand.qubit [] wire

namespace Typing

/-- The schema with a readout for a wire. -/
def record (c : Circuit) (site : Site) (schema : MeasurementSchema) (w : WireId) (r : WireReadout) :
    Typing MeasurementSchema :=
  match schema.insert w r with
  | .ok schema => pure schema
  | .error (first, second) =>
    throw (.schemaConflict (c.wireLabel w) (site.describe c) first second)

/-- Makes a demand of the leaf with the given name: its type first, then its readout. -/
def demand (c : Circuit) (site : Site) (leafName : String) (schema : MeasurementSchema)
    (d : Demand) : Typing MeasurementSchema := do
  require c d.wire d.type site
  match d.readout with
  | some r => record c site schema d.wire r
  | none => throw (.unsupportedObservable leafName (c.wireLabel d.wire) (site.describe c))

/-- Makes the demands of a leaf. -/
def leaf (c : Circuit) (site : Site) (schema : MeasurementSchema) (l : Leaf) :
    Typing MeasurementSchema :=
  l.demands.foldlM (demand c site l.name) schema

mutual

/-- Makes the demands of an observable, collecting the readouts in `schema`. -/
def tree (c : Circuit) (site : Site) (schema : MeasurementSchema) :
    Observable Leaf → Typing MeasurementSchema
  | .leaf l => leaf c site schema l
  | .sum terms => trees c site schema terms
  | .product factors => trees c site schema factors
  | .adjoint base => tree c site schema base
  | .power base _ => tree c site schema base

/-- Makes the demands of several observables, left to right. -/
def trees (c : Circuit) (site : Site) (schema : MeasurementSchema) :
    List (Observable Leaf) → Typing MeasurementSchema
  | [] => pure schema
  | t :: rest => do
    let schema ← tree c site schema t
    trees c site schema rest

end

/-- The readouts of an observable, which is reported as the measurement with the given index. -/
def observable (c : Circuit) (t : Observable Leaf) (index : Nat) : Typing MeasurementSchema :=
  tree c (.measurement index) .empty t

/-- The readouts of several measurements, the first of which has the given index. -/
def measurementsFrom (c : Circuit) (index : Nat) :
    List (Observable Leaf) → Typing (List MeasurementSchema)
  | [] => pure []
  | t :: rest => do
    let schema ← observable c t index
    let schemas ← measurementsFrom c (index + 1) rest
    pure (schema :: schemas)

/-- The readouts of all measurements of a circuit, in declaration order. -/
def measurements (c : Circuit) : Typing (List MeasurementSchema) :=
  measurementsFrom c 0 c.measurements

end Typing

end Qumode

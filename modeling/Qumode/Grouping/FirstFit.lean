import Qumode.Readout.Schema

/-!
# Grouping measurements by first fit

Measurements that need no wire read out in two ways can share one execution of the preparation. They
are placed in declaration order, each in the first group where none of its wires has a different
readout, or in a new group at the end if there is none.

`firstFit` is that rule as it stands: every placement looks through the groups from the first.
`Grouping.Indexed` places the measurements of long lists without looking at most groups.
-/

namespace Qumode

/-- Measurements that are read out from one execution: their indices, the readouts in order of first
placement, and the operations to apply before, in the order of the readouts. -/
structure ExecutionGroup where
  measurements : List Nat
  readouts : List (WireId × BasisSchema)
  diagonalizing : List Operation
  deriving DecidableEq, Repr

namespace ExecutionGroup

/-- How a wire is read out in the group. -/
def basis? (g : ExecutionGroup) (w : WireId) : Option BasisSchema := g.readouts.lookup w

/-- Equality with angles compared as numbers. -/
def numEq (a b : ExecutionGroup) : Bool :=
  decide (a.measurements = b.measurements) && decide (a.readouts = b.readouts)
    && a.diagonalizing.isEqv b.diagonalizing Operation.numEq

end ExecutionGroup

/-- A group that measurements are still placed in, with its readouts in order of placement. -/
structure OpenGroup where
  measurements : List Nat
  readouts : List (WireId × WireReadout)
  deriving DecidableEq, Repr

namespace OpenGroup

def empty : OpenGroup := ⟨[], []⟩

/-- The readout placed for a wire. -/
def readout? (g : OpenGroup) (w : WireId) : Option WireReadout := g.readouts.lookup w

/-- Whether the group reads a wire out in a way different from `r`. -/
def differs (g : OpenGroup) (w : WireId) (r : WireReadout) : Bool :=
  match g.readout? w with
  | some placed => !placed.numEq r
  | none => false

/-- Whether some wire of a measurement has a different readout in the group. -/
def collides (g : OpenGroup) (s : MeasurementSchema) : Bool :=
  s.entries.any fun (w, r) => g.differs w r

/-- The readouts with one more, unless its wire has one already. -/
def addReadout (readouts : List (WireId × WireReadout)) (w : WireId) (r : WireReadout) :
    List (WireId × WireReadout) :=
  if (readouts.lookup w).isSome then readouts else readouts ++ [(w, r)]

/-- The group with one more measurement. -/
def add (g : OpenGroup) (index : Nat) (s : MeasurementSchema) : OpenGroup :=
  ⟨g.measurements ++ [index], s.entries.foldl (fun rs (w, r) => addReadout rs w r) g.readouts⟩

/-- The group when nothing more is placed in it. -/
def close (g : OpenGroup) : ExecutionGroup where
  measurements := g.measurements
  readouts := g.readouts.map fun (w, r) => (w, r.schema)
  diagonalizing := g.readouts.flatMap fun (_, r) => r.diagonalizing

end OpenGroup

namespace Grouping

/-- A measurement is placed in the first group that it does not collide with, or in a new one. -/
def place (index : Nat) (s : MeasurementSchema) : List OpenGroup → List OpenGroup
  | [] => [OpenGroup.empty.add index s]
  | g :: rest => if g.collides s then g :: place index s rest else g.add index s :: rest

/-- The groups after placing all measurements, in order. -/
def placeAll (schemas : List MeasurementSchema) : List OpenGroup :=
  schemas.zipIdx.foldl (fun groups (s, index) => place index s groups) []

/-- The groups of first fit. -/
def firstFit (schemas : List MeasurementSchema) : List ExecutionGroup :=
  (placeAll schemas).map OpenGroup.close

end Grouping

end Qumode

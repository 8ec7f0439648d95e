import Qumode.Grouping.FirstFit
import Std.Data.TreeMap
import Std.Data.TreeSet

/-!
# First fit with an index by wire

Only a group that already reads out one of the wires of a measurement can collide with it. `Board`
keeps, beside the groups, the groups that hold each wire. A placement looks at those of its wires
alone, notes which of them are blocked, and takes the first group that is not.
-/

namespace Qumode.Grouping

/-- A group that measurements are still placed in. Its readouts stand in order of placement and,
for look-up, by wire. -/
structure IndexedGroup where
  measurements : List Nat
  readouts : List (WireId × WireReadout)
  byWire : Std.TreeMap Nat WireReadout

namespace IndexedGroup

def empty : IndexedGroup := ⟨[], [], ∅⟩

/-- Whether the group reads a wire out in a way different from `r`. -/
def differs (g : IndexedGroup) (w : WireId) (r : WireReadout) : Bool :=
  match g.byWire[w.index]? with
  | some placed => !placed.numEq r
  | none => false

/-- The group with one more readout. -/
def addReadout (g : IndexedGroup) (w : WireId) (r : WireReadout) : IndexedGroup :=
  { g with readouts := g.readouts ++ [(w, r)], byWire := g.byWire.insert w.index r }

def toOpenGroup (g : IndexedGroup) : OpenGroup := ⟨g.measurements, g.readouts⟩

end IndexedGroup

/-- The groups so far, and for each wire the positions of the groups that hold it. -/
structure Board where
  groups : Array IndexedGroup
  holders : Std.TreeMap Nat (List Nat)

namespace Board

def empty : Board := ⟨#[], ∅⟩

/-- The groups in which a wire has a readout different from `r`. -/
def blockedOn (b : Board) (w : WireId) (r : WireReadout) : List Nat :=
  (b.holders.getD w.index []).filter fun position =>
    match b.groups[position]? with
    | some g => g.differs w r
    | none => false

/-- The groups that a measurement collides with. -/
def blocked (b : Board) (s : MeasurementSchema) : Std.TreeSet Nat :=
  .ofList (s.entries.flatMap fun (w, r) => b.blockedOn w r)

/-- The first position that is not blocked: a group or, behind the last one, a new group. -/
def target (b : Board) (s : MeasurementSchema) : Nat :=
  let blocked := b.blocked s
  ((List.range b.groups.size).find? fun position => !blocked.contains position).getD b.groups.size

/-- The board with a readout for a wire in the group at `position`, unless the group holds the wire
already. -/
def addReadout (position : Nat) (b : Board) (w : WireId) (r : WireReadout) : Board :=
  match b.groups[position]? with
  | none => b
  | some g =>
    if g.byWire.contains w.index then b
    else
      { groups := b.groups.setIfInBounds position (g.addReadout w r)
        holders := b.holders.insert w.index (b.holders.getD w.index [] ++ [position]) }

/-- The board with a new group at the end if `position` is there. -/
def openAt (b : Board) (position : Nat) : Board :=
  if position = b.groups.size then { b with groups := b.groups.push .empty } else b

/-- The board with the index of one more measurement in the group at `position`. -/
def addMeasurement (b : Board) (position index : Nat) : Board :=
  { b with groups := b.groups.modify position fun g =>
      { g with measurements := g.measurements ++ [index] } }

/-- Places a measurement. -/
def place (b : Board) (index : Nat) (s : MeasurementSchema) : Board :=
  let position := b.target s
  s.entries.foldl (fun b (w, r) => addReadout position b w r)
    ((b.openAt position).addMeasurement position index)

end Board

/-- The board after placing all measurements, in order. -/
def board (schemas : List MeasurementSchema) : Board :=
  schemas.zipIdx.foldl (fun b (s, index) => b.place index s) .empty

/-- The execution groups of a list of measurements. -/
def groupMeasurements (schemas : List MeasurementSchema) : List ExecutionGroup :=
  (board schemas).groups.toList.map fun g => g.toOpenGroup.close

end Qumode.Grouping

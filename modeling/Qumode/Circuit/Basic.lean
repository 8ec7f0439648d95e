import Qumode.Circuit.Description
import Qumode.Wire.Table

/-!
# Circuits

A circuit is a list of operations and a list of terminal measurements over the wires of one table.
-/

namespace Qumode

structure Circuit where
  name : String
  wires : WireTable
  operations : List Operation
  measurements : List (Observable Leaf)
  deriving Inhabited

namespace Circuit

def empty (name : String) : Circuit := ⟨name, .empty, [], []⟩

def numWires (c : Circuit) : Nat := c.wires.size

/-- The front end's name of a wire; an id outside the table stands for itself. -/
def wireLabel (c : Circuit) (id : WireId) : Wire := (c.wires.label? id).getD (.label id.text)

end Circuit

end Qumode

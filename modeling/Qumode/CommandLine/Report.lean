import Qumode.Analysis.Basic
import Qumode.Circuit.Document

/-!
# Reports on an analysis

What the analysis of a circuit found, with wires under their front-end names: as a document or as a
table.
-/

namespace Qumode.CommandLine

/-- One execution group as it is reported. -/
structure GroupReport where
  measurements : List Nat
  readouts : List (Wire × BasisSchema)
  diagonalizing : List String
  deriving DecidableEq, Repr

structure Report where
  circuit : String
  qubits : List Wire
  qumodes : List Wire
  groups : List GroupReport
  deriving DecidableEq, Repr

/-- An operation with wires under their front-end names. -/
def operationText (c : Circuit) (op : Operation) : String :=
  op.name ++ "(" ++ ", ".intercalate (op.wires.map fun w => (c.wireLabel w).text) ++ ")"

def GroupReport.ofGroup (c : Circuit) (g : ExecutionGroup) : GroupReport where
  measurements := g.measurements
  readouts := g.readouts.map fun (w, schema) => (c.wireLabel w, schema)
  diagonalizing := g.diagonalizing.map (operationText c)

def Report.ofAnalysis (c : Circuit) (r : Analysis) : Report where
  circuit := c.name
  qubits := r.discreteWires.map c.wireLabel
  qumodes := r.continuousWires.map c.wireLabel
  groups := r.groups.map (GroupReport.ofGroup c)

def GroupReport.toDocument (g : GroupReport) : Document :=
  .fields
    [(some "measurements", .list (g.measurements.map fun i => .number (.ofNat i))),
     (some "readouts", .list (g.readouts.map fun (w, schema) =>
       .fields [(some "wire", w.toDocument), (some "schema", .text (some schema.text))])),
     (some "diagonalizing", .list (g.diagonalizing.map fun op => .text (some op)))]

def Report.toDocument (r : Report) : Document :=
  .fields
    [(some "circuit", .text (some r.circuit)),
     (some "qubits", .list (r.qubits.map Wire.toDocument)),
     (some "qumodes", .list (r.qumodes.map Wire.toDocument)),
     (some "groups", .list (r.groups.map GroupReport.toDocument))]

def joinWires (wires : List Wire) : String := ", ".intercalate (wires.map Wire.text)

/-- The lines of the table for one group. -/
def GroupReport.table (index : Nat) (g : GroupReport) : String :=
  "\n  → group " ++ toString index ++ " (measurements "
    ++ ", ".intercalate (g.measurements.map toString) ++ ")\n"
    ++ String.join (g.readouts.map fun (w, schema) =>
      "    " ++ w.text ++ "  " ++ schema.text ++ "\n")
    ++ (if g.diagonalizing.isEmpty then ""
        else "    rotate: " ++ "; ".intercalate g.diagonalizing ++ "\n")

/-- The report as a table; a backend that was checked is named at its end. -/
def Report.table (r : Report) (backend : Option String) : String :=
  "✓ Analysed " ++ r.circuit ++ "\n"
    ++ "  Qubits  (" ++ toString r.qubits.length ++ "): " ++ joinWires r.qubits ++ "\n"
    ++ "  Qumodes (" ++ toString r.qumodes.length ++ "): " ++ joinWires r.qumodes ++ "\n"
    ++ "  Executions: " ++ toString r.groups.length ++ "\n"
    ++ String.join (r.groups.zipIdx.map fun (g, index) => g.table index)
    ++ match backend with
      | some name => "\n✓ Compatible with backend " ++ name ++ "\n"
      | none => ""

end Qumode.CommandLine

import Qumode.Analysis.Basic

/-!
# Backends

A backend profile says whether qumodes are available, how they can be read out, and how many
executions one submission may have. `check` finds the first thing that a circuit needs and the
backend lacks.
-/

namespace Qumode

structure Backend where
  name : String
  supportsContinuous : Bool
  readouts : List BasisSchema := []
  maxExecutions : Option UInt64 := none
  deriving DecidableEq, Repr

namespace Backend

/-- A device with qubits alone. -/
def qubitOnly (name : String) : Backend := ⟨name, false, [], none⟩

/-- A device with qumodes and every readout. -/
def hybrid (name : String) : Backend := ⟨name, true, [.discrete, .position, .coherent], none⟩

/-- A device whose qumodes are read out by counting alone. -/
def fockOnly (name : String) : Backend := ⟨name, true, [.discrete], none⟩

/-- The first readout of a group on a qumode that the backend lacks. -/
def missingReadout? (b : Backend) (r : Analysis) (g : ExecutionGroup) :
    Option (WireId × BasisSchema) :=
  g.readouts.find? fun (w, schema) =>
    r.wireType? w = some .continuous && !b.readouts.contains schema

/-- The first thing that a circuit needs and the backend lacks: qumodes, then a readout in the order
of the groups, then the number of executions. -/
def gap? (b : Backend) (r : Analysis) : Option BackendGap :=
  if !b.supportsContinuous && !r.isDiscreteOnly then some (.qumodes r.continuousWires.length)
  else
    match r.groups.zipIdx.findSome? fun (g, index) =>
        (b.missingReadout? r g).map fun (w, schema) => BackendGap.readout index schema w with
    | some gap => some gap
    | none =>
      match b.maxExecutions with
      | some limit =>
        if limit.toNat < r.groups.length then some (.executions r.groups.length limit.toNat)
        else none
      | none => none

/-- Whether a backend can run an analysed circuit. -/
def check (b : Backend) (r : Analysis) : Except AnalysisError Unit :=
  match b.gap? r with
  | some gap => .error (.unsupportedByBackend b.name gap)
  | none => .ok ()

end Backend

end Qumode

import Qumode.Circuit.Basic
import Qumode.Readout.Schema

/-!
# Why an analysis fails

`Site` points at the operation or measurement that demands something of a wire, `Origin` adds its
name for a report, and `AnalysisError` is one constructor for each cause.
-/

namespace Qumode

/-- An element of a circuit, by its position. -/
inductive Site where
  | operation (index : Nat)
  | measurement (index : Nat)
  deriving DecidableEq, Repr

/-- An element of a circuit as it is reported. -/
structure Origin where
  site : Site
  name : String
  deriving DecidableEq, Repr

namespace Origin

def text (o : Origin) : String :=
  match o.site with
  | .operation index => "operation " ++ toString index ++ " (" ++ o.name ++ ")"
  | .measurement index => "measurement " ++ toString index ++ " (" ++ o.name ++ ")"

instance : ToString Origin := ⟨text⟩

end Origin

/-- The element at a site with its name, which is empty when there is no such element. -/
def Site.describe (site : Site) (c : Circuit) : Origin :=
  ⟨site, match site with
    | .operation index => (c.operations[index]?.map (·.name)).getD ""
    | .measurement index => (c.measurements[index]?.map Observable.name).getD ""⟩

/-- What a backend lacks for a circuit. -/
inductive BackendGap where
  | qumodes (count : Nat)
  | readout (group : Nat) (schema : BasisSchema) (wire : WireId)
  | executions (count limit : Nat)
  deriving DecidableEq, Repr

def BackendGap.text : BackendGap → String
  | qumodes count => toString count ++ " qumode wire(s) but no qumode support"
  | readout group schema wire =>
    "group " ++ toString group ++ " needs a " ++ schema.text ++ " readout on " ++ wire.text
  | executions count limit =>
    toString count ++ " executions exceed the limit of " ++ toString limit

/-- Why an analysis fails. -/
inductive AnalysisError where
  | circuit (error : CircuitError)
  | aliasing (wire : Wire) (resolved : WireType) (prior conflicting : Origin)
  | schemaConflict (wire : Wire) (measurement : Origin) (first second : BasisSchema)
  | unsupportedObservable (observable : String) (wire : Wire) (measurement : Origin)
  | unresolvedWire (wire : Wire)
  | unsupportedByBackend (backend : String) (gap : BackendGap)
  deriving DecidableEq, Repr

def AnalysisError.message : AnalysisError → String
  | circuit error => "IR error: " ++ error.message
  | aliasing wire resolved prior conflicting =>
    "Aliasing on wire " ++ wire.text ++ ": " ++ prior.text ++ " uses it as a " ++ resolved.text
      ++ ", but " ++ conflicting.text ++ " requires a " ++ resolved.opposite.text
  | schemaConflict wire measurement first second =>
    "Schema conflict on wire " ++ wire.text ++ " in " ++ measurement.text ++ ": " ++ first.text
      ++ " vs " ++ second.text
  | unsupportedObservable observable wire measurement =>
    "Observable '" ++ observable ++ "' on wire " ++ wire.text ++ " in " ++ measurement.text
      ++ " has no natural basis"
  | unresolvedWire wire =>
    "Wire " ++ wire.text ++ " is never constrained to a qubit or a qumode"
  | unsupportedByBackend backend gap =>
    "Backend '" ++ backend ++ "' cannot run this circuit: " ++ gap.text

end Qumode

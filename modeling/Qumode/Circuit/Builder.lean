import Qumode.Circuit.Basic

/-!
# Building circuits

A circuit grows by operation records and by measurements. Each call either appends one element, and
the wires it names for the first time, or fails. `Normal` is a computation that registers wires and
may fail on the way; the wires registered before the failure stay. `Builder` is one on circuits: its
calls leave the circuit as it was when they fail, which for a measurement means that the wires
registered on the way are forgotten again.
-/

namespace Qumode

/-- A computation that registers wires in a table. -/
abbrev Normal := EStateM CircuitError WireTable

/-- A computation that extends a circuit. -/
abbrev Builder := EStateM CircuitError Circuit

namespace Normal

/-- The id of a wire, registered on first reference. -/
def intern (w : Wire) : Normal WireId := modifyGet fun t => t.intern w

/-- The ids of several wires, registered in order. -/
def internAll : List Wire → Normal (List WireId)
  | [] => pure []
  | w :: rest => do
    let id ← intern w
    let ids ← internAll rest
    pure (id :: ids)

/-- The ids of the wires of one leaf, which are registered up to the first that is repeated. -/
def internDistinct (leafName : String) (seen : List Wire) : List Wire → Normal (List WireId)
  | [] => pure []
  | w :: rest => do
    if w ∈ seen then throw (.duplicateWire w leafName)
    let id ← intern w
    let ids ← internDistinct leafName (w :: seen) rest
    pure (id :: ids)

/-- A classified leaf. The name is looked up before any wire is registered. -/
def leaf (raw : NamedObservable) : Normal Leaf := do
  match LeafKind.classify raw.name raw.wires.length raw.params with
  | .error e => throw e
  | .ok kind =>
    let ids ← internDistinct raw.name [] raw.wires
    pure ⟨raw.name, ids, kind⟩

mutual

/-- The classified tree of an observable. An empty sum or product is refused at the node itself. -/
def observable : RawObservable → Normal (Observable Leaf)
  | .leaf raw => do
    let leaf ← leaf raw
    pure (.leaf leaf)
  | .sum terms => do
    if terms.isEmpty then throw (.emptyComposite .sum)
    let terms ← observables terms
    pure (.sum terms)
  | .product factors => do
    if factors.isEmpty then throw (.emptyComposite .product)
    let factors ← observables factors
    pure (.product factors)
  | .adjoint base => do
    let base ← observable base
    pure (.adjoint base)
  | .power base exponent => do
    let base ← observable base
    pure (.power base exponent)

/-- The classified trees of several observables, left to right. -/
def observables : List RawObservable → Normal (List (Observable Leaf))
  | [] => pure []
  | raw :: rest => do
    let t ← observable raw
    let ts ← observables rest
    pure (t :: ts)

end

end Normal

/-- The first wire that stands in the list before, if any does. -/
def firstRepeated? (seen : List Wire) : List Wire → Option Wire
  | [] => none
  | w :: rest => if w ∈ seen then some w else firstRepeated? (w :: seen) rest

/-- The capability that a record declares. A hybrid operation must say how many of its wires are
qumodes, and at most all of them are. -/
def OperationRecord.capability? (r : OperationRecord) : Except OperationFault Capability :=
  match r.capability with
  | .standard => .ok .standard
  | .continuousNative => .ok .continuousNative
  | .hybrid =>
    match r.numContinuous with
    | none => .error .missingCount
    | some count =>
      if r.wires.length < count.toNat then
        .error (.countExceedsWires count.toNat r.wires.length)
      else .ok (.hybrid count.toNat)

/-- What is wrong with a record as the operation with the given index, or its capability. The count
is looked at before the wires. -/
def OperationRecord.check (r : OperationRecord) (index : Nat) : Except CircuitError Capability :=
  match r.capability? with
  | .error fault => .error (.malformedOperation index r.name fault)
  | .ok capability =>
    match firstRepeated? [] r.wires with
    | some w => .error (.duplicateWire w r.name)
    | none => .ok capability

namespace Circuit

/-- Appends an operation. -/
def pushRecord (r : OperationRecord) : Builder Unit := fun c =>
  match r.check c.operations.length with
  | .error e => .error e c
  | .ok capability =>
    match (Normal.internAll r.wires).run c.wires with
    | .error e _ => .error e c
    | .ok ids wires =>
      .ok () { c with
        wires
        operations := c.operations ++ [⟨r.name, ids, r.params, capability⟩] }

/-- Appends an operation on qubits. -/
def standard (name : String) (wires : List Wire) (params : List Param) : Builder Unit :=
  pushRecord (.standard name wires params)

/-- Appends an operation on qumodes. -/
def continuous (name : String) (wires : List Wire) (params : List Param) : Builder Unit :=
  pushRecord (.continuous name wires params)

/-- Appends an operation on qumodes and qubits. -/
def hybrid (name : String) (wires : List Wire) (numContinuous : UInt64) (params : List Param) :
    Builder Unit :=
  pushRecord (.hybrid name wires numContinuous params)

/-- Appends a terminal measurement. When it fails, the wires registered on the way are forgotten. -/
def measure (raw : RawObservable) : Builder Unit := fun c =>
  match (Normal.observable raw).run c.wires with
  | .error e wires => .error e { c with wires := wires.truncate c.wires.size }
  | .ok t wires => .ok () { c with wires, measurements := c.measurements ++ [t] }

/-- Appends all operations and then all measurements of a description. -/
def pushDescription (d : Description) : Builder Unit := do
  d.operations.forM pushRecord
  d.measurements.forM measure

/-- The circuit that a description stands for. -/
def ofDescription (d : Description) : Except CircuitError Circuit :=
  match (pushDescription d).run (empty d.name) with
  | .ok _ c => .ok c
  | .error e _ => .error e

end Circuit

end Qumode

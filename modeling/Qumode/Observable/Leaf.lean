import Qumode.Circuit.Error

/-!
# Classified leaves

A leaf is known by its name. The classification says what types it demands of its wires and in what
basis it is diagonal:

* qubit observables are read in the computational basis after fixed gates;
* qumode observables are functions of the photon number, of one quadrature, or of the complex
  amplitude, or they have no natural basis;
* hybrid observables act on qumodes and qubits at once;
* the identity demands nothing.
-/

namespace Qumode

/-- The basis in which a qumode observable is diagonal. -/
inductive NaturalBasis where
  | fock
  | quadrature (angle : Real64)
  | coherent (phase : Real64)
  deriving DecidableEq, Repr

/-- What kind of observable a leaf is. Gates are applied in list order. A qumode part without a
basis cannot be read out. -/
inductive LeafKind where
  | identity
  | discrete (gates : List String)
  | continuous (basis : Option NaturalBasis)
  | hybrid (numContinuous : Nat) (basis : Option NaturalBasis)
  deriving DecidableEq, Repr

/-- A leaf over the wires of a circuit. -/
structure Leaf where
  name : String
  wires : List WireId
  kind : LeafKind
  deriving DecidableEq, Repr

/-- The names of observables on at least one wire, each with its kind. -/
def LeafKind.ofName? (name : String) (numWires : Nat) (params : List Real64) :
    Except CircuitError LeafKind :=
  match name with
  | "Identity" => .ok .identity
  | "PauliZ" | "Projector" => .ok (.discrete [])
  | "PauliX" => .ok (.discrete ["Hadamard"])
  | "PauliY" => .ok (.discrete ["PauliZ", "S", "Hadamard"])
  | "NumberOperator" | "TensorN" | "FockStateProjector" | "Parity" => .ok (.continuous (some .fock))
  | "QuadX" => .ok (.continuous (some (.quadrature .zero)))
  | "QuadP" => .ok (.continuous (some (.quadrature .halfPi)))
  | "QuadOperator" =>
    match params with
    | angle :: _ => .ok (.continuous (some (.quadrature angle)))
    | [] => .error (.malformedObservable name .missingAngle)
  | "Heterodyne" => .ok (.continuous (some (.coherent (params.headD .zero))))
  | "PolyXP" | "QuadraticPhase" => .ok (.continuous none)
  | "ConditionalNumber" => hybrid .fock
  | "ConditionalQuadX" => hybrid (.quadrature .zero)
  | _ => .error (.unknownObservable name)
where
  /-- One qumode in `basis`, and at least one qubit. -/
  hybrid (basis : NaturalBasis) : Except CircuitError LeafKind :=
    if numWires < 2 then .error (.malformedObservable name .tooFewWires)
    else .ok (.hybrid 1 (some basis))

/-- The kind of the leaf with a given name on `numWires` wires. A leaf on no wires is refused before
its name is looked at. -/
def LeafKind.classify (name : String) (numWires : Nat) (params : List Real64) :
    Except CircuitError LeafKind :=
  if numWires = 0 then .error (.malformedObservable name .noWires)
  else ofName? name numWires params

/-- The name that an observable is reported under: the name of a leaf or the kind of an inner
node. -/
def Observable.name (t : Observable Leaf) : String :=
  match t.root with
  | .inr found => found.name
  | .inl kind => kind.text

end Qumode

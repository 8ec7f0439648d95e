import Qumode.Observable.Leaf
import Qumode.Operation

/-!
# Front-end records

What a front end hands over: wires under their own names, hybrid operations with or without their
number of qumodes, and observables by name. A `Description` is a whole circuit in that form.
-/

namespace Qumode

/-- The capability of an operation without the number of its qumodes. -/
inductive CapabilityTag where
  | standard
  | continuousNative
  | hybrid
  deriving DecidableEq, Repr

structure OperationRecord where
  name : String
  wires : List Wire
  params : List Param := []
  capability : CapabilityTag
  numContinuous : Option UInt64 := none
  deriving DecidableEq, Repr

namespace OperationRecord

def standard (name : String) (wires : List Wire) (params : List Param) : OperationRecord :=
  ⟨name, wires, params, .standard, none⟩

def continuous (name : String) (wires : List Wire) (params : List Param) : OperationRecord :=
  ⟨name, wires, params, .continuousNative, none⟩

def hybrid (name : String) (wires : List Wire) (numContinuous : UInt64) (params : List Param) :
    OperationRecord :=
  ⟨name, wires, params, .hybrid, some numContinuous⟩

end OperationRecord

/-- An observable by name, not yet classified. -/
structure NamedObservable where
  name : String
  wires : List Wire
  params : List Real64 := []
  deriving DecidableEq, Repr

/-- An observable as the front end builds it. -/
abbrev RawObservable := Observable NamedObservable

structure Description where
  name : String := ""
  operations : List OperationRecord := []
  measurements : List RawObservable := []
  deriving Inhabited

end Qumode

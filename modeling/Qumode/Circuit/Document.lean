import Qumode.Circuit.Description
import Qumode.Document.Record

/-!
# Descriptions as documents

How a description is read from a document, and the document it is written as. A wire is an integer
or a text; a parameter is an integer if it is written as one and fits, and a real otherwise. Only
observables nest without bound, and they are read down to a fixed depth.
-/

namespace Qumode

def Wire.ofDocument? (d : Document) : Option Wire :=
  match d.scalar? with
  | some (.integer n) => if 0 ≤ n ∧ n < UInt32.size then some (.index (.ofNat n.toNat)) else none
  | some (.text name) => some (.label name)
  | _ => none

def Wire.toDocument : Wire → Document
  | .index number => .number (.ofNat number.toNat)
  | .label name => .text (some name)

def Param.ofDocument? (d : Document) : Option Param :=
  match d.scalar? with
  | some (.integer n) =>
    if Int64.minValue.toInt ≤ n ∧ n ≤ Int64.maxValue.toInt then some (.int (.ofInt n))
    else some (.real (.ofInt n))
  | some (.real x) => some (.real x)
  | _ => none

/-- A real as a number; nothing stands for one that is not finite. -/
def Real64.toDocument (x : Real64) : Document :=
  if x.isFinite then .number (.real x) else .null

def Param.toDocument : Param → Document
  | .int value => .number (.ofInt value.toInt)
  | .real value => value.toDocument

namespace CapabilityTag

def text : CapabilityTag → String
  | standard => "Standard"
  | continuousNative => "ContinuousNative"
  | hybrid => "Hybrid"

def ofText? (name : String) : Option CapabilityTag :=
  [standard, continuousNative, hybrid].find? fun tag => tag.text = name

end CapabilityTag

namespace OperationRecord

def ofDocument? (dialect : Dialect) (d : Document) : Option OperationRecord := do
  let r ← d.record? ["name", "wires", "params", "capability", "num_continuous"]
  let name ← r.required "name" Document.text?
  let wires ← r.required "wires" (Document.list? Wire.ofDocument?)
  let params ← r.withDefault "params" [] (Document.list? Param.ofDocument?)
  let capability ← r.required "capability" fun d => do
    CapabilityTag.ofText? (← d.unitVariant? dialect)
  let numContinuous ← r.withDefault "num_continuous" none (Document.option? Document.uint64?)
  some { name, wires, params, capability, numContinuous }

def toDocument (r : OperationRecord) : Document :=
  .fields <|
    [(some "name", .text (some r.name)),
     (some "wires", .list (r.wires.map Wire.toDocument)),
     (some "params", .list (r.params.map Param.toDocument)),
     (some "capability", .text (some r.capability.text))]
    ++ match r.numContinuous with
      | none => []
      | some count => [(some "num_continuous", .number (.ofNat count.toNat))]

end OperationRecord

namespace NamedObservable

def ofDocument? (d : Document) : Option NamedObservable := do
  let r ← d.record? ["name", "wires", "params"]
  let name ← r.required "name" Document.text?
  let wires ← r.required "wires" (Document.list? Wire.ofDocument?)
  let params ← r.withDefault "params" [] (Document.list? Document.real?)
  some { name, wires, params }

def toDocument (o : NamedObservable) : Document :=
  .fields
    [(some "name", .text (some o.name)),
     (some "wires", .list (o.wires.map Wire.toDocument)),
     (some "params", .list (o.params.map Real64.toDocument))]

end NamedObservable

namespace RawObservable

/-- An observable that nests at most `depth` lists and records deep. A leaf, and an inner node
above its children, is a record in a record in which a list stands; a node without a list takes one
level less. -/
def ofDocument? (dialect : Dialect) : Nat → Document → Option RawObservable
  | depth + 3, d => do
    let (name, some body) ← d.variant? dialect | none
    match name with
    | "Named" => (NamedObservable.ofDocument? body).map .leaf
    | "Sum" => do
      let r ← body.record? ["terms"]
      (r.required "terms" (Document.list? (ofDocument? dialect depth))).map .sum
    | "Prod" => do
      let r ← body.record? ["factors"]
      (r.required "factors" (Document.list? (ofDocument? dialect depth))).map .product
    | "Adjoint" => do
      let r ← body.record? ["base"]
      (r.required "base" (ofDocument? dialect (depth + 1))).map .adjoint
    | "Pow" => do
      let r ← body.record? ["base", "exponent"]
      let base ← r.required "base" (ofDocument? dialect (depth + 1))
      let exponent ← r.required "exponent" Document.real?
      some (.power base exponent)
    | _ => none
  | _, _ => none

mutual

def toDocument : RawObservable → Document
  | .leaf named => .fields [(some "Named", named.toDocument)]
  | .sum terms => .fields [(some "Sum", .fields [(some "terms", .list (toDocuments terms))])]
  | .product factors =>
    .fields [(some "Prod", .fields [(some "factors", .list (toDocuments factors))])]
  | .adjoint base => .fields [(some "Adjoint", .fields [(some "base", toDocument base)])]
  | .power base exponent =>
    .fields [(some "Pow", .fields
      [(some "base", toDocument base), (some "exponent", exponent.toDocument)])]

def toDocuments : List RawObservable → List Document
  | [] => []
  | t :: rest => toDocument t :: toDocuments rest

end

end RawObservable

namespace Description

/-- The description in a document whose fields are read down to a depth of `limit` lists and
records. Its measurements stand in a list in a record. -/
def ofDocumentWithin? (limit : Nat) (dialect : Dialect) (d : Document) : Option Description := do
  let r ← d.record? ["name", "operations", "measurements"]
  let name ← r.withDefault "name" "" Document.text?
  let operations ← r.withDefault "operations" []
    (Document.list? (OperationRecord.ofDocument? dialect))
  let measurements ← r.withDefault "measurements" []
    (Document.list? (RawObservable.ofDocument? dialect (limit - 2)))
  some { name, operations, measurements }

/-- How deep the fields that are read may nest lists and records. -/
def depthLimit : Nat := 127

def ofDocument? : Dialect → Document → Option Description := ofDocumentWithin? depthLimit

def toDocument (d : Description) : Document :=
  .fields
    [(some "name", .text (some d.name)),
     (some "operations", .list (d.operations.map OperationRecord.toDocument)),
     (some "measurements", .list (RawObservable.toDocuments d.measurements))]

end Description

end Qumode

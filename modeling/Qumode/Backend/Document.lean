import Qumode.Backend.Basic
import Qumode.Document.Record

/-!
# Backend profiles as documents
-/

namespace Qumode

def BasisSchema.ofText? (name : String) : Option BasisSchema :=
  [.discrete, .position, .coherent].find? fun schema => schema.text = name

namespace Backend

def ofDocument? (dialect : Dialect) (d : Document) : Option Backend := do
  let r ← d.record? ["name", "supports_continuous", "readouts", "max_executions"]
  let name ← r.required "name" Document.text?
  let supportsContinuous ← r.required "supports_continuous" Document.bool?
  let readouts ← r.withDefault "readouts" [] <| Document.list? fun d => do
    BasisSchema.ofText? (← d.unitVariant? dialect)
  let maxExecutions ← r.withDefault "max_executions" none (Document.option? Document.uint64?)
  some { name, supportsContinuous, readouts, maxExecutions }

def toDocument (b : Backend) : Document :=
  .fields <|
    [(some "name", .text (some b.name)),
     (some "supports_continuous", .bool b.supportsContinuous),
     (some "readouts", .list (b.readouts.map fun schema => .text (some schema.text)))]
    ++ match b.maxExecutions with
      | none => []
      | some limit => [(some "max_executions", .number (.ofNat limit.toNat))]

end Backend

end Qumode

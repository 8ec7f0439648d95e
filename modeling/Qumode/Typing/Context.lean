import Qumode.Analysis.Error

/-!
# The types of wires, as far as they are known

A `TypeContext` has a slot for every wire of a circuit. A slot is filled by the first demand on its
wire, with the demanded type and the site of the demand, and never changes afterwards; a later
demand is met if it asks for the same type. `Typing` is a computation that makes demands and may
fail on the way; the slots filled before the failure stay filled.
-/

namespace Qumode

/-- A settled type and the site that settled it. -/
structure Settled where
  type : WireType
  site : Site
  deriving DecidableEq, Repr

/-- What is known of the type of each wire. -/
structure TypeContext where
  slots : List (Option Settled)
  deriving DecidableEq, Repr

/-- A computation that makes demands on wires. -/
abbrev Typing := EStateM AnalysisError TypeContext

namespace TypeContext

/-- Nothing is known of the wires of a circuit. -/
def start (c : Circuit) : TypeContext := ⟨List.replicate c.numWires none⟩

/-- The type of a wire, if it is settled. -/
def get? (ctx : TypeContext) (w : WireId) : Option WireType :=
  ctx.slots[w.index]?.join.map (·.type)

/-- The types from wire `index` on, or the first wire whose type is not settled. -/
def finishFrom (c : Circuit) (index : Nat) : List (Option Settled) →
    Except AnalysisError (List WireType)
  | [] => .ok []
  | none :: _ => .error (.unresolvedWire (c.wireLabel ⟨index⟩))
  | some settled :: rest => do
    let types ← finishFrom c (index + 1) rest
    .ok (settled.type :: types)

/-- The types of all wires, or the first wire whose type is not settled. -/
def finish (c : Circuit) (ctx : TypeContext) : Except AnalysisError (List WireType) :=
  finishFrom c 0 ctx.slots

end TypeContext

namespace Typing

/-- Demands a type of a wire. -/
def require (c : Circuit) (w : WireId) (type : WireType) (site : Site) : Typing Unit := fun ctx =>
  match ctx.slots[w.index]? with
  | none => .error (.unresolvedWire (c.wireLabel w)) ctx
  | some none => .ok () ⟨ctx.slots.set w.index (some ⟨type, site⟩)⟩
  | some (some settled) =>
    if settled.type = type then .ok () ctx
    else .error
      (.aliasing (c.wireLabel w) settled.type (settled.site.describe c) (site.describe c)) ctx

/-- Makes the demands of one operation. -/
def operation (c : Circuit) (op : Operation) (index : Nat) : Typing Unit :=
  op.requirements.forM fun (w, type) => require c w type (.operation index)

/-- Makes the demands of all operations, in program order. -/
def operations (c : Circuit) : Typing Unit :=
  c.operations.zipIdx.forM fun (op, index) => operation c op index

end Typing

end Qumode

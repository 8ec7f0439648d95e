import Mathlib.Data.List.Perm.Subperm
import Qumode.Proofs.Circuit.Calls

/-!
# Circuits only grow

A call moves nothing that is in a circuit: it adds wires behind the wires, an operation behind the
operations or a measurement behind the measurements, and a call that fails adds nothing. So a
circuit stands at the beginning of every circuit that is built from it (`extends_afterCalls`), with
the same ids for its wires, and a circuit without new wires and measurements differs in operations
alone.
-/

namespace Qumode.Circuit

/-- The wires, the operations and the measurements of the second circuit begin with those of the
first. -/
structure Extends (c d : Circuit) : Prop where
  wires : c.wires.Within d.wires
  operations : c.operations <+: d.operations
  measurements : c.measurements <+: d.measurements

variable {c d e : Circuit}

theorem Extends.refl (c : Circuit) : c.Extends c :=
  ⟨.refl c.wires, List.prefix_refl _, List.prefix_refl _⟩

theorem Extends.trans (h : c.Extends d) (h' : d.Extends e) : c.Extends e where
  wires := h.wires.trans h'.wires
  operations := h.operations.trans h'.operations
  measurements := h.measurements.trans h'.measurements

/-- A call that succeeds only adds to the circuit. -/
theorem extends_of_run {call : Call} (done : call.run c = .ok () d) : c.Extends d := by
  obtain ⟨table, within, ⟨op, wires, -, -, rfl⟩ | ⟨tree, named, -, rfl⟩⟩ := Call.run_cases done
  · exact ⟨within, List.prefix_append _ _, List.prefix_refl _⟩
  · exact ⟨within, List.prefix_refl _, List.prefix_append _ _⟩

/-- So does any call, since one that fails adds nothing. -/
theorem extends_after (c : Circuit) (call : Call) : c.Extends (call.after c) := by
  cases done : call.succeeds c with
  | true => exact extends_of_run (Call.run_eq_ok_of_succeeds done)
  | false =>
    rw [Call.after_eq_of_not_succeeds done]
    exact .refl c

/-- Calls keep what a circuit has, whether they succeed or not. -/
theorem extends_afterCalls (c : Circuit) (calls : List Call) : c.Extends (c.afterCalls calls) := by
  induction calls generalizing c with
  | nil => exact .refl c
  | cons call rest ih => exact (extends_after c call).trans (ih (call.after c))

/-- A run of calls may be continued. -/
theorem Reachable.afterCalls (h : c.Reachable) (calls : List Call) :
    (c.afterCalls calls).Reachable := by
  obtain ⟨name, first, rfl⟩ := h
  refine ⟨name, first ++ calls, ?_⟩
  unfold Circuit.afterCalls
  rw [List.foldl_append]

namespace Extends

theorem numWires_le (h : c.Extends d) : c.numWires ≤ d.numWires := h.wires.size_le

/-- A circuit with as many wires has the same ones. -/
theorem numWires_eq_iff (h : c.Extends d) :
    d.numWires = c.numWires ↔ ∀ w ∈ d.wires.names, w ∈ c.wires.names := by
  constructor
  · intro same w mem
    have names : c.wires.names = d.wires.names := h.wires.eq_of_length same.symm
    rwa [names]
  · intro known
    have distinct : d.wires.names.Nodup := d.wires.distinct
    have no_more : d.numWires ≤ c.numWires := (distinct.subperm known).length_le
    exact Nat.le_antisymm no_more h.numWires_le

/-- A circuit with as many measurements has the same ones. -/
theorem measurements_eq (h : c.Extends d) (same : d.measurements.length = c.measurements.length) :
    d.measurements = c.measurements :=
  (h.measurements.eq_of_length same.symm).symm

/-- The operations are those of the first circuit and the appended ones. -/
theorem operations_eq (h : c.Extends d) :
    d.operations = c.operations ++ d.operations.drop c.operations.length := by
  obtain ⟨appended, grown⟩ := h.operations
  rw [← grown, List.drop_left]

end Extends

end Qumode.Circuit

import Qumode.Proofs.Circuit.Extension
import Qumode.Proofs.Grouping.Growth
import Qumode.Proofs.Readout.Collection
import Qumode.Proofs.Analysis.Consistency

/-!
# Analyses grow with their circuits

Further calls to a circuit may give it wires, operations and measurements, and the calls may make it
inconsistent. If they do not, the analysis of the circuit stands at the beginning of the new one:
the types of the old wires are as before because what required them still does, the readouts of the
old measurements are their own, and grouping more measurements leaves the groups of the old ones in
their places.
-/

namespace Qumode

variable {c d : Circuit} {r r' : Analysis}

/-- What a circuit requires of a wire, a circuit that it begins requires, too. -/
theorem Circuit.Extends.requires (grown : c.Extends d) {w : WireId} {t : WireType}
    (required : c.Requires w t) : d.Requires w t := by
  rcases required with ⟨op, hop, mem⟩ | ⟨m, hm, asked⟩
  · exact .inl ⟨op, grown.operations.subset hop, mem⟩
  · exact .inr ⟨m, grown.measurements.subset hm, asked⟩

namespace Analysis

open Circuit

/-- The wires of the smaller circuit keep their types, in front of the others. -/
theorem wireTypes_begin (describes : r.Describes c) (describes' : r'.Describes d)
    (grown : c.Extends d) : r.wireTypes <+: r'.wireTypes := by
  rw [List.prefix_iff_getElem?]
  intro i inside
  have type : r.wireType? ⟨i⟩ = some r.wireTypes[i] := List.getElem?_eq_getElem inside
  have required := grown.requires ((describes.wireType? _ _).1 type)
  exact (describes'.wireType? _ _).2 required

/-- The schemas of the measurements that stand at the beginning. -/
theorem schemas_begin (analysed : ofCircuit c = .ok r) (analysed' : ofCircuit d = .ok r')
    (grown : c.Extends d) : r.schemas <+: r'.schemas := by
  have first := schemas_of_ofCircuit analysed
  have second := schemas_of_ofCircuit analysed'
  obtain ⟨more, measurements⟩ := grown.measurements
  rw [← measurements] at second
  have beginning := (List.forall₂_take_append _ _ _ second.flip).flip
  rw [List.right_unique_forall₂' Observable.schema?_rightUnique first beginning]
  exact List.take_prefix _ _

/-- If a circuit has an analysis before further calls and after them, the second one begins with the
first: the types of the wires, the schemas of the measurements, and in every group its measurements,
its readouts and its operations. For the groups this holds of all lists of schemas. -/
theorem grows_with_circuit (built : c.Reachable) (calls : List Call)
    (analysed : ofCircuit c = .ok r) (analysed' : ofCircuit (c.afterCalls calls) = .ok r') :
    r.wireTypes <+: r'.wireTypes ∧ r.schemas <+: r'.schemas ∧ Grouping.Grown r.groups r'.groups ∧
      ∀ schemas more : List MeasurementSchema, Grouping.Grown
        (Grouping.groupMeasurements schemas) (Grouping.groupMeasurements (schemas ++ more)) := by
  have grown := extends_afterCalls c calls
  have describes := describes_of_ofCircuit built.wellFormed analysed
  have describes' := describes_of_ofCircuit (built.afterCalls calls).wellFormed analysed'
  have schemas := schemas_begin analysed analysed' grown
  refine ⟨wireTypes_begin describes describes' grown, schemas, ?_,
    Grouping.groupMeasurements_append⟩
  obtain ⟨more, later⟩ := schemas
  rw [describes.groups, describes'.groups, ← later]
  exact Grouping.groupMeasurements_append r.schemas more

/-- A third measurement, on a new wire, goes to the first of two groups. -/
theorem grows_by_displaced_wire :
    let c := (empty "c").afterCalls [.measure (.leaf ⟨"PauliZ", [.index 0], []⟩),
      .measure (.leaf ⟨"PauliX", [.index 0], []⟩)]
    let calls : List Call := [.measure (.leaf ⟨"Banana", [.index 5], []⟩),
      .continuous "Displacement" [.index 1] [], .measure (.leaf ⟨"QuadX", [.index 1], []⟩)]
    ∃ r r', ofCircuit c = .ok r ∧ ofCircuit (c.afterCalls calls) = .ok r' ∧
      r.wireTypes = [.discrete] ∧ r'.wireTypes = [.discrete, .continuous] ∧
      r.groups.map (·.measurements) = [[0], [1]] ∧ r'.groups.map (·.measurements) = [[0, 2], [1]] ∧
      r.schemas <+: r'.schemas ∧ Grouping.Grown r.groups r'.groups := by
  intro c calls
  let reading (w : WireId) (q : WireReadout) : MeasurementSchema :=
    MeasurementSchema.empty.push w q List.not_mem_nil
  let hadamard : Operation := .qubitGate "Hadamard" ⟨0⟩
  let z := reading ⟨0⟩ (.plain .discrete)
  let x := reading ⟨0⟩ ⟨.discrete, [hadamard]⟩
  let position := reading ⟨1⟩ (.rotated .position .zero ⟨1⟩)
  let ofX : ExecutionGroup := ⟨[1], [(⟨0⟩, .discrete)], [hadamard]⟩
  let r : Analysis := ⟨[.discrete], [z, x], [⟨[0], [(⟨0⟩, .discrete)], []⟩, ofX]⟩
  let r' : Analysis := ⟨[.discrete, .continuous], [z, x, position],
    [⟨[0, 2], [(⟨0⟩, .discrete), (⟨1⟩, .position)], [.rotation .zero ⟨1⟩]⟩, ofX]⟩
  have analysed : ofCircuit c = .ok r := by decide +kernel
  have analysed' : ofCircuit (c.afterCalls calls) = .ok r' := by decide +kernel
  obtain ⟨-, schemas, groups, -⟩ := grows_with_circuit ⟨_, _, rfl⟩ calls analysed analysed'
  exact ⟨r, r', analysed, analysed', rfl, rfl, rfl, rfl, schemas, groups⟩

end Analysis

end Qumode

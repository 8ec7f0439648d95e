import Qumode.Program.Emission
import Qumode.Proofs.Analysis.Consistency
import Qumode.Proofs.Grouping.Partition

/-!
# When an analysis fits a circuit

`Analysis.Suits` is what a program takes from an analysis: as many wires and placed measurements as
the circuit has, the types that its operations demand, and readouts that wires of their types have.
The checks of `Scope.ofAnalysis` decide it, and the scope then has an operand for every wire and a
kind for every readout (`Scope.Covers`). The analysis of a built circuit suits it.
-/

namespace Qumode

variable {c : Circuit} {r : Analysis} {scope : Scope}

namespace Analysis

/-- The circuit has the wires, the types and the measurements that the analysis says, and wires of
these types have the readouts of the groups. -/
structure Suits (r : Analysis) (c : Circuit) : Prop where
  numWires : r.numWires = c.numWires
  operations : ∀ op ∈ c.operations, ∀ w t, (w, t) ∈ op.requirements → r.wireType? w = some t
  placed : (r.groups.flatMap ExecutionGroup.measurements).length = c.measurements.length
  readouts : ∀ g ∈ r.groups, ∀ w schema, (w, schema) ∈ g.readouts →
    ∃ t, r.wireType? w = some t ∧ (ReadoutKind.ofWire? t schema).isSome

/-- The groups apply their operations to wires that the analysis covers. -/
def GroupsInside (r : Analysis) : Prop :=
  ∀ g ∈ r.groups, ∀ op ∈ g.diagonalizing, ∀ w ∈ op.wires, w.index < r.numWires

theorem index_lt_of_wireType? {w : WireId} {t : WireType} (h : r.wireType? w = some t) :
    w.index < r.numWires :=
  (List.getElem?_eq_some_iff.1 h).1

/-- Every wire that is counted has a type. -/
theorem exists_wireType? {w : WireId} (h : w.index < r.numWires) : ∃ t, r.wireType? w = some t :=
  ⟨r.wireTypes[w.index], List.getElem?_eq_getElem h⟩

namespace Describes

/-- A readout of a measurement is one that a leaf asks for. -/
theorem exists_leaf (h : r.Describes c) {s : MeasurementSchema} (hs : s ∈ r.schemas) {w : WireId}
    {readout : WireReadout} (found : s.get? w = some readout) :
    ∃ m ∈ c.measurements, ∃ l ∈ m.leafList, ∃ t, l.Touches w t (some readout) := by
  obtain ⟨m, hm, asked⟩ := Steps.exists_left_of_mem h.schemas hs
  exact ⟨m, hm, asked w readout found⟩

/-- A wire that a leaf touches has the type that the leaf asks for. -/
theorem requires (h : r.Describes c) {m : Observable Leaf} (hm : m ∈ c.measurements) {l : Leaf}
    (hl : l ∈ m.leafList) {w : WireId} {t : WireType} {readout : Option WireReadout}
    (touches : l.Touches w t readout) : r.wireType? w = some t :=
  (h.wireType? w t).2 (.inr ⟨m, hm, l, hl, readout, touches⟩)

/-- An analysis that describes a circuit suits it. -/
theorem suits (h : r.Describes c) : r.Suits c where
  numWires := h.numWires
  operations op hop w t mem := (h.wireType? w t).2 (.inl ⟨op, hop, mem⟩)
  placed := by rw [h.groups, Grouping.length_measurements, h.schemas.length_eq]
  readouts g hg w schema mem := by
    rw [h.groups] at hg
    obtain ⟨s, hs, readout, found, rfl⟩ := Grouping.mem_readouts hg mem
    obtain ⟨m, hm, l, hl, t, touches⟩ := h.exists_leaf hs found
    exact ⟨t, h.requires hm hl touches, touches.readout.1⟩

/-- The groups of an analysis are about wires of its circuit. -/
theorem groupsInside (h : r.Describes c) : r.GroupsInside := by
  intro g hg op hop
  rw [h.groups] at hg
  obtain ⟨s, hs, v, readout, found, mem⟩ := Grouping.mem_diagonalizing hg hop
  obtain ⟨m, hm, l, hl, t, touches⟩ := h.exists_leaf hs found
  rw [touches.readout.2 op mem, List.forall_mem_singleton]
  exact index_lt_of_wireType? (h.requires hm hl touches)

end Describes

end Analysis

namespace Scope

/-- The scope has an operand for every wire and a kind for every readout of every group. -/
structure Covers (scope : Scope) (c : Circuit) (r : Analysis) : Prop where
  operands : scope.operands.length = c.numWires
  kinds : List.Forall₂ (fun g kinds => kinds.length = g.readouts.length) r.groups scope.kinds

/-- Wires with types are allotted one operand each. -/
theorem allot_isOk {wires : List WireId} (qubits qumodes : Nat)
    (typed : ∀ w ∈ wires, ∃ t, r.wireType? w = some t) :
    ∃ operands counts, allot r qubits qumodes wires = .ok (operands, counts) ∧
      operands.length = wires.length := by
  induction wires generalizing qubits qumodes with
  | nil => exact ⟨[], (qubits, qumodes), rfl, rfl⟩
  | cons w rest ih =>
    rw [List.forall_mem_cons] at typed
    obtain ⟨⟨t, type⟩, typed⟩ := typed
    rw [allot, type]
    cases t with
    | discrete =>
      obtain ⟨operands, counts, done, length⟩ := ih (qubits + 1) qumodes typed
      exact ⟨_ :: operands, counts, Steps.bind_eq_ok.2 ⟨_, done, rfl⟩, congrArg (· + 1) length⟩
    | continuous =>
      obtain ⟨operands, counts, done, length⟩ := ih qubits (qumodes + 1) typed
      exact ⟨_ :: operands, counts, Steps.bind_eq_ok.2 ⟨_, done, rfl⟩, congrArg (· + 1) length⟩

theorem checkWires_eq_ok : checkWires c r = .ok () ↔ r.numWires = c.numWires := by
  rw [checkWires]
  split <;> simp [*]

theorem checkPlaced_eq_ok :
    checkPlaced c r = .ok () ↔
      (r.groups.flatMap ExecutionGroup.measurements).length = c.measurements.length := by
  rw [checkPlaced]
  split
  case isTrue same => exact iff_of_true rfl same
  case isFalse differ => exact iff_of_false (by simp) differ

/-- An operation is accepted when its wires have the types that it requires. -/
theorem checkOperation_eq_ok {op : Operation} {index : Nat} :
    checkOperation r op index = .ok () ↔
      ∀ w t, (w, t) ∈ op.requirements → r.wireType? w = some t := by
  rw [checkOperation]
  split
  case h_1 w t unmet =>
    have differs := List.find?_some unmet
    have mem := List.mem_of_find?_eq_some unmet
    refine iff_of_false (by simp) fun met => ?_
    simp [met w t mem] at differs
  case h_2 none_unmet =>
    rw [List.find?_eq_none] at none_unmet
    refine iff_of_true rfl fun w t mem => ?_
    simpa using none_unmet (w, t) mem

/-- A readout has a kind when its wire has a type that the schema suits. -/
theorem readoutKind_isOk_iff {group : Nat} {w : WireId} {schema : BasisSchema} :
    (∃ kind, readoutKind r group w schema = .ok kind) ↔
      ∃ t, r.wireType? w = some t ∧ (ReadoutKind.ofWire? t schema).isSome := by
  rw [readoutKind]
  cases r.wireType? w with
  | none => simp
  | some t => cases kind : ReadoutKind.ofWire? t schema <;> simp [kind]

/-- A group has kinds when each of its readouts has one. -/
theorem groupKinds_isOk_iff {g : ExecutionGroup} {index : Nat} :
    (∃ kinds, groupKinds r g index = .ok kinds) ↔ ∀ w schema, (w, schema) ∈ g.readouts →
      ∃ t, r.wireType? w = some t ∧ (ReadoutKind.ofWire? t schema).isSome := by
  rw [groupKinds, Steps.mapM_isOk_iff, Prod.forall]
  exact forall₃_congr fun w schema _ => readoutKind_isOk_iff

/-- A group has as many kinds as readouts. -/
theorem length_groupKinds {g : ExecutionGroup} {index : Nat} {kinds : List ReadoutKind}
    (h : groupKinds r g index = .ok kinds) : kinds.length = g.readouts.length :=
  (Steps.mapM_eq_ok.1 h).length_eq.symm

/-- A scope is there when every check succeeds, and holds what they give. -/
theorem ofAnalysis_eq_ok : ofAnalysis c r = .ok scope ↔
    r.numWires = c.numWires ∧ ∃ allotted, allot r 0 0 c.wires.ids = .ok allotted ∧
      (∀ p ∈ c.operations.zipIdx, checkOperation r p.1 p.2 = .ok ()) ∧
      (r.groups.flatMap ExecutionGroup.measurements).length = c.measurements.length ∧
      ∃ kinds, r.groups.zipIdx.mapM (fun p => groupKinds r p.1 p.2) = .ok kinds ∧
        scope = ⟨allotted.1, allotted.2.1, allotted.2.2, kinds⟩ := by
  rw [ofAnalysis, Steps.check_bind_eq_ok, checkWires_eq_ok, Steps.bind_eq_ok]
  refine and_congr_right fun _ => exists_congr fun allotted => and_congr_right fun _ => ?_
  rw [Steps.check_bind_eq_ok, Steps.forM_eq_ok, Steps.check_bind_eq_ok, checkPlaced_eq_ok,
    Steps.bind_eq_ok]
  refine and_congr_right fun _ => and_congr_right fun _ => exists_congr fun kinds =>
    and_congr_right fun _ => ?_
  exact ⟨fun done => (Except.ok.inj done).symm, fun same => congrArg Except.ok same.symm⟩

/-- An analysis that covers a circuit lets an operand be allotted to every wire. -/
theorem allot_ids (h : r.numWires = c.numWires) : ∃ operands counts,
    allot r 0 0 c.wires.ids = .ok (operands, counts) ∧ operands.length = c.numWires := by
  have typed : ∀ w ∈ c.wires.ids, ∃ t, r.wireType? w = some t := by
    intro w hw
    rw [Circuit.mem_ids, ← h] at hw
    exact Analysis.exists_wireType? hw
  obtain ⟨operands, counts, allotted, length⟩ := allot_isOk 0 0 typed
  exact ⟨operands, counts, allotted, by simp [length, WireTable.ids, Circuit.numWires]⟩

/-- The checks pass just when the analysis suits the circuit. -/
theorem ofAnalysis_isOk_iff : (∃ scope, ofAnalysis c r = .ok scope) ↔ r.Suits c := by
  simp only [ofAnalysis_eq_ok]
  constructor
  · rintro ⟨scope, numWires, allotted, -, met, placed, kinds, collected, -⟩
    refine ⟨numWires, fun op hop => ?_, placed, fun g hg => ?_⟩
    · obtain ⟨i, found⟩ := List.mem_iff_getElem?.1 hop
      exact checkOperation_eq_ok.1 (met (op, i) (List.mk_mem_zipIdx_iff_getElem?.2 found))
    · obtain ⟨i, found⟩ := List.mem_iff_getElem?.1 hg
      exact groupKinds_isOk_iff.1
        (Steps.mapM_isOk_iff.1 ⟨kinds, collected⟩ (g, i) (List.mk_mem_zipIdx_iff_getElem?.2 found))
  · intro suits
    obtain ⟨operands, counts, allotted, -⟩ := allot_ids suits.numWires
    have met : ∀ p ∈ c.operations.zipIdx, checkOperation r p.1 p.2 = .ok () := by
      intro p hp
      exact checkOperation_eq_ok.2 (suits.operations p.1 (List.fst_mem_of_mem_zipIdx hp))
    obtain ⟨kinds, collected⟩ : ∃ kinds,
        r.groups.zipIdx.mapM (fun p => groupKinds r p.1 p.2) = .ok kinds := by
      refine Steps.mapM_isOk_iff.2 fun p hp => ?_
      exact groupKinds_isOk_iff.2 (suits.readouts p.1 (List.fst_mem_of_mem_zipIdx hp))
    exact ⟨_, suits.numWires, (operands, counts), allotted, met, suits.placed, kinds, collected,
      rfl⟩

/-- A scope covers the wires and the groups that a program looks up in it. -/
theorem covers_of_ofAnalysis (h : ofAnalysis c r = .ok scope) : scope.Covers c r := by
  obtain ⟨numWires, allotted, allots, -, -, kinds, collected, rfl⟩ := ofAnalysis_eq_ok.1 h
  obtain ⟨operands, counts, allots', length⟩ := allot_ids numWires
  cases allots.symm.trans allots'
  refine ⟨length, ?_⟩
  have lengths := (Steps.mapM_eq_ok.1 collected).imp fun p kinds done => length_groupKinds done
  rw [← List.zipIdx_map_fst 0 r.groups, List.forall₂_map_left_iff]
  exact lengths

end Scope

end Qumode

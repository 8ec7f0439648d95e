import Qumode.Proofs.Analysis.Consistency
import Qumode.Proofs.Grouping.Service
import Qumode.Proofs.Readout.Collection

/-!
# What is placed in a group

A group takes the wires of its measurements in the order in which they are touched first
(`OpenGroup.Lists`), each with the readout of the measurement that touches it first. What it applies
before is what comes with these readouts, one after another. The operations of a resolved readout
are on its wire alone (`MeasurementSchema.Resolved.on_wire`), so those on a wire are the ones that
the placed readout asks for, and no later measurement adds to them.
-/

namespace Qumode

namespace MeasurementSchema

variable {s : MeasurementSchema} {w : WireId} {r : WireReadout}

/-- The schema is what an observable is resolved to, in some circuit and on some typing context. -/
def Resolved (s : MeasurementSchema) : Prop :=
  ∃ (c : Circuit) (t : Observable Leaf) (index : Nat) (ctx ctx' : TypeContext),
    (Typing.observable c t index).run ctx = .ok s ctx'

/-- The operations before a readout are on its wire alone. -/
theorem Resolved.on_wire (resolved : s.Resolved) (touched : s.get? w = some r) :
    ∀ op ∈ r.diagonalizing, op.wires = [w] := by
  obtain ⟨c, t, index, ctx, ctx', run⟩ := resolved
  obtain ⟨-, -, -, collected⟩ := (Typing.observable_makes t index).of_ok run
  obtain ⟨l, -, _, touches⟩ := Analysis.askedBy_of_collects collected w r touched
  exact touches.readout.2

end MeasurementSchema

theorem Typing.resolved_of_measurementsFrom {c : Circuit} {ts : List (Observable Leaf)}
    {index : Nat} {schemas : List MeasurementSchema} {ctx ctx' : TypeContext}
    (done : (measurementsFrom c index ts).run ctx = .ok schemas ctx') :
    ∀ s ∈ schemas, s.Resolved := by
  induction ts generalizing index ctx schemas with
  | nil =>
    cases done
    exact nofun
  | cons t rest ih =>
    unfold measurementsFrom at done
    obtain ⟨s, ctx₁, first, others⟩ := Steps.run_bind_eq_ok.1 done
    obtain ⟨more, ctx₂, later, finish⟩ := Steps.run_bind_eq_ok.1 others
    cases finish
    exact List.forall_mem_cons.2 ⟨⟨c, t, index, ctx, ctx₁, first⟩, ih later⟩

/-- The schemas of an analysis are resolved ones. -/
theorem Analysis.resolved_of_ofCircuit {c : Circuit} {r : Analysis}
    (analysed : ofCircuit c = .ok r) : ∀ s ∈ r.schemas, s.Resolved := by
  obtain ⟨ctx, run, -⟩ := ofCircuit_eq_ok.1 analysed
  unfold resolved at run
  obtain ⟨-, ctx', -, measured⟩ := Steps.run_bind_eq_ok.1 run
  exact Typing.resolved_of_measurementsFrom measured

namespace OpenGroup

variable {schemas : List MeasurementSchema} {g : OpenGroup} {wires : List WireId}
  {readouts : List (WireId × WireReadout)}

/-- The readouts stand in the order in which their wires are named first. -/
def Lists (readouts : List (WireId × WireReadout)) (wires : List WireId) : Prop :=
  readouts.map (·.1) = wires.eraseDups

theorem Lists.addReadout (lists : Lists readouts wires) (w : WireId) (r : WireReadout) :
    Lists (addReadout readouts w r) (wires ++ [w]) := by
  have known : (readouts.lookup w).isSome = true ↔ w ∈ wires := by
    rw [← List.mem_eraseDups, ← show _ = _ from lists]
    simp [List.lookup_isSome_iff]
  unfold Lists OpenGroup.addReadout
  rw [List.eraseDups_append, ← show _ = _ from lists]
  by_cases held : w ∈ wires
  · simp [known.2 held, List.removeAll, held]
  · simp [mt known.1 held, List.removeAll, held, List.eraseDups_cons]

theorem Lists.addReadouts (lists : Lists readouts wires) (entries : List (WireId × WireReadout)) :
    Lists (entries.foldl (fun rs (w, r) => OpenGroup.addReadout rs w r) readouts)
      (wires ++ entries.map (·.1)) := by
  induction entries generalizing readouts wires with
  | nil => rwa [List.map_nil, List.append_nil]
  | cons e rest ih =>
    rw [List.map_cons, List.append_cons]
    exact ih (lists.addReadout e.1 e.2)

/-- A closed group reads a wire out by the readout that was placed for it. -/
theorem basis?_close (g : OpenGroup) (w : WireId) :
    g.close.basis? w = (g.readouts.lookup w).map (·.schema) := by
  unfold ExecutionGroup.basis? close
  induction g.readouts with
  | nil => rfl
  | cons e rest ih =>
    rw [List.map_cons, List.lookup_cons, List.lookup_cons]
    split
    · rfl
    · exact ih

/-- The wires that a measurement touches, in the order in which it touches them. -/
def touched (schemas : List MeasurementSchema) (i : Nat) : List WireId :=
  (schemas[i]?.map fun s => s.entries.map (·.1)).getD []

end OpenGroup

namespace Grouping

open OpenGroup (asked asked_eq_get? touched Lists)

variable {schemas : List MeasurementSchema} {g : ExecutionGroup}

/-- The readouts of a group list the wires its measurements touch, each at its first touch. -/
theorem lists_placeAll (schemas : List MeasurementSchema) :
    ∀ g ∈ placeAll schemas, Lists g.readouts (g.measurements.flatMap (touched schemas)) := by
  have kept : Inductive schemas fun g =>
      Lists g.readouts (g.measurements.flatMap (touched schemas)) := by
    refine ⟨rfl, ?_⟩
    intro g index s lists _ listed _
    have its_wires : touched schemas index = s.entries.map (·.1) := by
      rw [touched, listed]
      rfl
    rw [OpenGroup.measurements_add, List.flatMap_append, List.flatMap_singleton, its_wires]
    exact lists.addReadouts s.entries
  exact kept.placeAll

/-- The groups hold measurements of the list. -/
theorem exists_of_mem_placeAll {g : OpenGroup} (placed : g ∈ placeAll schemas) {i : Nat}
    (hi : i ∈ g.measurements) : ∃ s, schemas[i]? = some s := by
  have listed : i ∈ (placeAll schemas).flatMap (·.measurements) :=
    List.mem_flatMap.2 ⟨g, placed, hi⟩
  rw [(placeAll_measurements schemas).mem_iff, List.mem_range] at listed
  exact ⟨_, List.getElem?_eq_getElem listed⟩

/-- The operations of a group on a wire are those of the readout that is placed for the wire. -/
theorem filter_mem_diagonalizing {entries : List (WireId × WireReadout)}
    (distinct : (entries.map (·.1)).Nodup)
    (on_wire : ∀ e ∈ entries, ∀ op ∈ e.2.diagonalizing, op.wires = [e.1]) {w : WireId}
    {r : WireReadout} (placed : (w, r) ∈ entries) :
    (entries.flatMap (·.2.diagonalizing)).filter (w ∈ ·.wires) = r.diagonalizing := by
  have only : ∀ op ∈ entries.flatMap (·.2.diagonalizing),
      decide (w ∈ op.wires) = decide (op.wires = [w]) := by
    intro op mem
    obtain ⟨e, he, hop⟩ := List.mem_flatMap.1 mem
    rw [decide_eq_decide, on_wire e he op hop, List.mem_singleton, List.singleton_inj, eq_comm]
  rw [List.filter_congr only, filter_diagonalizing on_wire, filter_fst_eq distinct,
    (lookup_eq_some_iff_mem distinct).2 placed]
  exact List.append_nil r.diagonalizing

/-- The group holds the placed readouts. Its wires are those of its measurements, in the order in
which the measurements touch them first, and the readout of a wire is that of the measurement that
touches it first. The operations before are those of the readouts, in their order, and on each wire
those of its readout. What a measurement needs on a wire is what it has placed there, or the same as
what is placed. -/
structure Holds (schemas : List MeasurementSchema) (g : ExecutionGroup)
    (placed : List (WireId × WireReadout)) : Prop where
  ascending : g.measurements.Pairwise (· < ·)
  distinct : (g.readouts.map (·.1)).Nodup
  wires : g.readouts.map (·.1) = (g.measurements.flatMap (touched schemas)).eraseDups
  readouts : g.readouts = placed.map fun (w, r) => (w, r.schema)
  diagonalizing : g.diagonalizing = placed.flatMap (·.2.diagonalizing)
  first : ∀ w r, (w, r) ∈ placed → g.measurements.findSome? (asked schemas w) = some r
  on_wire : ∀ w r, (w, r) ∈ placed → g.diagonalizing.filter (w ∈ ·.wires) = r.diagonalizing
  served : ∀ i ∈ g.measurements, ∃ s, schemas[i]? = some s ∧ ∀ w r, s.get? w = some r →
    g.basis? w = some r.schema ∧ ∃ p, (w, p) ∈ placed ∧
      (¬ TouchedBefore schemas g i w ∧ p = r ∨ p.numEq r = true)

/-- Every group of resolved measurements holds the readouts that are placed in it. -/
theorem groups_hold_placed_readouts (resolved : ∀ s ∈ schemas, s.Resolved)
    (hg : g ∈ groupMeasurements schemas) : ∃ placed, Holds schemas g placed := by
  rw [groupMeasurements_eq_map_placeAll] at hg
  obtain ⟨opened, placed_in, rfl⟩ := List.mem_map.1 hg
  have serves := serves_placeAll schemas opened placed_in
  have lists := lists_placeAll schemas opened placed_in
  have on_wire : ∀ e ∈ opened.readouts, ∀ op ∈ e.2.diagonalizing, op.wires = [e.1] := by
    intro e he
    obtain ⟨s, hs, listed⟩ := readFrom_placeAll schemas opened placed_in e he
    exact (resolved s hs).on_wire (MeasurementSchema.get?_eq_some_iff.2 listed)
  have wires : opened.close.readouts.map (·.1) = opened.readouts.map (·.1) := by
    unfold OpenGroup.close
    rw [List.map_map]
    rfl
  refine ⟨opened.readouts, serves.ascending, wires ▸ serves.distinct, wires.trans lists, rfl, rfl,
    ?_, ?_, ?_⟩
  · intro w r placed
    exact (serves.placed w).symm.trans ((lookup_eq_some_iff_mem serves.distinct).2 placed)
  · intro w r placed
    exact filter_mem_diagonalizing serves.distinct on_wire placed
  · intro i hi
    obtain ⟨s, listed⟩ := exists_of_mem_placeAll placed_in hi
    refine ⟨s, listed, fun w r touched => ?_⟩
    obtain ⟨p, held, first, later⟩ := serves.readout hi ((asked_eq_get? listed w).trans touched)
    rw [OpenGroup.basis?_close, held, Option.map_some, Option.some.injEq]
    have mem := (lookup_eq_some_iff_mem serves.distinct).1 held
    by_cases before : TouchedBefore schemas opened.close i w
    · have same := later (touchedBefore_iff.1 before)
      exact ⟨WireReadout.schema_eq_of_numEq same, p, mem, .inr same⟩
    · have own := first (mt touchedBefore_iff.2 before)
      exact ⟨congrArg WireReadout.schema own, p, mem, .inl ⟨before, own⟩⟩

/-- Two qubits and qumodes in one group: the product places both its readouts, a measurement of the
qubit in another basis goes to a group of its own, and the quadrature at the angle minus zero is
served by the rotation by zero. -/
theorem hold_of_product_and_minus_zero :
    let minusZero : Real64 := ⟨0x8000000000000000⟩
    let c := (Circuit.empty "c").afterCalls [
      .measure (.product [.leaf ⟨"QuadX", [.index 1], []⟩, .leaf ⟨"PauliX", [.index 0], []⟩]),
      .measure (.leaf ⟨"PauliZ", [.index 0], []⟩),
      .measure (.leaf ⟨"QuadOperator", [.index 1], [minusZero]⟩)]
    let g : ExecutionGroup := ⟨[0, 2], [(⟨0⟩, .position), (⟨1⟩, .discrete)],
      [.rotation .zero ⟨0⟩, .qubitGate "Hadamard" ⟨1⟩]⟩
    ∃ r, Analysis.ofCircuit c = .ok r ∧ (∀ s ∈ r.schemas, s.Resolved) ∧
      g ∈ groupMeasurements r.schemas ∧ ∃ placed, Holds r.schemas g placed := by
  intro minusZero c g
  have grouped : (Analysis.ofCircuit c).toOption.map (·.groups) =
      some [g, ⟨[1], [(⟨1⟩, .discrete)], []⟩] := by decide +kernel
  cases analysed : Analysis.ofCircuit c with
  | error e =>
    rw [analysed] at grouped
    cases grouped
  | ok r =>
    rw [analysed] at grouped
    have groups : r.groups = [g, ⟨[1], [(⟨1⟩, .discrete)], []⟩] := Option.some.inj grouped
    have hg : g ∈ groupMeasurements r.schemas := by
      rw [← Analysis.groups_of_ofCircuit analysed, groups]
      exact List.mem_cons_self
    have resolved := Analysis.resolved_of_ofCircuit analysed
    exact ⟨r, rfl, resolved, hg, groups_hold_placed_readouts resolved hg⟩

end Grouping

end Qumode

import Qumode.Proofs.Analysis.Consistency
import Qumode.Proofs.Circuit.Relabelling

/-!
# The analysis does not read the names of wires

An analysis works on ids, and looks a name up only to report it. So the analyses of a circuit and of
the circuit with other names for its wires make the same demands on the same contexts: they go in
lockstep with equal contexts and the reports relabelled. A name that is reported is that of a wire
of the circuit, because only such wires are demanded of.
-/

namespace Qumode

variable {f : Wire → Wire} {c c' : Circuit}

/-- The report about the relabelled circuit. -/
def AnalysisError.relabel (f : Wire → Wire) : AnalysisError → AnalysisError
  | circuit e => .circuit (e.relabel f)
  | aliasing w type prior conflicting => .aliasing (f w) type prior conflicting
  | schemaConflict w measurement first second => .schemaConflict (f w) measurement first second
  | unsupportedObservable observable w measurement =>
    .unsupportedObservable observable (f w) measurement
  | unresolvedWire w => .unresolvedWire (f w)
  | unsupportedByBackend backend gap => .unsupportedByBackend backend gap

namespace Circuit.Relabelled

/-- A wire of the circuit has its label under the new name. -/
theorem wireLabel (h : c.Relabelled f c') {w : WireId} (inside : w.index < c.numWires) :
    c'.wireLabel w = f (c.wireLabel w) := by
  have listed : c.wires.label? w = some _ := List.getElem?_eq_getElem inside
  rw [Circuit.wireLabel, Circuit.wireLabel, h.wires.label?, listed]
  rfl

/-- A place in the circuit is described without names of wires. -/
theorem describe (h : c.Relabelled f c') (site : Site) : site.describe c' = site.describe c := by
  unfold Site.describe
  rw [h.operations, h.measurements]

end Circuit.Relabelled

namespace Typing

variable {α : Type} {w : WireId} {site : Site}

/-- The runs go in lockstep on equal contexts, the second with the reports relabelled. -/
abbrev Relabels (f : Wire → Wire) (x y : Typing α) : Prop :=
  Steps.Lockstep Eq (AnalysisError.relabel f) x y

/-- A requirement under new names fails with the same error under new names. -/
theorem require_relabels (related : c.Relabelled f c') (inside : w.index < c.numWires)
    (t : WireType) (site : Site) : Relabels f (require c w t site) (require c' w t site) := by
  rintro ctx _ rfl
  rw [EStateM.run, EStateM.run, require, require, related.wireLabel inside, related.describe]
  cases ctx.slots[w.index]? with
  | none => exact .error rfl
  | some slot =>
    cases slot with
    | none => exact .ok rfl
    | some settled =>
      dsimp only
      rw [related.describe]
      split
      · exact .ok rfl
      · exact .error rfl

/-- So does an operation. -/
theorem operation_relabels (related : c.Relabelled f c') {op : Operation} (index : Nat)
    (inside : ∀ w t, (w, t) ∈ op.requirements → w.index < c.numWires) :
    Relabels f (operation c op index) (operation c' op index) := by
  refine Steps.Lockstep.forM_same fun p hp => ?_
  exact require_relabels related (inside p.1 p.2 hp) p.2 (.operation index)

/-- So do the operations of a circuit. -/
theorem operations_relabels (related : c.Relabelled f c') (wellFormed : c.WellFormed) :
    Relabels f (operations c) (operations c') := by
  unfold operations
  rw [related.operations]
  refine Steps.Lockstep.forM_same fun p hp => ?_
  refine operation_relabels related p.2 fun w t mem => wellFormed.index_lt (.inl ⟨p.1, ?_, mem⟩)
  exact List.fst_mem_of_mem_zipIdx hp

/-- Recording a readout does not see names but in its error. -/
theorem record_relabels (related : c.Relabelled f c') (inside : w.index < c.numWires)
    (schema : MeasurementSchema) (r : WireReadout) :
    Relabels f (record c site schema w r) (record c' site schema w r) := by
  rw [record, record, related.wireLabel inside, related.describe]
  cases schema.insert w r with
  | ok schema' => exact .pure schema'
  | error schemas =>
    obtain ⟨first, second⟩ := schemas
    exact .throw (AnalysisError.schemaConflict (c.wireLabel w) (site.describe c) first second)

/-- Nor does a demand. -/
theorem demand_relabels (related : c.Relabelled f c') {d : Demand}
    (inside : d.wire.index < c.numWires) (name : String) (schema : MeasurementSchema) :
    Relabels f (demand c site name schema d) (demand c' site name schema d) := by
  rw [demand, demand]
  refine (require_relabels related inside d.type site).bind fun _ => ?_
  cases d.readout with
  | some r => exact record_relabels related inside schema r
  | none =>
    rw [related.wireLabel inside, related.describe]
    exact .throw (AnalysisError.unsupportedObservable name (c.wireLabel d.wire) (site.describe c))

/-- Nor does an observable. -/
theorem observable_relabels (related : c.Relabelled f c') {m : Observable Leaf} (index : Nat)
    (inside : ∀ d ∈ m.demands, d.wire.index < c.numWires) :
    Relabels f (observable c m index) (observable c' m index) := by
  rw [observable, observable, tree_eq_foldlM, tree_eq_foldlM]
  refine .foldlM (fun p hp schema => demand_relabels related (inside p.2 ?_) p.1 schema) .empty
  rw [← snd_named]
  exact List.mem_map_of_mem hp

/-- Nor do measurements in a row. -/
theorem measurementsFrom_relabels (related : c.Relabelled f c') {ms : List (Observable Leaf)}
    (index : Nat) (inside : ∀ m ∈ ms, ∀ d ∈ m.demands, d.wire.index < c.numWires) :
    Relabels f (measurementsFrom c index ms) (measurementsFrom c' index ms) := by
  induction ms generalizing index with
  | nil => exact .pure []
  | cons m rest ih =>
    rw [List.forall_mem_cons] at inside
    rw [measurementsFrom, measurementsFrom]
    refine (observable_relabels related index inside.1).bind fun _ => ?_
    exact (ih (index + 1) inside.2).map

/-- Nor do the measurements of a circuit. -/
theorem measurements_relabels (related : c.Relabelled f c') (wellFormed : c.WellFormed) :
    Relabels f (measurements c) (measurements c') := by
  rw [measurements, measurements, related.measurements]
  refine measurementsFrom_relabels related 0 fun m hm d hd => ?_
  obtain ⟨l, hl, mem⟩ := List.mem_flatMap.1 hd
  exact wellFormed.index_lt (.inr ⟨m, hm, l, hl, d.readout, Leaf.mem_demands.1 mem⟩)

end Typing

namespace Analysis

/-- A wire without a type is reported under its new name. -/
theorem finishFrom_relabel (related : c.Relabelled f c') {slots : List (Option Settled)}
    {index : Nat} (inside : index + slots.length ≤ c.numWires) :
    TypeContext.finishFrom c' index slots =
      (TypeContext.finishFrom c index slots).mapError (AnalysisError.relabel f) := by
  induction slots generalizing index with
  | nil => rfl
  | cons slot rest ih =>
    rw [List.length_cons] at inside
    cases slot with
    | none =>
      have there : (WireId.mk index).index < c.numWires := by
        show index < c.numWires
        omega
      rw [TypeContext.finishFrom, TypeContext.finishFrom, related.wireLabel there]
      rfl
    | some settled =>
      rw [TypeContext.finishFrom, TypeContext.finishFrom, ih (by omega)]
      cases TypeContext.finishFrom c (index + 1) rest with
      | error e => rfl
      | ok types => rfl

/-- The relabelled circuit has the analysis of the circuit, or none for the same reason. -/
theorem ofCircuit_relabelled (related : c.Relabelled f c') (wellFormed : c.WellFormed) :
    ofCircuit c' = (ofCircuit c).mapError (AnalysisError.relabel f) := by
  have start : TypeContext.start c' = TypeContext.start c := by
    rw [TypeContext.start, TypeContext.start, related.numWires]
  have both : Typing.Relabels f (resolved c) (resolved c') :=
    (Typing.operations_relabels related wellFormed).bind fun _ =>
      Typing.measurements_relabels related wellFormed
  have outcomes := both (rfl : TypeContext.start c = TypeContext.start c)
  rw [ofCircuit, ofCircuit, start]
  cases run : (resolved c).run (.start c) with
  | error e ctx =>
    rw [run] at outcomes
    generalize (resolved c').run (.start c) = outcome at outcomes
    cases outcomes
    rfl
  | ok schemas ctx =>
    obtain ⟨-, -, grows, -⟩ := (resolved_makes c).of_ok run
    have length : ctx.slots.length = c.numWires := grows.length.trans (TypeContext.length_start c)
    have finished : ctx.finish c' = (ctx.finish c).mapError (AnalysisError.relabel f) :=
      finishFrom_relabel related (by omega)
    rw [run] at outcomes
    generalize (resolved c').run (.start c) = outcome at outcomes
    cases outcomes with
    | ok same =>
      cases same
      dsimp only
      rw [finished]
      cases ctx.finish c with
      | error e => rfl
      | ok types => rfl

end Analysis

end Qumode

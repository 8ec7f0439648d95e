import Mathlib.Logic.Equiv.Basic
import Qumode.Proofs.Analysis.Relabelling
import Qumode.Proofs.Circuit.Normalization
import Qumode.Proofs.Program.Outcome

/-!
# Programs do not name wires

A program refers to a wire by an element of a register, which its id and the analysis settle. The
names of the wires, and of the circuit, are not looked at (`Program.emit_relabelled`). So nothing
that is made of a description depends on its names but the names in the reports
(`Program.names_are_only_names`).
-/

namespace Qumode

/-- The report about the relabelled circuit. Only that of the analysis names wires. -/
def EmitError.relabel (f : Wire → Wire) : EmitError → EmitError
  | analysis e => .analysis (e.relabel f)
  | e => e

namespace Program

open Circuit

variable {f : Wire → Wire} {c c' : Circuit}

theorem ofAnalysis_relabelled (related : c.Relabelled f c') (r : Analysis) :
    Scope.ofAnalysis c' r = Scope.ofAnalysis c r := by
  have ids : c'.wires.ids = c.wires.ids := by
    rw [WireTable.ids, WireTable.ids, related.wires.size]
  have wires : Scope.checkWires c' r = Scope.checkWires c r := by
    rw [Scope.checkWires, Scope.checkWires, related.numWires]
  have placed : Scope.checkPlaced c' r = Scope.checkPlaced c r := by
    rw [Scope.checkPlaced, Scope.checkPlaced, related.measurements]
  rw [Scope.ofAnalysis, Scope.ofAnalysis, ids, wires, placed, related.operations]

/-- Under any analysis the relabelled circuit has the program of the circuit. -/
theorem emit_relabelled (related : c.Relabelled f c') (r : Analysis) (s : Settings) :
    emit c' r s = emit c r s := by
  rw [emit, emit, lines, lines, ofAnalysis_relabelled related, related.operations]

theorem ofCircuit_relabelled (related : c.Relabelled f c') (wellFormed : c.WellFormed)
    (s : Settings) : ofCircuit c' s = (ofCircuit c s).mapError (EmitError.relabel f) := by
  rw [ofCircuit, ofCircuit, Analysis.ofCircuit_relabelled related wellFormed]
  cases analysed : Analysis.ofCircuit c with
  | error e => rfl
  | ok r =>
    dsimp only [Except.mapError]
    rw [emit_relabelled related]
    -- with the analysis of the circuit no report of the emission is about a wire
    have describes := Analysis.describes_of_ofCircuit wellFormed analysed
    obtain ⟨⟨text, emitted⟩, -⟩ | ⟨emitted, -⟩ := emit_spec (s := s) wellFormed describes
    · rw [emitted]
    · rw [emitted]
      rfl

/-- Exchange the names of the wires of a description for others, one for one, and rename the
circuit. The new description is as good as the old; it stands for a circuit with the same ids,
operations and observables, which has the same analysis and the same program under all settings.
Where something fails, the same fails, and the report has the new name of the wire. -/
theorem names_are_only_names {f : Wire → Wire} (injective : f.Injective) (d : Description)
    (name : String) :
    ((∃ c, ofDescription d = .ok c) ↔ ∃ c', ofDescription (d.relabel f name) = .ok c') ∧
    (∀ e, ofDescription d = .error e → ofDescription (d.relabel f name) = .error (e.relabel f)) ∧
    ∀ c c', ofDescription d = .ok c → ofDescription (d.relabel f name) = .ok c' →
      c'.wires.names = c.wires.names.map f ∧ (∀ w, c'.wires.get? (f w) = c.wires.get? w) ∧
      c'.operations = c.operations ∧ c'.measurements = c.measurements ∧
      Analysis.ofCircuit c' = (Analysis.ofCircuit c).mapError (AnalysisError.relabel f) ∧
      (∀ r s, emit c' r s = emit c r s) ∧
      ∀ s, Program.ofCircuit c' s = (Program.ofCircuit c s).mapError (EmitError.relabel f) := by
  obtain ⟨succeeds, fails⟩ := ofDescription_relabel injective d name
  refine ⟨⟨?_, ?_⟩, fails, ?_⟩
  · rintro ⟨c, built⟩
    obtain ⟨c', built', -⟩ := succeeds c built
    exact ⟨c', built'⟩
  · rintro ⟨c', built'⟩
    cases built : ofDescription d with
    | ok c => exact ⟨c, rfl⟩
    | error e => cases (fails e built).symm.trans built'
  · intro c c' built built'
    obtain ⟨_, same, related⟩ := succeeds c built
    cases same.symm.trans built'
    have wellFormed : c.WellFormed := (lists_of_ofDescription built).wellFormed
    exact ⟨related.wires, related.wires.get? injective, related.operations, related.measurements,
      Analysis.ofCircuit_relabelled related wellFormed, emit_relabelled related,
      ofCircuit_relabelled related wellFormed⟩

/-- The integer zero and the label zero change places. -/
theorem names_are_only_names_of_zeros :
    let f : Wire → Wire := Equiv.swap (.index 0) (.label "0")
    let d : Description := ⟨"d", [.standard "CNOT" [.index 0, .label "0"] []],
      [.leaf ⟨"PauliX", [.label "0"], []⟩]⟩
    let d' : Description := ⟨"e", [.standard "CNOT" [.label "0", .index 0] []],
      [.leaf ⟨"PauliX", [.index 0], []⟩]⟩
    d.relabel f "e" = d' ∧ ∃ c c' text, ofDescription d = .ok c ∧ ofDescription d' = .ok c' ∧
      c'.wires.get? (.label "0") = some ⟨0⟩ ∧ ofCircuit c {} = .ok text ∧
      ofCircuit c' {} = .ok text := by
  intro f d d'
  have relabelled : d.relabel f "e" = d' := rfl
  obtain ⟨c, built⟩ : ∃ c, ofDescription d = .ok c := ⟨_, rfl⟩
  obtain ⟨text, emitted⟩ : ∃ text, ofCircuit c {} = .ok text := by
    cases built
    exact ⟨_, rfl⟩
  have first : c.wires.get? (.index 0) = some ⟨0⟩ := by
    cases built
    rfl
  have injective : f.Injective := Equiv.injective (Equiv.swap (Wire.index 0) (Wire.label "0"))
  obtain ⟨⟨stands, -⟩, -, same⟩ := names_are_only_names injective d "e"
  obtain ⟨c', built'⟩ := stands ⟨c, built⟩
  obtain ⟨-, ids, -, -, -, -, programs⟩ := same c c' built built'
  refine ⟨relabelled, c, c', text, built, built', ?_, emitted, ?_⟩
  · exact (ids (.index 0)).trans first
  · rw [programs, emitted]
    rfl

end Program

end Qumode

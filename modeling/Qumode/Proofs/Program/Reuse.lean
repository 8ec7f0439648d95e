import Qumode.Proofs.Circuit.Extension
import Qumode.Proofs.Program.Outcome
import Qumode.Proofs.Readout.Collection

/-!
# Programs under an analysis made earlier or elsewhere

A program is written under an analysis that a caller hands over, which may be that of a circuit
before further calls, or of another circuit altogether. `Analysis.Suits` is all that is checked of
it, and it says nothing of the observables.

Before further calls that is enough. Circuits only grow, so an analysis that suits the grown circuit
has met all its operations and its measurements, which are the old ones: it is the analysis of the
grown circuit (`Analysis.ofCircuit_of_extends`). For another circuit it is not: observables in the
same number on wires of the same types may want other readouts.
-/

namespace Qumode

variable {c d : Circuit} {r own : Analysis}

namespace Analysis

open Circuit

/-! ## An analysis made before further calls -/

/-- An analysis suits a circuit after further calls if they added neither a wire nor a measurement,
and only operations on wires of the types that it says. -/
theorem suits_extension_iff (describes : r.Describes c) (grown : c.Extends d) :
    r.Suits d ↔ (∀ w ∈ d.wires.names, w ∈ c.wires.names) ∧
      d.measurements.length = c.measurements.length ∧
      ∀ op ∈ d.operations.drop c.operations.length, ∀ w t, (w, t) ∈ op.requirements →
        r.wireType? w = some t := by
  have suited := describes.suits
  have numWires_iff := grown.numWires_eq_iff
  constructor
  · intro suits
    refine ⟨numWires_iff.1 ?_, ?_, ?_⟩
    · exact suits.numWires.symm.trans suited.numWires
    · exact suits.placed.symm.trans suited.placed
    · intro op hop
      exact suits.operations op (List.mem_of_mem_drop hop)
  · rintro ⟨no_wire, no_measurement, typed⟩
    have same := numWires_iff.2 no_wire
    refine ⟨suited.numWires.trans same.symm, ?_, suited.placed.trans no_measurement.symm,
      suited.readouts⟩
    intro op hop
    rw [grown.operations_eq, List.mem_append] at hop
    rcases hop with old | appended
    · exact suited.operations op old
    · exact typed op appended

/-- A circuit with the same measurements whose operations an analysis has met requires the types
that the analysis says. -/
theorem requires_iff_of_extends (describes : r.Describes c) (grown : c.Extends d)
    (same : d.measurements = c.measurements) (suits : r.Suits d) (w : WireId) (t : WireType) :
    d.Requires w t ↔ r.wireType? w = some t := by
  constructor
  · rintro (⟨op, hop, mem⟩ | measured)
    · exact suits.operations op hop w t mem
    · rw [same] at measured
      exact (describes.wireType? w t).2 (.inr measured)
  · intro type
    rcases (describes.wireType? w t).1 type with ⟨op, hop, mem⟩ | measured
    · exact .inl ⟨op, grown.operations.subset hop, mem⟩
    · rw [← same] at measured
      exact .inr measured

/-- Operations that an analysis has met do not make a circuit inconsistent. -/
theorem consistent_of_extends (consistent : c.Consistent) (describes : r.Describes c)
    (grown : c.Extends d) (same : d.measurements = c.measurements) (suits : r.Suits d) :
    d.Consistent := by
  have required := requires_iff_of_extends describes grown same suits
  constructor
  · rintro w ⟨discrete, continuous⟩
    rw [required] at discrete continuous
    cases discrete.symm.trans continuous
  -- the analysis has a type for each of its wires, and there are no others
  · intro w hw
    rw [mem_ids, ← suits.numWires] at hw
    obtain ⟨t, type⟩ := exists_wireType? hw
    exact ⟨t, (required w t).2 type⟩
  · rw [same]
    exact consistent.natural
  · rw [same]
    exact consistent.agreeing

/-- Analyses that say the same of every wire and have the same schemas are the same. -/
theorem eq_of_describes (describes : r.Describes c) (describes' : own.Describes d)
    (types : ∀ w t, own.wireType? w = some t ↔ r.wireType? w = some t)
    (schemas : own.schemas = r.schemas) : own = r := by
  have wireTypes : own.wireTypes = r.wireTypes := by
    refine List.ext_getElem? fun i => Option.ext fun t => ?_
    exact types ⟨i⟩ t
  have groups : own.groups = r.groups := by
    rw [describes.groups, describes'.groups, schemas]
  cases own
  cases r
  congr

/-- An analysis that suits a circuit after further calls is the analysis of that circuit. -/
theorem ofCircuit_of_extends (wellFormed : c.WellFormed) (wellFormed' : d.WellFormed)
    (analysed : ofCircuit c = .ok r) (grown : c.Extends d) (suits : r.Suits d) :
    ofCircuit d = .ok r := by
  have spec := ofCircuit_spec wellFormed
  rw [analysed] at spec
  obtain ⟨consistent, describes⟩ := spec
  have same : d.measurements = c.measurements :=
    grown.measurements_eq (suits.placed.symm.trans describes.suits.placed)
  have required := requires_iff_of_extends describes grown same suits
  have spec' := ofCircuit_spec wellFormed'
  cases analysed' : ofCircuit d with
  | error e =>
    rw [analysed'] at spec'
    exact absurd (consistent_of_extends consistent describes grown same suits) spec'
  | ok own =>
    rw [analysed'] at spec'
    have types : ∀ w t, own.wireType? w = some t ↔ r.wireType? w = some t := by
      intro w t
      rw [spec'.2.wireType?, required]
    rw [eq_of_describes describes spec'.2 types (schemas_eq analysed analysed' same)]

end Analysis

namespace Program

open Circuit

variable {s : Settings}

/-! ## What the checks on an analysis decide -/

/-- An analysis that does not suit the circuit is refused. -/
theorem emit_of_not_suits (s : Settings) (unsuited : ¬ r.Suits c) :
    ∃ mismatch, emit c r s = .error (.invariant mismatch) := by
  rw [← Scope.ofAnalysis_isOk_iff] at unsuited
  cases checked : Scope.ofAnalysis c r with
  | ok scope => exact absurd ⟨scope, checked⟩ unsuited
  | error mismatch =>
    refine ⟨mismatch, ?_⟩
    rw [emit, lines, checked]
    rfl

/-- A mismatch is reported just when the analysis does not suit the circuit. -/
theorem emit_invariant_iff (wellFormed : c.WellFormed) (groups : r.GroupsInside) :
    (∃ mismatch, emit c r s = .error (.invariant mismatch)) ↔ ¬ r.Suits c := by
  refine ⟨?_, emit_of_not_suits s⟩
  rintro ⟨mismatch, reported⟩ suits
  obtain ⟨⟨text, emitted⟩, -⟩ | ⟨emitted, -⟩ := emit_of_suits (s := s) wellFormed suits groups
  · cases emitted.symm.trans reported
  · cases emitted.symm.trans reported

/-- After further calls the analysis that was made before them either is reported as a mismatch, or
the program under it is that of the grown circuit. It is reported just when a call added a wire, a
measurement, or an operation that needs another type of a wire. -/
theorem emit_under_earlier_analysis (built : c.Reachable) (analysed : Analysis.ofCircuit c = .ok r)
    (calls : List Call) (s : Settings) :
    let d := c.afterCalls calls
    ((∃ mismatch, emit d r s = .error (.invariant mismatch)) ∨ emit d r s = ofCircuit d s) ∧
    ((∃ mismatch, emit d r s = .error (.invariant mismatch)) ↔
      (∃ w ∈ d.wires.names, w ∉ c.wires.names) ∨
      c.measurements.length < d.measurements.length ∨
      ∃ op ∈ d.operations.drop c.operations.length, ∃ w t, (w, t) ∈ op.requirements ∧
        r.wireType? w ≠ some t) := by
  intro d
  have describes := Analysis.describes_of_ofCircuit built.wellFormed analysed
  have wellFormed : d.WellFormed := (built.afterCalls calls).wellFormed
  have grown : c.Extends d := extends_afterCalls c calls
  have reported_iff := emit_invariant_iff (s := s) wellFormed describes.groupsInside
  constructor
  · by_cases suits : r.Suits d
    · right
      rw [ofCircuit, Analysis.ofCircuit_of_extends built.wellFormed wellFormed analysed grown suits]
    · exact .inl (reported_iff.2 suits)
  · have no_fewer : c.measurements.length ≤ d.measurements.length := grown.measurements.length_le
    have more_iff : c.measurements.length < d.measurements.length ↔
        ¬ d.measurements.length = c.measurements.length := by omega
    rw [reported_iff, Analysis.suits_extension_iff describes grown, more_iff]
    simp only [not_and_or, not_forall, exists_prop, ne_eq]

/-- One more gate on the measured wire does no harm; a displacement of the wire does. -/
theorem emit_after_gate_and_after_displacement :
    let c := (empty "c").afterCalls [.standard "Hadamard" [.index 0] [],
      .measure (.leaf ⟨"PauliZ", [.index 0], []⟩)]
    let further := c.afterCalls [.standard "T" [.index 0] []]
    let displaced := c.afterCalls [.continuous "Displacement" [.index 0] []]
    ∃ r, Analysis.ofCircuit c = .ok r ∧ emit further r {} = ofCircuit further {} ∧
      ∃ mismatch, emit displaced r {} = .error (.invariant mismatch) := by
  intro c further displaced
  refine ⟨_, rfl, ?_, ?_⟩
  · obtain ⟨reported | same, -⟩ := emit_under_earlier_analysis (c := c) ⟨_, _, rfl⟩ rfl
      [.standard "T" [.index 0] []] {}
    · obtain ⟨mismatch, reported⟩ := reported
      cases reported
    · exact same
  · obtain ⟨-, reported_iff⟩ := emit_under_earlier_analysis (c := c) ⟨_, _, rfl⟩ rfl
      [.continuous "Displacement" [.index 0] []] {}
    refine reported_iff.2 (.inr (.inr ⟨_, List.mem_singleton_self _, ⟨0⟩, .continuous, ?_, ?_⟩))
    · exact List.mem_singleton_self _
    · decide

/-! ## The analysis of another circuit -/

theorem allot_congr (types : own.wireTypes = r.wireTypes) (qubits qumodes : Nat)
    (wires : List WireId) :
    Scope.allot own qubits qumodes wires = Scope.allot r qubits qumodes wires := by
  have same : ∀ w, own.wireType? w = r.wireType? w := by
    intro w
    unfold Analysis.wireType?
    rw [types]
  induction wires generalizing qubits qumodes with
  | nil => rfl
  | cons w rest ih => simp only [Scope.allot, same, ih]

/-- A program takes the types and the groups from an analysis, and nothing else. -/
theorem emit_congr (types : own.wireTypes = r.wireTypes) (groups : own.groups = r.groups)
    (c : Circuit) (s : Settings) : emit c own s = emit c r s := by
  have allotted := allot_congr types 0 0 c.wires.ids
  unfold emit lines Scope.ofAnalysis
  rw [allotted]
  cases own
  cases r
  cases types
  cases groups
  rfl

/-- Under the analysis of any circuit there is a program just when that analysis suits the circuit,
and otherwise a mismatch is reported. The program is the one of the circuit if the circuit has an
analysis with these types and groups; no check compares the groups with the observables. -/
theorem emit_under_other_analysis (built : c.Reachable) (built' : d.Reachable)
    (analysed : Analysis.ofCircuit d = .ok r) (s : Settings)
    (writable : s.precision.toNat ≤ 65535) :
    ((∃ text, emit c r s = .ok text) ↔ r.Suits c) ∧
    ((∃ mismatch, emit c r s = .error (.invariant mismatch)) ↔ ¬ r.Suits c) ∧
    ∀ own, Analysis.ofCircuit c = .ok own → own.wireTypes = r.wireTypes → own.groups = r.groups →
      emit c r s = ofCircuit c s := by
  have describes := Analysis.describes_of_ofCircuit built'.wellFormed analysed
  have reported_iff := emit_invariant_iff (s := s) built.wellFormed describes.groupsInside
  refine ⟨⟨?_, ?_⟩, reported_iff, ?_⟩
  · rintro ⟨text, emitted⟩
    by_contra unsuited
    obtain ⟨mismatch, reported⟩ := emit_of_not_suits s unsuited
    cases emitted.symm.trans reported
  · intro suits
    obtain ⟨emitted, -⟩ | ⟨-, tooLarge, -⟩ :=
      emit_of_suits (s := s) built.wellFormed suits describes.groupsInside
    · exact emitted
    · exact absurd tooLarge (Nat.not_lt.2 writable)
  · intro own analysed' types groups
    rw [ofCircuit, analysed']
    exact (emit_congr types groups c s).symm

/-- A sum of an observable with itself has the types and the groups of the observable. They do not
fit a circuit with one more wire. -/
theorem emit_under_analysis_of_sum :
    let z : RawObservable := .leaf ⟨"PauliZ", [.index 0], []⟩
    let c := (empty "c").afterCalls [.measure z]
    let wider := (empty "c").afterCalls [.standard "CNOT" [.index 0, .index 1] [], .measure z]
    let sum := (empty "c").afterCalls [.measure (.sum [z, z])]
    ∃ r, Analysis.ofCircuit sum = .ok r ∧ emit c r {} = ofCircuit c {} ∧
      ∃ mismatch, emit wider r {} = .error (.invariant mismatch) := by
  intro z c wider sum
  refine ⟨_, rfl, ?_, ?_⟩
  · obtain ⟨-, -, same⟩ := emit_under_other_analysis (c := c) (d := sum) ⟨_, _, rfl⟩ ⟨_, _, rfl⟩ rfl
      {} (by decide)
    exact same _ rfl rfl rfl
  · obtain ⟨-, reported_iff, -⟩ := emit_under_other_analysis (c := wider) (d := sum) ⟨_, _, rfl⟩
      ⟨_, _, rfl⟩ rfl {} (by decide)
    refine reported_iff.2 fun suits => ?_
    cases suits.numWires

/-- A measurement of `PauliX` is emitted under the analysis of one of `PauliZ`, and lacks the gate
that stands before its readout in the program of the circuit. -/
theorem emit_under_analysis_of_other_observable :
    let c := (empty "c").afterCalls [.measure (.leaf ⟨"PauliX", [.label "q"], []⟩)]
    ∃ r text own_text,
      Analysis.ofCircuit ((empty "c").afterCalls
        [.measure (.leaf ⟨"PauliZ", [.label "q"], []⟩)]) = .ok r ∧
      emit c r {} = .ok text ∧ ofCircuit c {} = .ok own_text ∧ text ≠ own_text := by
  intro c
  refine ⟨_, _, _, rfl, rfl, rfl, ?_⟩
  decide

end Program

end Qumode

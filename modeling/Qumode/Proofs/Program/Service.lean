import Qumode.Proofs.Grouping.Service
import Qumode.Proofs.Program.Layout
import Qumode.Proofs.Program.Outcome
import Qumode.Proofs.Program.Spelling

/-!
# Programs serve the measurements of a circuit

A circuit that has an analysis has a program that does what each of its measurements asks for. A
measurement is in one group, and in the block of that group every wire that it touches is read out
once, in the register and the way of its type, after the operations that bring the wire to the
eigenbasis of the observable (`Served`).

Three facts meet in `served_of_block`: what a leaf asks of a wire fits the type of the wire, what a
group holds for the wire is what the leaf asks for, and the block writes down what the group holds
on the operand that no other wire has.
-/

namespace Qumode

namespace Line

/-- Whether the line reads the operand out. -/
def readsFrom (o : Operand) : Line → Bool
  | readout _ _ o' _ => decide (o' = o)
  | _ => false

/-- Whether the line is a diagonalizing statement on the operand. -/
def rotates (o : Operand) : Line → Bool
  | rotate st => decide (o ∈ st.operands)
  | _ => false

end Line

namespace Analysis

variable {c : Circuit} {r : Analysis} {w : WireId} {readout : WireReadout} {i : Nat}

/-- The operations before a readout of a measurement are on its wire alone. -/
theorem Describes.on_wire (h : r.Describes c) : ∀ s ∈ r.schemas, ∀ v readout,
    s.get? v = some readout → ∀ op ∈ readout.diagonalizing, op.wires = [v] := by
  intro s hs v readout found op hop
  obtain ⟨m, -, l, -, t, touches⟩ := h.exists_leaf hs found
  exact touches.readout.2 op hop

/-- A wire that a measurement touches has a type that can be read out as the measurement asks. -/
theorem Describes.readable (h : r.Describes c) {s : MeasurementSchema} (hs : s ∈ r.schemas)
    (found : s.get? w = some readout) :
    ∃ t kind, r.wireType? w = some t ∧ ReadoutKind.ofWire? t readout.schema = some kind := by
  obtain ⟨m, hm, l, hl, t, touches⟩ := h.exists_leaf hs found
  obtain ⟨kind, read_as⟩ := Option.isSome_iff_exists.1 touches.readout.1
  exact ⟨t, kind, h.requires hm hl touches, read_as⟩

end Analysis

namespace Program

open Grouping (TouchedBefore)

variable {c : Circuit} {r : Analysis} {s : Settings} {g : ExecutionGroup} {w : WireId}
  {readout : WireReadout} {i : Nat} {block : List Line}

/-- The block serves the wire `w` for the measurement `i`, which asks for `readout`. One line reads
the operand of the wire out, as its type and the schema say. With rotations, the statements on the
operand are those of the readout that was placed for the wire: the one asked for, or the same one if
a measurement before has touched the wire. -/
def Served (r : Analysis) (s : Settings) (g : ExecutionGroup) (i : Nat) (w : WireId)
    (readout : WireReadout) (block : List Line) : Prop :=
  ∃ o t kind number placed, r.operand? w = some o ∧ r.wireType? w = some t ∧
    ReadoutKind.ofWire? t readout.schema = some kind ∧
    block.filter (·.readsFrom o) = [.readout kind number o (kind.isCall s.mode)] ∧
    (s.rotations = true → block.filter (·.rotates o) =
      placed.diagonalizing.map fun op => .rotate ⟨op.name, op.params, [o]⟩) ∧
    (¬ TouchedBefore r.schemas g i w → placed = readout) ∧
    (TouchedBefore r.schemas g i w → placed.numEq readout = true)

/-- A line of a group reads an operand out just when it reads the wire out. -/
theorem Reads.readsFrom_iff {mode : Mode} {o : Operand} (operand : r.operand? w = some o)
    {e : WireId × BasisSchema} {line : Line} (h : Reads r mode e line) :
    decide (e.1 = w) = true ↔ line.readsFrom o = true := by
  obtain @⟨kind, o', number, read_as, read_from⟩ := h
  rw [decide_eq_true_iff, Line.readsFrom, decide_eq_true_iff]
  constructor
  · rintro rfl
    exact Option.some.inj (read_from.symm.trans operand)
  · rintro rfl
    exact Analysis.operand?_inj read_from operand

/-- A wire that a group reads out once is read out once in its block. -/
theorem filter_readsFrom {mode : Mode} {rotations : Bool}
    (is_block : IsBlock r mode rotations g block) {o : Operand}
    (operand : r.operand? w = some o) {schema : BasisSchema}
    (once : g.readouts.filter (·.1 = w) = [(w, schema)]) {kind : ReadoutKind}
    (read_as : r.kind? (w, schema) = some kind) :
    ∃ number, block.filter (·.readsFrom o) = [.readout kind number o (kind.isCall mode)] := by
  obtain ⟨statements, read, rfl, -, reads⟩ := is_block
  have filtered := List.rel_filter
    (p := fun e : WireId × BasisSchema => decide (e.1 = w)) (q := fun line => line.readsFrom o)
    (fun e line h => h.readsFrom_iff operand) reads
  rw [once] at filtered
  obtain ⟨line, others, first, rest, same⟩ := List.forall₂_cons_left_iff.1 filtered
  cases rest
  obtain @⟨kind', o', number, read_as', read_from⟩ := first
  cases read_as.symm.trans read_as'
  cases operand.symm.trans read_from
  have unread : (statements.map Line.rotate).filter (·.readsFrom o) = [] := by
    rw [List.filter_eq_nil_iff]
    intro line mem
    obtain ⟨st, -, rfl⟩ := List.mem_map.1 mem
    exact Bool.false_ne_true
  refine ⟨number, ?_⟩
  rw [List.cons_append, List.filter_cons_of_neg (by simp [Line.readsFrom]), List.filter_append,
    unread, same]
  rfl

/-- The statement of an operation on one wire has one operand. -/
theorem Renders.operands_eq {op : Operation} {st : Statement} (h : Renders r op st) {v : WireId}
    (on : op.wires = [v]) : ∃ o, st.operands = [o] ∧ r.operand? v = some o := by
  have operands := h.operands
  rw [on] at operands
  obtain ⟨o, others, found, rest, same⟩ := List.forall₂_cons_left_iff.1 operands
  cases rest
  exact ⟨o, same, found⟩

/-- A statement on one wire is about an operand just when the operation is on its wire, and then it
is the operation on the operand. -/
theorem Renders.rotates_iff {op : Operation} {st : Statement} (h : Renders r op st) {v : WireId}
    (on : op.wires = [v]) {o : Operand} (operand : r.operand? w = some o) :
    (Line.rotate st).rotates o = decide (op.wires = [w]) ∧
      (op.wires = [w] → st = ⟨op.name, op.params, [o]⟩) := by
  obtain ⟨o', same, found⟩ := h.operands_eq on
  constructor
  · rw [Line.rotates, same, on, decide_eq_decide, List.mem_singleton, List.singleton_inj]
    constructor
    · rintro rfl
      exact Analysis.operand?_inj found operand
    · rintro rfl
      exact Option.some.inj (operand.symm.trans found)
  · intro on_w
    cases on.symm.trans on_w
    cases operand.symm.trans found
    obtain ⟨name, params, operands⟩ := st
    cases same
    cases h.name
    cases h.params
    rfl

/-- The statements on an operand are those of the operations on its wire, in order. -/
theorem filter_rotates_eq {ops : List Operation} {statements : List Statement}
    (renders : List.Forall₂ (Renders r) ops statements) {o : Operand}
    (operand : r.operand? w = some o) (on_wire : ∀ op ∈ ops, ∃ v, op.wires = [v]) :
    (statements.map Line.rotate).filter (·.rotates o) =
      (ops.filter (·.wires = [w])).map fun op => .rotate ⟨op.name, op.params, [o]⟩ := by
  induction renders with
  | nil => rfl
  | @cons op st ops statements first _ ih =>
    rw [List.forall_mem_cons] at on_wire
    obtain ⟨⟨v, on⟩, others⟩ := on_wire
    obtain ⟨acts, same⟩ := first.rotates_iff on operand
    rw [List.map_cons, List.filter_cons, List.filter_cons, acts, ih others]
    by_cases on_w : op.wires = [w]
    · simp [on_w, same on_w]
    · simp [on_w]

/-- The diagonalizing statements of a block on an operand. -/
theorem filter_rotates {mode : Mode} (is_block : IsBlock r mode true g block) {o : Operand}
    (operand : r.operand? w = some o) (on_wire : ∀ op ∈ g.diagonalizing, ∃ v, op.wires = [v]) :
    block.filter (·.rotates o) =
      (g.diagonalizing.filter (·.wires = [w])).map fun op => .rotate ⟨op.name, op.params, [o]⟩ := by
  obtain ⟨statements, read, rfl, renders, reads⟩ := is_block
  rw [if_pos rfl] at renders
  have none_read : read.filter (·.rotates o) = [] := by
    rw [List.filter_eq_nil_iff]
    intro line mem
    obtain ⟨e, -, h⟩ := Steps.exists_left_of_mem reads mem
    cases h
    exact Bool.false_ne_true
  rw [List.cons_append, List.filter_cons_of_neg (by simp [Line.rotates]), List.filter_append,
    none_read, List.append_nil, filter_rotates_eq renders operand on_wire]

/-- The block of a group serves every wire that a measurement of the group touches. -/
theorem served_of_block (describes : r.Describes c) (hg : g ∈ r.groups)
    (is_block : IsBlock r s.mode s.rotations g block) (hi : i ∈ g.measurements)
    {schema : MeasurementSchema} (listed : r.schemas[i]? = some schema)
    (touched : schema.get? w = some readout) : Served r s g i w readout block := by
  have hs := List.mem_of_getElem? listed
  obtain ⟨t, kind, type, read_as⟩ := describes.readable hs touched
  obtain ⟨o, operand, -⟩ := Analysis.exists_operand? type
  have grouped : g ∈ Grouping.groupMeasurements r.schemas := describes.groups ▸ hg
  obtain ⟨placed, once, rotations, first, later⟩ :=
    Grouping.serves grouped hi listed touched describes.on_wire
  -- the angle may differ from the one asked for (zero and minus zero), the schema does not
  have same_schema : placed.schema = readout.schema := by
    by_cases before : TouchedBefore r.schemas g i w
    · exact WireReadout.schema_eq_of_numEq (later before)
    · rw [first before]
  have placed_kind : r.kind? (w, placed.schema) = some kind := by
    unfold Analysis.kind?
    rw [type, Option.bind_some, same_schema]
    exact read_as
  obtain ⟨number, reads⟩ := filter_readsFrom is_block operand once placed_kind
  refine ⟨o, t, kind, number, placed, operand, type, read_as, reads, ?_, first, later⟩
  intro wanted
  have on_wire : ∀ op ∈ g.diagonalizing, ∃ v, op.wires = [v] := by
    intro op hop
    obtain ⟨s', hs', v, readout', found, mem⟩ := Grouping.mem_diagonalizing grouped hop
    exact ⟨v, describes.on_wire s' hs' v readout' found op mem⟩
  rw [wanted] at is_block
  rw [filter_rotates is_block operand on_wire, rotations]

/-- A circuit that has an analysis, and no real number with too many places, has a program, and its
text is that of lines which end in the blocks of the groups, one for each. Every measurement is in
one group, and the block of the group serves every wire that it touches. The result variables are
numbered through all readouts. -/
theorem ofCircuit_serves_measurements (built : c.Reachable)
    (analysed : Analysis.ofCircuit c = .ok r) (s : Settings)
    (writable : ¬ (65535 < s.precision.toNat ∧ PrintsReal c r s)) :
    ∃ text written preamble blocks, ofCircuit c s = .ok text ∧
      lines s.mode s.rotations c r = .ok written ∧ Written s written text ∧
      written = preamble ++ blocks.flatMap (.blank :: ·) ∧
      List.Forall₂ (IsBlock r s.mode s.rotations) r.groups blocks ∧
      written.filterMap Line.declared? = List.range (readoutCount r.groups) ∧
      ∀ i < c.measurements.length, ∃ (schema : MeasurementSchema) (k : Nat) (g : ExecutionGroup)
        (block : List Line), r.schemas[i]? = some schema ∧
        r.groups[k]? = some g ∧ blocks[k]? = some block ∧ i ∈ g.measurements ∧
        (∀ (k' : Nat) (g' : ExecutionGroup), r.groups[k']? = some g' → i ∈ g'.measurements →
          k' = k) ∧
        ∀ w readout, schema.get? w = some readout → Served r s g i w readout block := by
  have describes := Analysis.describes_of_ofCircuit built.wellFormed analysed
  obtain ⟨⟨text, emitted⟩, -⟩ | ⟨-, tooLarge⟩ := emit_spec (s := s) built.wellFormed describes
  case inr => exact absurd tooLarge writable
  obtain ⟨written, done, rendered⟩ := emit_eq_ok emitted
  obtain ⟨preamble, blocks, order, are_blocks, numbered⟩ := lines_layout done
  have whole : ofCircuit c s = .ok text := by
    rw [ofCircuit, analysed]
    exact emitted
  refine ⟨text, written, preamble, blocks, whole, done, written_iff.2 rendered, order, are_blocks,
    numbered, ?_⟩
  intro i there
  rw [describes.schemas.length_eq] at there
  have listed := List.getElem?_eq_getElem there
  obtain ⟨k, g, grouped, member, unique⟩ := Grouping.existsUnique_group there
  rw [← describes.groups] at grouped unique
  have inside : k < blocks.length := by
    rw [← are_blocks.length_eq]
    exact (List.getElem?_eq_some_iff.1 grouped).1
  have is_block : IsBlock r s.mode s.rotations g blocks[k] := by
    obtain ⟨inside', rfl⟩ := List.getElem?_eq_some_iff.1 grouped
    exact are_blocks.get inside' inside
  refine ⟨_, k, g, blocks[k], listed, grouped, List.getElem?_eq_getElem inside, member, unique, ?_⟩
  intro w readout touched
  exact served_of_block describes (List.mem_of_getElem? grouped) is_block member listed touched

/-- The position of a qumode, and then the quadrature at the angle minus zero: the second
measurement is served by the rotation by zero that the first has placed. -/
theorem serves_position_and_minus_zero :
    let minusZero : Real64 := ⟨0x8000000000000000⟩
    let c := (Circuit.empty "c").afterCalls [.continuous "Fourier" [.index 0] [],
      .measure (.leaf ⟨"QuadX", [.index 0], []⟩),
      .measure (.leaf ⟨"QuadOperator", [.index 0], [minusZero]⟩)]
    ∃ r g written preamble block, Analysis.ofCircuit c = .ok r ∧ r.groups = [g] ∧
      lines .permissive true c r = .ok written ∧ written = preamble ++ .blank :: block ∧
      TouchedBefore r.schemas g 1 ⟨0⟩ ∧
      Served r {} g 1 ⟨0⟩ (.rotated .position minusZero ⟨0⟩) block ∧
      Written {} written ("OPENQASM 3.0;\n"
        ++ "include \"stdgates.inc\";\ninclude \"cvstdgates.inc\";\n\n"
        ++ "qumode[1] m;\n\ndef state_prep() \x7b\n    reset m;\n    cv_f m[0];\n\x7d\n\n"
        ++ "state_prep();\ncv_r(0.000000) m[0];\nfloat[32] c0 = homodyne m[0];\n") := by
  intro minusZero c
  let asking (angle : Real64) : MeasurementSchema :=
    MeasurementSchema.empty.push ⟨0⟩ (.rotated .position angle ⟨0⟩) List.not_mem_nil
  let g : ExecutionGroup := ⟨[0, 1], [(⟨0⟩, .position)], [.rotation .zero ⟨0⟩]⟩
  let r : Analysis := ⟨[.continuous], [asking .zero, asking minusZero], [g]⟩
  have analysed : Analysis.ofCircuit c = .ok r := by decide +kernel
  obtain ⟨text, written, preamble, blocks, emitted, done, spelled, order, are_blocks, -, serves⟩ :=
    ofCircuit_serves_measurements ⟨_, _, rfl⟩ analysed {} (fun tooLarge => nomatch tooLarge.1)
  obtain ⟨schema, k, g', block, listed, grouped, there, -, -, served⟩ := serves 1 (by decide)
  cases listed
  obtain ⟨part, others, -, no_more, rfl⟩ := List.forall₂_cons_left_iff.1 are_blocks
  cases no_more
  cases k with
  | succ k => cases grouped
  | zero =>
    cases grouped
    cases there
    refine ⟨r, g, written, preamble, block, analysed, rfl, done, ?_, ?_, ?_, ?_⟩
    · simpa using order
    · exact ⟨0, by decide, by decide, asking .zero, _, rfl, rfl⟩
    · exact served ⟨0⟩ _ rfl
    · have is_text : ∀ t, ofCircuit c {} = .ok t → Written {} written t := by
        intro t same
        cases emitted.symm.trans same
        exact spelled
      exact is_text _ (by decide +kernel)

end Program

end Qumode

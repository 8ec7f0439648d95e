import Qumode.Proofs.Circuit.Entries
import Qumode.Proofs.Program.Census
import Qumode.Proofs.Program.Reuse
import Qumode.Proofs.Program.Spelling

/-!
# The registers of a program

The wires are numbered twice. The emission counts qubits and qumodes as it goes through the wires of
the circuit, and an analysis lists the wires of each type. Both give the same numbers: the operand
of a wire is its place in the list of its register (`Analysis.operand?_eq_some_iff`).

What some lines do with the registers is collected in `Program.Uses`: the registers that are
declared and reset, and the statements and readouts with their operands. The uses of joined lines
are joined, so each part of a program is looked at by itself, and `IsProgram.wellScoped` puts them
together.
-/

namespace Qumode

/-! ## The text of an operand -/

/-- Operands are told apart by their texts. -/
theorem Operand.text_injective : Function.Injective Operand.text := by
  rintro ⟨register, index⟩ ⟨register', index'⟩ same
  have chars (register : Register) (index : Nat) : (text ⟨register, index⟩).toList =
      register.text.toList ++ ('[' :: (Nat.toDigits 10 index ++ [']'])) := by
    simp [text]
  have one_letter (register : Register) : register.text.toList.length = 1 := by
    cases register <;> rfl
  have same_chars := congrArg String.toList same
  rw [chars, chars] at same_chars
  obtain ⟨letter, rest⟩ := List.append_inj same_chars (by rw [one_letter, one_letter])
  have registers : register = register' := by
    revert letter
    cases register <;> cases register' <;> decide
  have indices : index = index' := by
    rw [List.cons.injEq, List.append_cancel_right_eq] at rest
    rw [← Nat.ofDigitChars_ten_toDigits (n := index), rest.2, Nat.ofDigitChars_ten_toDigits]
  rw [registers, indices]

/-! ## The two numberings -/

namespace Analysis

variable {r : Analysis} {c : Circuit} {w : WireId} {o : Operand} {t : WireType}

/-- The list of the wires of a type has a wire at the place that is its rank, also for the types of
the wires from `first` on. -/
theorem getElem?_filter_zipIdx {types : List WireType} {first k : Nat} :
    (((types.zipIdx first).filter fun (t', _) => t' = t).map fun (_, i) => WireId.mk i)[k]? = some w
      ↔ ∃ i, w.index = first + i ∧ types[i]? = some t ∧ (types.take i).count t = k := by
  induction types generalizing first k with
  | nil => simp
  | cons a types ih =>
    -- the first wire is that of the place zero, or the place is counted behind it
    have later : (∃ i, w.index = first + i ∧ (a :: types)[i]? = some t ∧
          ((a :: types).take i).count t = k) ↔
        (w.index = first ∧ a = t ∧ k = 0) ∨
        ∃ i, w.index = first + 1 + i ∧ types[i]? = some t ∧
          (types.take i).count t + (if a = t then 1 else 0) = k := by
      constructor
      · rintro ⟨_ | i, place, type, rank⟩
        · exact .inl ⟨place, by simpa using type, rank.symm⟩
        · refine .inr ⟨i, by omega, type, ?_⟩
          rw [← rank, List.take_succ_cons, List.count_cons]
          simp
      · rintro (⟨place, rfl, rfl⟩ | ⟨i, place, type, rank⟩)
        · exact ⟨0, place, rfl, rfl⟩
        · refine ⟨i + 1, by omega, type, ?_⟩
          rw [← rank, List.take_succ_cons, List.count_cons]
          simp
    rw [later, List.zipIdx_cons, List.filter_cons]
    by_cases here : a = t
    · cases k with
      | zero => simp [here, WireId.ext_iff, eq_comm]
      | succ k =>
        simp only [here, decide_true, if_true, List.map_cons, List.getElem?_cons_succ, ih]
        simp
    · simp only [here, decide_false, Bool.false_eq_true, if_false, ih]
      simp

/-- The wire at a place of a register has as many wires of its type before it. -/
theorem getElem?_wiresOf {k : Nat} : (r.wiresOf t)[k]? = some w ↔
    r.wireType? w = some t ∧ (r.wireTypes.take w.index).count t = k := by
  unfold wiresOf
  rw [getElem?_filter_zipIdx]
  simp [wireType?]

/-- The wires of a register are those of its type. -/
theorem mem_wiresOf : w ∈ r.wiresOf t ↔ r.wireType? w = some t := by
  simp [List.mem_iff_getElem?, getElem?_wiresOf]

/-- They stand in it in order of their ids. -/
theorem ascending_wiresOf (r : Analysis) (t : WireType) :
    (r.wiresOf t).Pairwise fun v w => v.index < w.index := by
  have ascending : r.wireTypes.zipIdx.Pairwise fun p q => p.2 < q.2 := by
    rw [← List.pairwise_map, List.zipIdx_map_snd]
    exact List.pairwise_lt_range'
  exact List.pairwise_map.2 (ascending.filter _)

/-- The operand of a wire is the place of the wire in the list of its register. -/
theorem operand?_eq_some_iff :
    r.operand? w = some o ↔ (r.wiresIn o.register)[o.index]? = some w := by
  obtain ⟨register, k⟩ := o
  have place (t : WireType) :
      r.operand? w = some ⟨.ofType t, k⟩ ↔ (r.wiresOf t)[k]? = some w := by
    rw [getElem?_wiresOf]
    constructor
    · intro operand
      obtain ⟨t', type, registers⟩ := operand?_register operand
      cases Register.ofType_inj registers
      cases (operand?_eq_some type).symm.trans operand
      exact ⟨type, rfl⟩
    · rintro ⟨type, rfl⟩
      exact operand?_eq_some type
  cases register with
  | qubits => exact place .discrete
  | qumodes => exact place .continuous

/-- The wires of a circuit, in two lists. -/
structure Splits (r : Analysis) (c : Circuit) : Prop where
  ascending : ∀ register, (r.wiresIn register).Pairwise fun v w => v.index < w.index
  disjoint : r.discreteWires.Disjoint r.continuousWires
  all : ∀ w, w ∈ c.wires.ids ↔ w ∈ r.discreteWires ∨ w ∈ r.continuousWires

/-- An analysis splits the wires of a circuit with as many. -/
theorem splits_of_numWires (covers : r.numWires = c.numWires) : r.Splits c where
  ascending register := by cases register <;> exact ascending_wiresOf r _
  disjoint w discrete continuous := by
    cases (mem_wiresOf.1 discrete).symm.trans (mem_wiresOf.1 continuous)
  all w := by
    rw [Circuit.mem_ids, ← covers, discreteWires, continuousWires, mem_wiresOf, mem_wiresOf]
    constructor
    · intro inside
      obtain ⟨t, type⟩ := exists_wireType? inside
      cases t with
      | discrete => exact .inl type
      | continuous => exact .inr type
    · rintro (type | type)
      all_goals exact index_lt_of_wireType? type

end Analysis

/-- The operand that the scope has for a wire is the place of the wire in the list of its register,
and no two wires have operands that are written alike. -/
structure Scope.Numbers (scope : Scope) (r : Analysis) : Prop where
  looked_up : ∀ w : WireId, scope.operands[w.index]? = r.operand? w
  operands : ∀ w : WireId, ∀ o,
    scope.operands[w.index]? = some o ↔ (r.wiresIn o.register)[o.index]? = some w
  apart : ∀ (v w : WireId) (o o' : Operand), scope.operands[v.index]? = some o →
    scope.operands[w.index]? = some o' → o.text = o'.text → v = w

/-- A scope that resolves as an analysis numbers its wires. -/
theorem Scope.Resolves.numbers {scope : Scope} {r : Analysis} (resolves : scope.Resolves r) :
    scope.Numbers r where
  looked_up := resolves.operands
  operands w o := by rw [resolves.operands, Analysis.operand?_eq_some_iff]
  apart v w o o' of_v of_w same := by
    rw [resolves.operands] at of_v of_w
    rw [Operand.text_injective same] at of_v
    exact Analysis.operand?_inj of_v of_w

namespace Program

variable {c : Circuit} {r : Analysis} {scope : Scope} {mode : Mode} {rotations : Bool}

/-! ## The uses of the registers -/

/-- What some lines do with the registers, each in the order of the lines. -/
structure Uses where
  declared : List (Register × Nat) := []
  reset : List Register := []
  prepared : List Statement := []
  rotated : List Statement := []
  read : List Operand := []

namespace Uses

def ofLine : Line → Uses
  | .declaration _ count register => { declared := [(register, count)] }
  | .reset register => { reset := [register] }
  | .prepare st => { prepared := [st] }
  | .rotate st => { rotated := [st] }
  | .readout _ _ o _ => { read := [o] }
  | _ => {}

def ofLines (lines : List Line) : Uses where
  declared := lines.flatMap fun line => (ofLine line).declared
  reset := lines.flatMap fun line => (ofLine line).reset
  prepared := lines.flatMap fun line => (ofLine line).prepared
  rotated := lines.flatMap fun line => (ofLine line).rotated
  read := lines.flatMap fun line => (ofLine line).read

/-- All operands. -/
def operands (uses : Uses) : List Operand :=
  uses.prepared.flatMap Statement.operands ++ uses.rotated.flatMap Statement.operands ++ uses.read

def append (uses more : Uses) : Uses where
  declared := uses.declared ++ more.declared
  reset := uses.reset ++ more.reset
  prepared := uses.prepared ++ more.prepared
  rotated := uses.rotated ++ more.rotated
  read := uses.read ++ more.read

/-- The uses of lines in a row are put together part by part. -/
theorem ofLines_append (lines more : List Line) :
    ofLines (lines ++ more) = (ofLines lines).append (ofLines more) := by
  simp [ofLines, append]

theorem ofLines_eq_none {lines : List Line} (h : ∀ line ∈ lines, ofLine line = {}) :
    ofLines lines = {} := by
  unfold ofLines
  congr
  all_goals
    rw [List.flatMap_eq_nil_iff]
    intro line mem
    rw [h line mem]

end Uses

/-- Before the blocks the registers that are not empty are declared, each with the number of its
wires, and reset, and the operations are applied. -/
theorem preamble_uses (r : Analysis) (mode : Mode) (called : List ReadoutKind)
    (statements : List Statement) :
    Uses.ofLines (preamble r mode called statements) =
      { declared := r.registers.map fun register => (register, (r.wiresIn register).length)
        reset := r.registers, prepared := statements } := by
  have opening : Uses.ofLines ([.version, .includeFile "stdgates.inc"]
      ++ (if .qumodes ∈ r.registers then [.includeFile "cvstdgates.inc"] else []) ++ [.blank]) =
      {} := by
    split <;> rfl
  have separator : Uses.ofLines (if r.registers = [] then [] else [.blank]) = {} := by
    split <;> rfl
  have stubs : Uses.ofLines (called.map .stub) = {} := by
    simp [Uses.ofLines, Uses.ofLine, List.flatMap_map]
  have declarations : Uses.ofLines (r.registers.map fun register =>
      .declaration (register.keyword mode) (r.wiresIn register).length register) =
      { declared := r.registers.map fun register => (register, (r.wiresIn register).length) } := by
    have sizes := List.map_eq_flatMap (l := r.registers)
      (f := fun register => (register, (r.wiresIn register).length))
    simp [Uses.ofLines, Uses.ofLine, List.flatMap_map, sizes]
  have routine : Uses.ofLines (.openPreparation :: r.registers.map .reset
      ++ statements.map .prepare ++ [.closePreparation]) =
      { reset := r.registers, prepared := statements } := by
    simp [Uses.ofLines, Uses.ofLine, List.flatMap_map]
  unfold preamble
  rw [Uses.ofLines_append, Uses.ofLines_append, Uses.ofLines_append, Uses.ofLines_append, opening,
    declarations, stubs, separator, routine]
  simp [Uses.append]

/-- Readouts use the registers by reading operands, and in no other way. -/
theorem reads_uses {entries : List (WireId × BasisSchema)} {read : List Line}
    (reads : List.Forall₂ (Reads r mode) entries read) :
    ∃ operands, Uses.ofLines read = { read := operands } ∧
      List.Forall₂ (fun e o => r.operand? e.1 = some o) entries operands := by
  induction reads with
  | nil => exact ⟨[], rfl, .nil⟩
  | cons first _ ih =>
    obtain ⟨operands, used, found⟩ := ih
    obtain @⟨kind, o, i, -, read_from⟩ := first
    refine ⟨o :: operands, ?_, .cons read_from found⟩
    rw [← List.singleton_append, Uses.ofLines_append, used]
    rfl

/-- A block applies the diagonalizing operations of its group, if they are wanted, and makes its
readouts. -/
theorem block_uses {g : ExecutionGroup} {block : List Line}
    (h : IsBlock r mode rotations g block) :
    ∃ statements operands,
      Uses.ofLines (.blank :: block) = { rotated := statements, read := operands } ∧
      List.Forall₂ (Renders r) (if rotations then g.diagonalizing else []) statements ∧
      List.Forall₂ (fun e o => r.operand? e.1 = some o) g.readouts operands := by
  obtain ⟨statements, read, rfl, renders, reads⟩ := h
  obtain ⟨operands, used, found⟩ := reads_uses reads
  have applied : Uses.ofLines (.blank :: .callPreparation :: statements.map .rotate) =
      { rotated := statements } := by
    simp [Uses.ofLines, Uses.ofLine, List.flatMap_map]
  refine ⟨statements, operands, ?_, renders, found⟩
  rw [← List.cons_append, Uses.ofLines_append, applied, used]
  simp [Uses.append]

/-- Blocks use the registers by rotating and reading operands, and in no other way. -/
theorem blocks_uses {groups : List ExecutionGroup} {parts : List (List Line)}
    (are_blocks : List.Forall₂ (IsBlock r mode rotations) groups parts) :
    ∃ statements operands,
      Uses.ofLines (parts.flatMap (.blank :: ·)) = { rotated := statements, read := operands } ∧
      List.Forall₂ (Renders r)
        (groups.flatMap fun g => if rotations then g.diagonalizing else []) statements ∧
      List.Forall₂ (fun e o => r.operand? e.1 = some o)
        (groups.flatMap ExecutionGroup.readouts) operands := by
  induction are_blocks with
  | nil => exact ⟨[], [], rfl, .nil, .nil⟩
  | cons first _ ih =>
    obtain ⟨statements, operands, used, renders, found⟩ := block_uses first
    obtain ⟨statements', operands', used', renders', found'⟩ := ih
    refine ⟨statements ++ statements', operands ++ operands', ?_, List.rel_append renders renders',
      List.rel_append found found'⟩
    rw [List.flatMap_cons, Uses.ofLines_append, used, used']
    rfl

/-! ## The whole program -/

/-- The statement is made of an operation record: its operands are those of the wires that the
record names, in the order in which the record names them. -/
structure States (c : Circuit) (r : Analysis) (record : OperationRecord) (st : Statement) :
    Prop where
  name : st.name = record.name
  params : st.params = record.params
  operands : List.Forall₂ (fun w o => ∃ id, c.wires.get? w = some id ∧ r.operand? id = some o)
    record.wires st.operands

/-- What a program does with the registers. The operands of statements and readouts are those of the
wires of the operations and of the groups, in order, and they lie inside the registers. -/
structure WellScoped (c : Circuit) (r : Analysis) (rotations : Bool) (uses : Uses) : Prop where
  declared : uses.declared =
    r.registers.map fun register => (register, (r.wiresIn register).length)
  reset : uses.reset = r.registers
  prepared : List.Forall₂ (Renders r) c.operations uses.prepared
  rotated : List.Forall₂ (Renders r)
    (r.groups.flatMap fun g => if rotations then g.diagonalizing else []) uses.rotated
  read : List.Forall₂ (fun e o => r.operand? e.1 = some o)
    (r.groups.flatMap ExecutionGroup.readouts) uses.read
  inside : ∀ o ∈ uses.operands, ∃ size, (o.register, size) ∈ uses.declared ∧ o.index < size
  recorded : ∀ entries, c.Lists entries →
    List.Forall₂ (States c r) (entries.filterMap Entry.record?) uses.prepared

/-- The operand of a wire lies in a register that is not empty. -/
theorem inside_of_operand? {w : WireId} {o : Operand} (operand : r.operand? w = some o) :
    ∃ size, (o.register, size) ∈
        r.registers.map (fun register => (register, (r.wiresIn register).length)) ∧
      o.index < size := by
  have there := Analysis.operand?_eq_some_iff.1 operand
  have inside : o.index < (r.wiresIn o.register).length := (List.getElem?_eq_some_iff.1 there).1
  refine ⟨_, List.mem_map.2 ⟨o.register, List.mem_filter.2 ⟨?_, ?_⟩, rfl⟩, inside⟩
  · cases o.register <;> decide
  · exact decide_eq_true (List.ne_nil_of_length_pos (Nat.zero_lt_of_lt inside))

/-- Every operand of a statement is that of a wire. -/
theorem exists_wire_of_renders {ops : List Operation} {statements : List Statement}
    (renders : List.Forall₂ (Renders r) ops statements) {o : Operand}
    (mem : o ∈ statements.flatMap Statement.operands) : ∃ w, r.operand? w = some o := by
  obtain ⟨st, listed, mem⟩ := List.mem_flatMap.1 mem
  obtain ⟨op, -, rendered⟩ := Steps.exists_left_of_mem renders listed
  obtain ⟨w, -, operand⟩ := Steps.exists_left_of_mem rendered.operands mem
  exact ⟨w, operand⟩

/-- Two lists that are related to one list, item by item, are related to each other. -/
theorem forall₂_of_common {α β γ : Type} {R : α → β → Prop} {S : α → γ → Prop} {T : β → γ → Prop}
    {xs : List α} {ys : List β} {zs : List γ} (left : List.Forall₂ R xs ys)
    (right : List.Forall₂ S xs zs) (h : ∀ x y z, R x y → S x z → T y z) : List.Forall₂ T ys zs := by
  induction left generalizing zs with
  | nil =>
    cases right
    exact .nil
  | cons first _ ih =>
    cases right with
    | cons first' rest => exact .cons (h _ _ _ first first') (ih rest)

/-- A statement of an operation is one of the record that the operation stands for. -/
theorem Renders.states {op : Operation} {st : Statement} {record : OperationRecord}
    (renders : Renders r op st) (stands : op.StandsFor c.wires record) :
    States c r record st where
  name := renders.name.trans stands.name
  params := renders.params.trans stands.params
  operands := by
    have labelled : List.Forall₂ (fun id w => c.wires.label? id = some w) op.wires
        record.wires := by
      have same := stands.wires
      rwa [Normal.Labelled, ← List.forall₂_eq_eq_eq, List.forall₂_map_left_iff,
        List.forall₂_map_right_iff] at same
    refine forall₂_of_common labelled renders.operands fun id w o label operand => ?_
    exact ⟨id, WireTable.get?_eq_some_iff.2 label, operand⟩

/-- A program does what is said of it with the registers. -/
theorem IsProgram.wellScoped {written : List Line} (h : IsProgram c r mode rotations written) :
    WellScoped c r rotations (Uses.ofLines written) := by
  obtain @⟨called, statements, parts, -, -, renders, are_blocks⟩ := h
  obtain ⟨rotated, read, measured_uses, rotated_renders, found⟩ := blocks_uses are_blocks
  have uses : Uses.ofLines (preamble r mode called statements ++ parts.flatMap (.blank :: ·)) =
      { declared := r.registers.map fun register => (register, (r.wiresIn register).length)
        reset := r.registers, prepared := statements, rotated, read } := by
    rw [Uses.ofLines_append, preamble_uses, measured_uses]
    simp [Uses.append]
  rw [uses]
  refine ⟨rfl, rfl, renders, rotated_renders, found, fun o mem => ?_, fun entries lists => ?_⟩
  · obtain ⟨w, operand⟩ : ∃ w, r.operand? w = some o := by
      rcases List.mem_append.1 mem with applied | read_from
      · rcases List.mem_append.1 applied with early | late
        · exact exists_wire_of_renders renders early
        · exact exists_wire_of_renders rotated_renders late
      · obtain ⟨e, -, operand⟩ := Steps.exists_left_of_mem found read_from
        exact ⟨e.1, operand⟩
    exact inside_of_operand? operand
  · exact forall₂_of_common lists.operations renders fun op record st stands rendered =>
      rendered.states stands

/-- Under the analysis of any circuit no wire is looked up in vain: either the analysis is refused,
or there are operands for all wires of the circuit and of the groups. -/
theorem emit_ne_noOperand {d : Circuit} (built : c.Reachable) (built' : d.Reachable)
    (analysed : Analysis.ofCircuit d = .ok r) (s : Settings) (w : WireId) :
    emit c r s ≠ .error (.noOperand w) := by
  intro failed
  have describes := Analysis.describes_of_ofCircuit built'.wellFormed analysed
  by_cases suits : r.Suits c
  · obtain ⟨⟨text, emitted⟩, -⟩ | ⟨emitted, -⟩ :=
      emit_of_suits (s := s) built.wellFormed suits describes.groupsInside
    · cases emitted.symm.trans failed
    · cases emitted.symm.trans failed
  · obtain ⟨mismatch, reported⟩ := emit_of_not_suits s suits
    cases reported.symm.trans failed

/-- Under the analysis of any circuit no wire is looked up in vain, and under any analysis a program
uses the registers that it declares. Its operands are numbered as the analysis lists the wires of
each type, two lists that divide the wires of the circuit. -/
theorem operands_well_scoped (c : Circuit) (r : Analysis) (s : Settings) :
    (∀ d : Circuit, c.Reachable → d.Reachable → Analysis.ofCircuit d = .ok r →
      ∀ w, emit c r s ≠ .error (.noOperand w)) ∧
    ∀ text, emit c r s = .ok text → ∃ scope written, Scope.ofAnalysis c r = .ok scope ∧
      lines s.mode s.rotations c r = .ok written ∧ Written s written text ∧
      IsProgram c r s.mode s.rotations written ∧
      r.Splits c ∧ scope.Numbers r ∧ WellScoped c r s.rotations (Uses.ofLines written) := by
  refine ⟨fun d built built' analysed => emit_ne_noOperand built built' analysed s, ?_⟩
  intro text emitted
  obtain ⟨written, done, rendered⟩ := emit_eq_ok emitted
  obtain ⟨scope, checked, -⟩ := lines_eq_ok.1 done
  have suits : r.Suits c := Scope.ofAnalysis_isOk_iff.1 ⟨scope, checked⟩
  have whole : IsProgram c r s.mode s.rotations written := isProgram_of_lines done
  exact ⟨scope, written, checked, done, written_iff.2 rendered, whole,
    Analysis.splits_of_numWires suits.numWires, (Scope.resolves_of_ofAnalysis checked).numbers,
    whole.wellScoped⟩

/-- Two qumodes around two qubits, the wires 0 and 3, under the analysis that was made before two of
the gates. -/
theorem operands_well_scoped_of_interleaved :
    let d := (Circuit.empty "c").afterCalls [
      .hybrid "ConditionalDisplacement" [.index 0, .index 1] 1 [],
      .measure (.leaf ⟨"PauliX", [.index 2], []⟩), .measure (.leaf ⟨"QuadX", [.index 3], []⟩)]
    let c := d.afterCalls [
      .standard "CNOT" [.index 2, .index 1] [], .continuous "Beamsplitter" [.index 3, .index 0] []]
    ∃ r text scope written, Analysis.ofCircuit d = .ok r ∧ emit c r {} = .ok text ∧
      Scope.ofAnalysis c r = .ok scope ∧ lines .permissive true c r = .ok written ∧
      (∀ w, emit c r {} ≠ .error (.noOperand w)) ∧ IsProgram c r .permissive true written ∧
      r.Splits c ∧ scope.Numbers r ∧ WellScoped c r true (Uses.ofLines written) ∧
      Uses.ofLines written = {
        declared := [(.qubits, 2), (.qumodes, 2)], reset := [.qubits, .qumodes]
        prepared := [⟨"ConditionalDisplacement", [], [⟨.qumodes, 0⟩, ⟨.qubits, 0⟩]⟩,
          ⟨"CNOT", [], [⟨.qubits, 1⟩, ⟨.qubits, 0⟩]⟩,
          ⟨"Beamsplitter", [], [⟨.qumodes, 1⟩, ⟨.qumodes, 0⟩]⟩]
        rotated := [⟨"Hadamard", [], [⟨.qubits, 1⟩]⟩, ⟨"Rotation", [.real .zero], [⟨.qumodes, 1⟩]⟩]
        read := [⟨.qubits, 1⟩, ⟨.qumodes, 1⟩] } ∧
      Written {} written text ∧
      text = "OPENQASM 3.0;\ninclude \"stdgates.inc\";\ninclude \"cvstdgates.inc\";\n\n"
        ++ "qubit[2] q;\nqumode[2] m;\n\ndef state_prep() \x7b\n    reset q;\n    reset m;\n"
        ++ "    cv_cd m[0], q[0];\n    cx q[1], q[0];\n    cv_bs m[1], m[0];\n\x7d\n\n"
        ++ "state_prep();\nh q[1];\ncv_r(0.000000) m[1];\n"
        ++ "bit c0 = measure q[1];\nfloat[32] c1 = homodyne m[1];\n" := by
  intro d c
  have built : d.Reachable := ⟨_, _, rfl⟩
  obtain ⟨r, analysed⟩ : ∃ r, Analysis.ofCircuit d = .ok r := ⟨_, rfl⟩
  obtain ⟨text, emitted⟩ : ∃ text, emit c r {} = .ok text := by
    cases analysed
    exact ⟨_, rfl⟩
  obtain ⟨never, accepted⟩ := operands_well_scoped c r {}
  obtain ⟨scope, written, checked, done, spelled, whole, splits, numbers, inside⟩ :=
    accepted text emitted
  refine ⟨r, text, scope, written, analysed, emitted, checked, done,
    never d (built.afterCalls _) built analysed, whole, splits, numbers, inside, ?_, spelled, ?_⟩
  · cases analysed
    cases done
    rfl
  · cases analysed
    refine Except.ok.inj (emitted.symm.trans ?_)
    decide +kernel

end Program

end Qumode

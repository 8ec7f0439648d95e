import Qumode.Proofs.FirstOccurrences
import Qumode.Proofs.Program.Operands

/-!
# The layout of a program

Every group has one block of lines, after a blank line: a call of the preparation, the diagonalizing
statements if they are wanted, and the readouts of the group in order (`IsBlock`). The blocks follow
the groups, and nothing before them is read out, so the result variables are numbered through all
readouts (`lines_layout`).
-/

namespace Qumode

/-- The variable that a line declares. -/
def Line.declared? : Line → Option Nat
  | readout _ i _ _ => some i
  | _ => none

/-- Whether the line is a diagonalizing statement. -/
def Line.isRotation : Line → Bool
  | rotate _ => true
  | _ => false

/-- The keyword that declares a register. All registers of a strict program hold qubits. -/
def Register.keyword : Mode → Register → WireType
  | .permissive, .qumodes => .continuous
  | _, _ => .discrete

namespace Program

variable {c : Circuit} {r : Analysis} {scope : Scope} {mode : Mode} {rotations : Bool}

/-- The statement applies the operation to the operands of its wires. -/
structure Renders (r : Analysis) (op : Operation) (st : Statement) : Prop where
  name : st.name = op.name
  params : st.params = op.params
  operands : List.Forall₂ (fun w o => r.operand? w = some o) op.wires st.operands

/-- The line reads a wire out in a schema: what it says follows from the type of the wire, all but
the number of its variable. -/
inductive Reads (r : Analysis) (mode : Mode) (e : WireId × BasisSchema) : Line → Prop where
  | intro {kind : ReadoutKind} {o : Operand} (i : Nat) (read_as : r.kind? e = some kind)
      (read_from : r.operand? e.1 = some o) :
      Reads r mode e (.readout kind i o (kind.isCall mode))

/-- The lines are those of the group. -/
def IsBlock (r : Analysis) (mode : Mode) (rotations : Bool) (g : ExecutionGroup)
    (block : List Line) : Prop :=
  ∃ statements read, block = .callPreparation :: statements.map .rotate ++ read ∧
    List.Forall₂ (Renders r) (if rotations then g.diagonalizing else []) statements ∧
    List.Forall₂ (Reads r mode) g.readouts read

namespace IsBlock

variable {g : ExecutionGroup} {block : List Line}

/-- A line of a block is the call, a rotation or the readout of a wire. -/
theorem mem_cases (h : IsBlock r mode rotations g block) {line : Line} (mem : line ∈ block) :
    line = .callPreparation ∨ (∃ st, line = .rotate st) ∨
      ∃ e ∈ g.readouts, Reads r mode e line := by
  obtain ⟨statements, read, rfl, -, reads⟩ := h
  rcases List.mem_append.1 mem with early | late
  · rcases List.mem_cons.1 early with call | rotated
    · exact .inl call
    · obtain ⟨st, -, rotate⟩ := List.mem_map.1 rotated
      exact .inr (.inl ⟨st, rotate.symm⟩)
  · exact .inr (.inr (Steps.exists_left_of_mem reads late))

/-- Every readout of a group stands in its block. -/
theorem exists_reads (h : IsBlock r mode rotations g block) {e : WireId × BasisSchema}
    (he : e ∈ g.readouts) : ∃ line ∈ block, Reads r mode e line := by
  obtain ⟨statements, read, rfl, -, reads⟩ := h
  obtain ⟨line, mem, found⟩ := Steps.exists_left_of_mem reads.flip he
  exact ⟨line, List.mem_append_right _ mem, found⟩

/-- A line of the blocks of some groups, each after a blank line. -/
theorem mem_flatMap_cases {groups : List ExecutionGroup} {parts : List (List Line)}
    (are_blocks : List.Forall₂ (IsBlock r mode rotations) groups parts) {line : Line}
    (mem : line ∈ parts.flatMap (.blank :: ·)) :
    line = .blank ∨ line = .callPreparation ∨ (∃ st, line = .rotate st) ∨
      ∃ g ∈ groups, ∃ e ∈ g.readouts, Reads r mode e line := by
  obtain ⟨part, listed, mem⟩ := List.mem_flatMap.1 mem
  rcases List.mem_cons.1 mem with blank | inside
  · exact .inl blank
  · obtain ⟨g, hg, is_block⟩ := Steps.exists_left_of_mem are_blocks listed
    obtain call | rotate | ⟨e, he, reads⟩ := is_block.mem_cases inside
    · exact .inr (.inl call)
    · exact .inr (.inr (.inl rotate))
    · exact .inr (.inr (.inr ⟨g, hg, e, he, reads⟩))

end IsBlock

/-! ## The lines of a group -/

theorem operand_eq_ok {w : WireId} {o : Operand} :
    scope.operand w = .ok o ↔ scope.operands[w.index]? = some o := by
  unfold Scope.operand
  cases scope.operands[w.index]? <;> simp

/-- A statement bears the name of its operation and has the operands of its wires. -/
theorem statement_renders (resolves : scope.Resolves r) {op : Operation} {st : Statement}
    (stated : scope.statement op = .ok st) : Renders r op st := by
  obtain ⟨operands, found, done⟩ := Steps.bind_eq_ok.1 stated
  cases done
  refine ⟨rfl, rfl, ?_⟩
  refine (Steps.mapM_eq_ok.1 found).imp fun w o looked_up => ?_
  rw [← resolves.operands]
  exact operand_eq_ok.1 looked_up

/-- The rotations of a block render the diagonalizing operations, or there are none. -/
theorem rotated_renders (resolves : scope.Resolves r) {g : ExecutionGroup}
    {statements : List Statement} (stated : rotated rotations scope g = .ok statements) :
    List.Forall₂ (Renders r) (if rotations then g.diagonalizing else []) statements := by
  unfold rotated at stated
  cases rotations with
  | true => exact (Steps.mapM_eq_ok.1 stated).imp fun op st => statement_renders resolves
  | false =>
    cases stated
    exact .nil

/-- The readouts of a group from `position` on. -/
theorem readouts_layout (resolves : scope.Resolves r) {group position next : Nat}
    {kinds : List ReadoutKind} {entries : List (WireId × BasisSchema)} {lines : List Line}
    (there : scope.kinds[group]? = some kinds)
    (typed : List.Forall₂ (fun e kind => r.kind? e = some kind) entries (kinds.drop position))
    (written : readouts mode scope group position next entries = .ok lines) :
    List.Forall₂ (Reads r mode) entries lines ∧
      lines.filterMap Line.declared? = List.range' next entries.length := by
  -- the code counts the position up in one list of kinds; what it has still to read is the rest
  induction entries generalizing position next lines with
  | nil =>
    cases written
    exact ⟨.nil, rfl⟩
  | cons e rest ih =>
    obtain ⟨kind, later, read_as, typed, dropped⟩ := List.forall₂_cons_left_iff.1 typed
    obtain ⟨first, behind⟩ := Steps.of_drop_eq_cons dropped
    have here : scope.kind group position e.1 = .ok kind := by
      rw [Scope.kind, there, Option.bind_some, first]
    unfold readouts at written
    rw [here] at written
    obtain ⟨_, ⟨⟩, written⟩ := Steps.bind_eq_ok.1 written
    obtain ⟨o, found, written⟩ := Steps.bind_eq_ok.1 written
    obtain ⟨others, more, done⟩ := Steps.bind_eq_ok.1 written
    cases done
    obtain ⟨reads, numbered⟩ := ih (behind ▸ typed) more
    have read_from : r.operand? e.1 = some o := by
      rw [← resolves.operands]
      exact operand_eq_ok.1 found
    refine ⟨.cons (.intro next read_as read_from) reads, ?_⟩
    rw [List.length_cons, List.range'_succ, ← numbered]
    rfl

/-- A block is laid out for the group it is written for. -/
theorem block_layout (resolves : scope.Resolves r) {index next : Nat} {g : ExecutionGroup}
    {kinds : List ReadoutKind} {lines : List Line} (there : scope.kinds[index]? = some kinds)
    (typed : List.Forall₂ (fun e kind => r.kind? e = some kind) g.readouts kinds)
    (written : block mode rotations scope index next g = .ok lines) :
    IsBlock r mode rotations g lines ∧
      lines.filterMap Line.declared? = List.range' next g.readouts.length := by
  obtain ⟨statements, stated, written⟩ := Steps.bind_eq_ok.1 written
  obtain ⟨read, found, done⟩ := Steps.bind_eq_ok.1 written
  cases done
  obtain ⟨reads, numbered⟩ := readouts_layout resolves there typed found
  refine ⟨⟨statements, read, rfl, rotated_renders resolves stated, reads⟩, ?_⟩
  rw [List.filterMap_append, numbered]
  simp [Line.declared?]

/-- How many readouts some groups have. -/
def readoutCount (groups : List ExecutionGroup) : Nat :=
  (groups.flatMap ExecutionGroup.readouts).length

/-- The blocks of the groups from `index` on. -/
theorem blocks_layout (resolves : scope.Resolves r) {index next : Nat}
    {groups : List ExecutionGroup} {lines : List Line}
    (typed : List.Forall₂ (fun g kinds => List.Forall₂ (fun e kind => r.kind? e = some kind)
      g.readouts kinds) groups (scope.kinds.drop index))
    (written : blocks mode rotations scope index next groups = .ok lines) :
    ∃ parts, lines = parts.flatMap (.blank :: ·) ∧
      List.Forall₂ (IsBlock r mode rotations) groups parts ∧
      lines.filterMap Line.declared? = List.range' next (readoutCount groups) := by
  induction groups generalizing index next lines with
  | nil =>
    cases written
    exact ⟨[], rfl, .nil, rfl⟩
  | cons g rest ih =>
    obtain ⟨kinds, later, here, typed, dropped⟩ := List.forall₂_cons_left_iff.1 typed
    obtain ⟨there, behind⟩ := Steps.of_drop_eq_cons dropped
    obtain ⟨part, first, written⟩ := Steps.bind_eq_ok.1 written
    obtain ⟨more, others, done⟩ := Steps.bind_eq_ok.1 written
    cases done
    obtain ⟨is_block, numbered⟩ := block_layout resolves there here first
    obtain ⟨parts, rfl, are_blocks, numbered'⟩ := ih (behind ▸ typed) others
    refine ⟨part :: parts, rfl, .cons is_block are_blocks, ?_⟩
    unfold readoutCount at numbered' ⊢
    rw [List.flatMap_cons, List.length_append, ← List.range'_append_1, ← numbered, ← numbered',
      List.cons_append, ← List.filterMap_append]
    rfl

/-! ## The whole program -/

/-- A strict program calls a function for each way in which a wire is read out but measuring. -/
theorem mem_calledKinds (resolves : scope.Resolves r) {kind : ReadoutKind} :
    kind ∈ calledKinds mode scope ↔ mode = .strict ∧ kind ≠ .measure ∧
      ∃ g ∈ r.groups, ∃ e ∈ g.readouts, r.kind? e = some kind := by
  unfold calledKinds
  rw [List.mem_eraseDups, List.mem_filter, resolves.mem_kinds, and_comm, ← and_assoc]
  simp [ReadoutKind.isCall]

/-- The parts of a program. -/
theorem lines_eq_ok {written : List Line} :
    lines mode rotations c r = .ok written ↔
      ∃ scope, Scope.ofAnalysis c r = .ok scope ∧
        ∃ prepared, preparation scope c.operations = .ok prepared ∧
          ∃ measured, blocks mode rotations scope 0 0 r.groups = .ok measured ∧
            written = header scope ++ declarations mode scope ++ prepared ++ measured := by
  unfold lines
  cases checked : Scope.ofAnalysis c r with
  | error mismatch =>
    refine iff_of_false ?_ ?_
    · intro done
      cases done
    · rintro ⟨scope, accepted, -⟩
      cases accepted
  | ok scope =>
    have accepted : (Except.ok scope : Except Mismatch Scope).mapError EmitError.invariant
        = .ok scope := rfl
    rw [accepted, Steps.bind_eq_ok]
    refine exists_congr fun scope' => and_congr (by simp) ?_
    rw [Steps.bind_eq_ok]
    refine exists_congr fun prepared => and_congr_right fun _ => ?_
    rw [Steps.bind_eq_ok]
    refine exists_congr fun measured => and_congr_right fun _ => ?_
    exact ⟨fun done => (Except.ok.inj done).symm, fun same => congrArg Except.ok same.symm⟩

/-- The header holds the version, includes and a blank line alone. -/
theorem header_lines : ∀ line ∈ header scope,
    line = .version ∨ (∃ name, line = .includeFile name) ∨ line = .blank := by
  unfold header
  split
  all_goals
    intro line mem
    simp only [List.mem_append, List.mem_cons, List.not_mem_nil, or_false] at mem
    obtain ((rfl | rfl) | rfl) | rfl := mem
    all_goals simp

/-- The declarations hold registers, stubs and a blank line alone. -/
theorem declarations_lines : ∀ line ∈ declarations mode scope,
    (∃ keyword count register, line = .declaration keyword count register) ∨
      (∃ kind, line = .stub kind) ∨ line = .blank := by
  intro line mem
  simp only [declarations, List.mem_append, List.mem_map] at mem
  rcases mem with ((qubits | qumodes) | ⟨kind, -, rfl⟩) | blank
  · split at qubits
    · exact .inl ⟨_, _, _, List.mem_singleton.1 qubits⟩
    · cases qubits
  · split at qumodes
    · exact .inl ⟨_, _, _, List.mem_singleton.1 qumodes⟩
    · cases qumodes
  · exact .inr (.inl ⟨kind, rfl⟩)
  · split at blank
    · exact .inr (.inr (List.mem_singleton.1 blank))
    · cases blank

/-- The preparation holds its two ends, resets and statements alone. -/
theorem preparation_lines {operations : List Operation} {prepared : List Line}
    (done : preparation scope operations = .ok prepared) :
    ∀ line ∈ prepared, line = .openPreparation ∨ line = .closePreparation ∨
      (∃ register, line = .reset register) ∨ ∃ statement, line = .prepare statement := by
  obtain ⟨statements, -, same⟩ := Steps.bind_eq_ok.1 done
  cases same
  intro line mem
  simp only [List.mem_append, List.mem_singleton, List.mem_map] at mem
  obtain (((rfl | reset) | reset) | ⟨statement, -, rfl⟩) | rfl := mem
  · exact .inl rfl
  · split at reset
    · exact .inr (.inr (.inl ⟨_, List.mem_singleton.1 reset⟩))
    · cases reset
  · split at reset
    · exact .inr (.inr (.inl ⟨_, List.mem_singleton.1 reset⟩))
    · cases reset
  · exact .inr (.inr (.inr ⟨statement, rfl⟩))
  · exact .inr (.inl rfl)

/-- Nothing is read out before the blocks, and nothing is diagonalized. -/
theorem before_blocks {prepared : List Line}
    (done : preparation scope c.operations = .ok prepared) :
    ∀ line ∈ header scope ++ declarations mode scope ++ prepared,
      line.declared? = none ∧ line.isRotation = false := by
  intro line mem
  rw [List.mem_append, List.mem_append] at mem
  rcases mem with (early | declared) | inside
  · obtain rfl | ⟨name, rfl⟩ | rfl := header_lines line early
    all_goals exact ⟨rfl, rfl⟩
  · obtain ⟨keyword, count, register, rfl⟩ | ⟨kind, rfl⟩ | rfl := declarations_lines line declared
    all_goals exact ⟨rfl, rfl⟩
  · obtain rfl | rfl | ⟨register, rfl⟩ | ⟨statement, rfl⟩ := preparation_lines done line inside
    all_goals exact ⟨rfl, rfl⟩

/-- No result variable is declared in front of the blocks. -/
theorem no_variable_before {prepared : List Line}
    (done : preparation scope c.operations = .ok prepared) :
    (header scope ++ declarations mode scope ++ prepared).filterMap Line.declared? = [] :=
  List.filterMap_eq_nil_iff.2 fun line mem => (before_blocks done line mem).1

/-- What a program begins with, up to the end of the preparation routine: the version and the
includes, the registers that are not empty and a stub for each called function, and the routine,
which resets the registers and applies the operations. -/
def preamble (r : Analysis) (mode : Mode) (called : List ReadoutKind)
    (statements : List Statement) : List Line :=
  [.version, .includeFile "stdgates.inc"]
    ++ (if .qumodes ∈ r.registers then [.includeFile "cvstdgates.inc"] else []) ++ [.blank]
    ++ (r.registers.map fun register =>
      .declaration (register.keyword mode) (r.wiresIn register).length register)
    ++ called.map .stub ++ (if r.registers = [] then [] else [.blank])
    ++ (.openPreparation :: r.registers.map .reset ++ statements.map .prepare
      ++ [.closePreparation])

/-- The lines are a whole program of a circuit under an analysis. A strict program calls a function
for each way in which a qumode is read out. -/
inductive IsProgram (c : Circuit) (r : Analysis) (mode : Mode) (rotations : Bool) :
    List Line → Prop where
  | intro {called : List ReadoutKind} {statements : List Statement} {parts : List (List Line)}
      (distinct : called.Nodup)
      (calls : ∀ kind, kind ∈ called ↔ mode = .strict ∧ kind ≠ .measure ∧
        ∃ g ∈ r.groups, ∃ e ∈ g.readouts, r.kind? e = some kind)
      (renders : List.Forall₂ (Renders r) c.operations statements)
      (are_blocks : List.Forall₂ (IsBlock r mode rotations) r.groups parts) :
      IsProgram c r mode rotations
        (preamble r mode called statements ++ parts.flatMap (.blank :: ·))

/-- What stands before the blocks, by the registers of the analysis. -/
theorem preamble_eq (numQubits : scope.numQubits = r.discreteWires.length)
    (numQumodes : scope.numQumodes = r.continuousWires.length) (statements : List Statement) :
    header scope ++ declarations mode scope ++ ([.openPreparation]
      ++ (if 0 < scope.numQubits then [.reset .qubits] else [])
      ++ (if 0 < scope.numQumodes then [.reset .qumodes] else [])
      ++ statements.map .prepare ++ [.closePreparation]) =
    preamble r mode (calledKinds mode scope) statements := by
  have keyword : qumodeKeyword mode = Register.keyword mode .qumodes := by cases mode <;> rfl
  have qubit_keyword : Register.keyword mode .qubits = .discrete := by cases mode <;> rfl
  unfold header declarations preamble
  rw [numQubits, numQumodes, Analysis.registers_eq, keyword]
  cases qubits : r.discreteWires <;> cases qumodes : r.continuousWires
  all_goals simp [Analysis.wiresIn, Nat.add_pos_iff_pos_or_pos, qubits, qumodes, qubit_keyword]

/-- The lines that are written are a whole program. -/
theorem isProgram_of_lines {written : List Line} (done : lines mode rotations c r = .ok written) :
    IsProgram c r mode rotations written := by
  obtain ⟨scope, checked, prepared, prepares, measured, measures, rfl⟩ := lines_eq_ok.1 done
  have resolves := Scope.resolves_of_ofAnalysis checked
  obtain ⟨numQubits, numQumodes⟩ := Scope.registers_of_ofAnalysis checked
  obtain ⟨parts, rfl, are_blocks, -⟩ := blocks_layout resolves resolves.kinds measures
  obtain ⟨statements, stated, same⟩ := Steps.bind_eq_ok.1 prepares
  cases same
  have renders := (Steps.mapM_eq_ok.1 stated).imp fun _ _ => statement_renders resolves
  rw [preamble_eq numQubits numQumodes]
  refine .intro (nodup_eraseDups _) (fun kind => ?_) renders are_blocks
  exact mem_calledKinds resolves

/-- A program ends in the blocks of the groups, and its variables are numbered from zero through all
readouts. -/
theorem lines_layout {written : List Line} (done : lines mode rotations c r = .ok written) :
    ∃ preamble parts, written = preamble ++ parts.flatMap (.blank :: ·) ∧
      List.Forall₂ (IsBlock r mode rotations) r.groups parts ∧
      written.filterMap Line.declared? = List.range (readoutCount r.groups) := by
  obtain ⟨scope, checked, prepared, prepares, measured, measures, rfl⟩ := lines_eq_ok.1 done
  have resolves := Scope.resolves_of_ofAnalysis checked
  obtain ⟨parts, rfl, are_blocks, numbered⟩ := blocks_layout resolves resolves.kinds measures
  refine ⟨_, parts, rfl, are_blocks, ?_⟩
  rw [List.filterMap_append, no_variable_before prepares, numbered, List.nil_append,
    List.range_eq_range']

end Program

end Qumode

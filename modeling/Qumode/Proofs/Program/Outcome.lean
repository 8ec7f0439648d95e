import Qumode.Proofs.Program.Scope
import Qumode.Proofs.Steps

/-!
# What becomes of a circuit that is emitted

A built circuit either has no analysis, and that is reported, or it has one, and then the lines of
its program can always be written down: the analysis suits the circuit, every operand and every
readout kind that is looked up is there. The text of the lines is missing only if a real parameter
stands in one of them and is wanted with more decimal places than a real can have.

`Program.Prints` carries the parameters along: a part of the emission succeeds, with lines that
print these parameters.
-/

namespace Qumode

/-- The parameters that stand in a line. -/
def Line.params : Line → List Param
  | prepare statement | rotate statement => statement.params
  | _ => []

/-! ## When a line has a text -/

/-- Only a real with too many places cannot be written. -/
theorem Param.isSome_text?_iff {precision : Nat} {p : Param} :
    (p.text? precision).isSome ↔ ∀ x, p = .real x → precision ≤ Real64.maxPlaces := by
  cases p with
  | int value => simp [text?]
  | real value => simp [text?, Real64.toFixed?_isSome]

/-- A statement can be written when its parameters can. -/
theorem Statement.isSome_text?_iff {precision : Nat} {st : Statement} :
    (st.text? precision).isSome ↔ ∀ p ∈ st.params, (p.text? precision).isSome := by
  rw [text?]
  split
  case isTrue none_given => simp [List.isEmpty_iff.1 none_given]
  case isFalse => rw [Option.isSome_map, Steps.isSome_mapM_iff]

/-- A line can be written when the parameters in it can. -/
theorem Line.isSome_text?_iff {s : Settings} {line : Line} :
    (line.text? s).isSome ↔ ∀ p ∈ line.params, (p.text? s.precision.toNat).isSome := by
  rw [text?, Option.isSome_map]
  cases line with
  | prepare statement => exact Statement.isSome_text?_iff
  | rotate statement => exact Statement.isSome_text?_iff
  | _ => exact iff_of_true rfl nofun

/-- Lines have a text unless a real parameter has to be written with too many places. -/
theorem Line.isSome_render?_iff {s : Settings} {lines : List Line} :
    (render? s lines).isSome ↔
      ∀ x, .real x ∈ lines.flatMap params → s.precision.toNat ≤ Real64.maxPlaces := by
  rw [render?, Option.isSome_map, Steps.isSome_mapM_iff]
  simp only [isSome_text?_iff, Param.isSome_text?_iff, List.mem_flatMap]
  constructor
  · rintro printable x ⟨line, hline, hx⟩
    exact printable line hline _ hx x rfl
  · rintro printable line hline _ hx x rfl
    exact printable x ⟨line, hline, hx⟩

/-! ## Lines can always be written down -/

namespace Scope

variable {scope : Scope}

/-- Every wire that has an operand is found. -/
theorem operand_isOk {w : WireId} (inside : w.index < scope.operands.length) :
    ∃ operand, scope.operand w = .ok operand := by
  rw [operand, List.getElem?_eq_getElem inside]
  exact ⟨_, rfl⟩

/-- An operation on wires with operands is a statement with its parameters. -/
theorem statement_isOk {op : Operation}
    (inside : ∀ w ∈ op.wires, w.index < scope.operands.length) :
    ∃ st, scope.statement op = .ok st ∧ st.params = op.params := by
  obtain ⟨operands, found⟩ : ∃ operands, op.wires.mapM scope.operand = .ok operands :=
    Steps.mapM_isOk_iff.2 fun w hw => operand_isOk (inside w hw)
  exact ⟨⟨op.name, op.params, operands⟩, Steps.bind_eq_ok.2 ⟨operands, found, rfl⟩, rfl⟩

/-- So are operations, each of them. -/
theorem statements_isOk {ops : List Operation}
    (inside : ∀ op ∈ ops, ∀ w ∈ op.wires, w.index < scope.operands.length) :
    ∃ statements, ops.mapM scope.statement = .ok statements ∧
      statements.flatMap Statement.params = ops.flatMap Operation.params := by
  induction ops with
  | nil => exact ⟨[], rfl, rfl⟩
  | cons op rest ih =>
    rw [List.forall_mem_cons] at inside
    obtain ⟨st, stated, params⟩ := statement_isOk inside.1
    obtain ⟨others, more, others_params⟩ := ih inside.2
    refine ⟨st :: others, Steps.mapM_eq_ok.2 (.cons stated (Steps.mapM_eq_ok.1 more)), ?_⟩
    rw [List.flatMap_cons, List.flatMap_cons, params, others_params]

end Scope

namespace Program

variable {c : Circuit} {r : Analysis} {scope : Scope} {mode : Mode} {rotations : Bool}

/-- The lines can be written down, and these parameters stand in them. -/
def Prints (x : Except EmitError (List Line)) (params : List Param) : Prop :=
  ∃ lines, x = .ok lines ∧ lines.flatMap Line.params = params

/-- The preparation prints the parameters of the operations. -/
theorem preparation_prints {ops : List Operation}
    (inside : ∀ op ∈ ops, ∀ w ∈ op.wires, w.index < scope.operands.length) :
    Prints (preparation scope ops) (ops.flatMap Operation.params) := by
  obtain ⟨statements, stated, params⟩ := Scope.statements_isOk inside
  refine ⟨_, Steps.bind_eq_ok.2 ⟨statements, stated, rfl⟩, ?_⟩
  rw [← params]
  split <;> split <;> simp [Line.params, List.flatMap_map]

/-- The readouts of a group print no parameters, and each finds its kind. -/
theorem readouts_prints {kinds : List ReadoutKind} {group position next : Nat}
    {entries : List (WireId × BasisSchema)} (there : scope.kinds[group]? = some kinds)
    (enough : position + entries.length ≤ kinds.length)
    (inside : ∀ e ∈ entries, e.1.index < scope.operands.length) :
    Prints (readouts mode scope group position next entries) [] := by
  induction entries generalizing position next with
  | nil => exact ⟨[], rfl, rfl⟩
  | cons e rest ih =>
    rw [List.length_cons] at enough
    rw [List.forall_mem_cons] at inside
    have kind_there : position < kinds.length := by omega
    obtain ⟨lines, written, params⟩ : Prints
        (readouts mode scope group (position + 1) (next + 1) rest) [] :=
      ih (by omega) inside.2
    have kind : scope.kind group position e.1 = .ok kinds[position] := by
      rw [Scope.kind, there, Option.bind_some, List.getElem?_eq_getElem kind_there]
    obtain ⟨operand, found⟩ := Scope.operand_isOk inside.1
    rw [readouts, kind]
    refine ⟨_, Steps.bind_eq_ok.2 ⟨_, rfl, Steps.bind_eq_ok.2 ⟨operand, found,
      Steps.bind_eq_ok.2 ⟨lines, written, rfl⟩⟩⟩, ?_⟩
    rw [List.flatMap_cons, params]
    rfl

/-- The parameters of the diagonalizing operations of a group, if they are wanted. -/
def rotatedParams (rotations : Bool) (g : ExecutionGroup) : List Param :=
  if rotations then g.diagonalizing.flatMap Operation.params else []

/-- The wires of a group have operands. -/
structure Operable (scope : Scope) (g : ExecutionGroup) : Prop where
  readouts : ∀ e ∈ g.readouts, e.1.index < scope.operands.length
  diagonalizing : ∀ op ∈ g.diagonalizing, ∀ w ∈ op.wires, w.index < scope.operands.length

/-- The diagonalizing operations of a group are statements with their parameters, or are left out.
-/
theorem rotated_isOk {g : ExecutionGroup} (operable : Operable scope g) :
    ∃ statements, rotated rotations scope g = .ok statements ∧
      statements.flatMap Statement.params = rotatedParams rotations g := by
  cases rotations with
  | true => exact Scope.statements_isOk operable.diagonalizing
  | false => exact ⟨[], rfl, rfl⟩

/-- A block prints the parameters of the diagonalizing operations of its group. -/
theorem block_prints {g : ExecutionGroup} {kinds : List ReadoutKind} {index next : Nat}
    (there : scope.kinds[index]? = some kinds) (enough : kinds.length = g.readouts.length)
    (operable : Operable scope g) :
    Prints (block mode rotations scope index next g) (rotatedParams rotations g) := by
  obtain ⟨statements, stated, params⟩ := rotated_isOk operable
  obtain ⟨lines, written, no_params⟩ : Prints (readouts mode scope index 0 next g.readouts) [] :=
    readouts_prints there (by omega) operable.readouts
  refine ⟨_, Steps.bind_eq_ok.2 ⟨statements, stated, Steps.bind_eq_ok.2 ⟨lines, written, rfl⟩⟩, ?_⟩
  rw [← params, List.flatMap_append, no_params]
  simp [Line.params, List.flatMap_map]

/-- The blocks print the parameters of the diagonalizing operations of all groups. -/
theorem blocks_prints {groups : List ExecutionGroup} {index next : Nat}
    (fits : List.Forall₂ (fun g kinds => kinds.length = g.readouts.length) groups
      (scope.kinds.drop index))
    (operable : ∀ g ∈ groups, Operable scope g) :
    Prints (blocks mode rotations scope index next groups)
      (groups.flatMap (rotatedParams rotations)) := by
  induction groups generalizing index next with
  | nil => exact ⟨[], rfl, rfl⟩
  | cons g rest ih =>
    rw [List.forall_mem_cons] at operable
    obtain ⟨kinds, others, enough, fits, dropped⟩ := List.forall₂_cons_left_iff.1 fits
    obtain ⟨there, behind⟩ := Steps.of_drop_eq_cons dropped
    obtain ⟨lines, written, params⟩ : Prints (block mode rotations scope index next g) _ :=
      block_prints there enough operable.1
    obtain ⟨more, rest_written, rest_params⟩ : Prints
        (blocks mode rotations scope (index + 1) (next + g.readouts.length) rest) _ :=
      ih (behind ▸ fits) operable.2
    refine ⟨_, Steps.bind_eq_ok.2 ⟨lines, written,
      Steps.bind_eq_ok.2 ⟨more, rest_written, rfl⟩⟩, ?_⟩
    rw [List.cons_append, List.flatMap_cons, List.flatMap_append, params, rest_params,
      List.flatMap_cons]
    rfl

theorem header_params (scope : Scope) : (header scope).flatMap Line.params = [] := by
  rw [header]
  split <;> rfl

theorem declarations_params (mode : Mode) (scope : Scope) :
    (declarations mode scope).flatMap Line.params = [] := by
  simp only [declarations, List.flatMap_append, List.flatMap_map]
  split <;> split <;> split <;> simp [Line.params]

/-- The lines of a circuit under an analysis that suits it. -/
theorem lines_prints (wellFormed : c.WellFormed) (suits : r.Suits c) (groups : r.GroupsInside) :
    Prints (lines mode rotations c r)
      (c.operations.flatMap Operation.params ++ r.groups.flatMap (rotatedParams rotations)) := by
  obtain ⟨scope, suited⟩ := Scope.ofAnalysis_isOk_iff.2 suits
  have covers := Scope.covers_of_ofAnalysis suited
  have inside : ∀ op ∈ c.operations, ∀ w ∈ op.wires, w.index < scope.operands.length := by
    intro op hop w hw
    rw [covers.operands]
    exact (wellFormed.operations op hop).inside w hw
  have operable : ∀ g ∈ r.groups, Operable scope g := by
    refine fun g hg => ⟨fun e he => ?_, fun op hop w hw => ?_⟩
    · obtain ⟨t, type, -⟩ := suits.readouts g hg e.1 e.2 he
      rw [covers.operands, ← suits.numWires]
      exact Analysis.index_lt_of_wireType? type
    · rw [covers.operands, ← suits.numWires]
      exact groups g hg op hop w hw
  obtain ⟨prepared, done, params⟩ := preparation_prints inside
  obtain ⟨measured, done', params'⟩ : Prints (blocks mode rotations scope 0 0 r.groups) _ :=
    blocks_prints covers.kinds operable
  refine ⟨_, Steps.bind_eq_ok.2 ⟨scope, by rw [suited]; rfl, Steps.bind_eq_ok.2 ⟨prepared, done,
    Steps.bind_eq_ok.2 ⟨measured, done', rfl⟩⟩⟩, ?_⟩
  rw [List.flatMap_append, List.flatMap_append, List.flatMap_append, header_params,
    declarations_params, params, params']
  rfl

/-- The program of a circuit under an analysis prints a real number. -/
def PrintsReal (c : Circuit) (r : Analysis) (s : Settings) : Prop :=
  (∃ op ∈ c.operations, ∃ x, Param.real x ∈ op.params) ∨
    s.rotations = true ∧ ∃ g ∈ r.groups, ∃ op ∈ g.diagonalizing, ∃ x, Param.real x ∈ op.params

/-- A real is printed when an operation has one, or a diagonalizing operation that is not left out.
-/
theorem printsReal_iff {s : Settings} : PrintsReal c r s ↔ ∃ x, Param.real x ∈
    c.operations.flatMap Operation.params ++ r.groups.flatMap (rotatedParams s.rotations) := by
  simp only [PrintsReal, List.mem_append, List.mem_flatMap, rotatedParams, exists_or]
  refine or_congr ?_ ?_
  · exact ⟨fun ⟨op, hop, x, hx⟩ => ⟨x, op, hop, hx⟩, fun ⟨x, op, hop, hx⟩ => ⟨op, hop, x, hx⟩⟩
  · constructor
    · rintro ⟨wanted, g, hg, op, hop, x, hx⟩
      rw [wanted]
      exact ⟨x, g, hg, List.mem_flatMap.2 ⟨op, hop, hx⟩⟩
    · rintro ⟨x, g, hg, hx⟩
      split at hx
      case isTrue wanted =>
        obtain ⟨op, hop, hx⟩ := List.mem_flatMap.1 hx
        exact ⟨wanted, g, hg, op, hop, x, hx⟩
      case isFalse => cases hx

/-- Lines that can be written down are a program if they have a text. -/
theorem emit_eq {s : Settings} {written : List Line}
    (done : lines s.mode s.rotations c r = .ok written) :
    emit c r s = (Line.render? s written).elim (.error .precisionTooLarge) .ok := by
  rw [emit, done]
  cases rendered : Line.render? s written with
  | some text => exact Steps.bind_eq_ok.2 ⟨written, rfl, by rw [rendered]; rfl⟩
  | none =>
    simp only [bind, Except.bind, rendered]
    rfl

/-- An emitted text is the text of the lines of the program. -/
theorem emit_eq_ok {s : Settings} {text : String} (emitted : emit c r s = .ok text) :
    ∃ written, lines s.mode s.rotations c r = .ok written ∧
      Line.render? s written = some text := by
  obtain ⟨written, done, rendered⟩ := Steps.bind_eq_ok.1 emitted
  refine ⟨written, done, ?_⟩
  split at rendered
  case h_1 text' found =>
    cases rendered
    exact found
  case h_2 => cases rendered

/-- Emitting a circuit under an analysis that suits it fails only for too many decimal places. -/
theorem emit_of_suits {s : Settings} (wellFormed : c.WellFormed) (suits : r.Suits c)
    (groups : r.GroupsInside) :
    (∃ text, emit c r s = .ok text) ∧ ¬ (Real64.maxPlaces < s.precision.toNat ∧ PrintsReal c r s) ∨
      emit c r s = .error .precisionTooLarge ∧
        Real64.maxPlaces < s.precision.toNat ∧ PrintsReal c r s := by
  obtain ⟨written, done, params⟩ : Prints (lines s.mode s.rotations c r) _ :=
    lines_prints wellFormed suits groups
  have printable : (Line.render? s written).isSome ↔ _ := Line.isSome_render?_iff
  rw [params] at printable
  cases rendered : Line.render? s written with
  | some text =>
    have emitted : emit c r s = .ok text := by
      rw [emit_eq done, rendered]
      rfl
    refine .inl ⟨⟨text, emitted⟩, ?_⟩
    rintro ⟨tooLarge, printsReal⟩
    obtain ⟨x, hx⟩ := printsReal_iff.1 printsReal
    exact Nat.not_lt.2 (printable.1 (by rw [rendered]; rfl) x hx) tooLarge
  | none =>
    have emitted : emit c r s = .error .precisionTooLarge := by
      rw [emit_eq done, rendered]
      rfl
    have unprintable := mt printable.2 (by simp [rendered])
    simp only [not_forall, Nat.not_le] at unprintable
    obtain ⟨x, hx, tooLarge⟩ := unprintable
    exact .inr ⟨emitted, tooLarge, printsReal_iff.2 ⟨x, hx⟩⟩

/-- The analysis of a circuit suits it. -/
theorem emit_spec {s : Settings} (wellFormed : c.WellFormed) (describes : r.Describes c) :
    (∃ text, emit c r s = .ok text) ∧ ¬ (Real64.maxPlaces < s.precision.toNat ∧ PrintsReal c r s) ∨
      emit c r s = .error .precisionTooLarge ∧
        Real64.maxPlaces < s.precision.toNat ∧ PrintsReal c r s :=
  emit_of_suits wellFormed describes.suits describes.groupsInside

/-- A built circuit fails to have a program for two reasons: it has no analysis, or a real number of
its program has too many decimal places. No check on the analysis fails, and no wire is looked up in
vain. -/
theorem ofCircuit_outcome (built : c.Reachable) (s : Settings) :
    (∀ e, ofCircuit c s = .error (.analysis e) ↔ Analysis.ofCircuit c = .error e) ∧
    (∀ mismatch, ofCircuit c s ≠ .error (.invariant mismatch)) ∧
    (∀ w, ofCircuit c s ≠ .error (.noOperand w)) ∧
    (ofCircuit c s = .error .precisionTooLarge ↔
      ∃ r, Analysis.ofCircuit c = .ok r ∧ 65535 < s.precision.toNat ∧ PrintsReal c r s) ∧
    ∀ r, Analysis.ofCircuit c = .ok r → ¬ (65535 < s.precision.toNat ∧ PrintsReal c r s) →
      ∃ text, ofCircuit c s = .ok text := by
  rw [ofCircuit]
  cases analysed : Analysis.ofCircuit c with
  | error e => simp
  | ok r =>
    have describes := Analysis.describes_of_ofCircuit built.wellFormed analysed
    dsimp only
    obtain ⟨⟨text, emitted⟩, printable⟩ | ⟨emitted, tooLarge⟩ :=
      emit_spec (s := s) built.wellFormed describes
    · rw [emitted]
      refine ⟨fun _ => iff_of_false nofun nofun, nofun, nofun, iff_of_false nofun ?_,
        fun _ _ _ => ⟨text, rfl⟩⟩
      rintro ⟨_, ⟨⟩, tooLarge⟩
      exact printable tooLarge
    · rw [emitted]
      refine ⟨fun _ => iff_of_false nofun nofun, nofun, nofun,
        iff_of_true rfl ⟨r, rfl, tooLarge⟩, ?_⟩
      rintro _ ⟨⟩ printable
      exact absurd tooLarge printable

/-- The angle of the rotation before a homodyne readout is the one real number of this program, and
it is only printed with rotations. -/
theorem outcome_of_rotation_angle :
    let c := (Circuit.empty "c").afterCalls [.continuous "Fourier" [.index 3] [],
      .measure (.leaf ⟨"QuadX", [.index 3], []⟩)]
    ofCircuit c { precision := 65536 } = .error .precisionTooLarge ∧
      ∃ text, ofCircuit c { precision := 65536, rotations := false } = .ok text := by
  intro c
  obtain ⟨-, -, -, tooLarge, -⟩ := ofCircuit_outcome (c := c) ⟨_, _, rfl⟩ { precision := 65536 }
  obtain ⟨-, -, -, -, printable⟩ := ofCircuit_outcome (c := c) ⟨_, _, rfl⟩
    { precision := 65536, rotations := false }
  constructor
  · refine tooLarge.2 ⟨_, rfl, by decide, .inr ⟨rfl, _, List.mem_singleton_self _, _,
      List.mem_singleton_self _, .zero, List.mem_singleton_self _⟩⟩
  · refine printable _ rfl ?_
    rintro ⟨-, ⟨op, hop, x, hx⟩ | ⟨wanted, -⟩⟩
    · cases List.mem_singleton.1 hop
      cases hx
    · cases wanted

end Program

end Qumode

import Qumode.Proofs.Program.Layout
import Qumode.Proofs.Program.Outcome
import Qumode.Proofs.Program.Spelling

/-!
# Strict programs are erased permissive ones

A strict program says the same as the permissive program of the same circuit, without the keyword
for qumodes and without the statements that read them out. `Line.Erases` says what one line becomes:
the declaration of the qumodes declares qubits, the readout of a qumode calls a function, and every
other line stays. `Program.Erasure` says it of all lines, and that the functions that are called
have their stubs behind the registers. What there is to erase is settled by the layout of the two
programs (`Program.IsProgram`), and what a reader sees of it by their spelling.

Both programs come from one scope, and the mode is asked again at each register and at each readout.
That the answers fit together is `blocks_strict`, one run of the blocks as the image of the other.
-/

namespace Qumode

namespace Line

/-- Whether the line declares a register. -/
def isDeclaration : Line → Bool
  | declaration .. => true
  | _ => false

/-- Whether the line is about qumodes: it declares them or reads one out. -/
def isNative : Line → Bool
  | declaration _ _ register => decide (register = .qumodes)
  | readout _ _ o _ => decide (o.register = .qumodes)
  | _ => false

/-- The way the line reads a qumode out, if it does. -/
def qumodeKind? : Line → Option ReadoutKind
  | readout kind _ o _ => if o.register = .qumodes then some kind else none
  | _ => none

/-- What the lines of a permissive program become in a strict one. -/
inductive Erases : Line → Line → Prop where
  | declaration (count : Nat) :
      Erases (.declaration .continuous count .qumodes) (.declaration .discrete count .qumodes)
  | readout (kind : ReadoutKind) (i j : Nat) :
      Erases (.readout kind i ⟨.qumodes, j⟩ false) (.readout kind i ⟨.qumodes, j⟩ true)
  | same {line : Line} (other : line.isNative = false) : Erases line line

/-- Erasure as it shows in the texts: the keyword of the declaration, and the brackets of the call.
The spelling of a line does not depend on the mode. -/
def ErasesText (s : Settings) (line line' : Line) : Prop :=
  line' = line ∨
  (∃ n : Nat, line.Spelled s ("qumode[" ++ toString n ++ "] m;") ∧
    line'.Spelled s ("qubit[" ++ toString n ++ "] m;")) ∨
  ∃ (kind : ReadoutKind) (type keyword : String) (i j : Nat), kind.Spelled s keyword type ∧
    line.Spelled s (type ++ " c" ++ toString i ++ " = " ++ keyword ++ " m[" ++ toString j ++ "];") ∧
    line'.Spelled s (type ++ " c" ++ toString i ++ " = " ++ keyword ++ "(m[" ++ toString j ++ "]);")

/-- A line and what it becomes differ in the keyword or in the brackets, if they differ. -/
theorem Erases.text {line line' : Line} (h : line.Erases line') (s : Settings) :
    ErasesText s line line' := by
  cases h with
  | same other => exact .inl rfl
  | declaration count => exact .inr (.inl ⟨count, .qumodes count, .qumodesAsQubits count⟩)
  | readout kind i j =>
    have named : kind.Spelled s kind.keyword (kind.resultType s) :=
      ReadoutKind.spelled_iff.2 ⟨rfl, rfl⟩
    have statement := Spelled.readout named i (.qumode j)
    have call := Spelled.call named i (.qumode j)
    have after_blank (rest : String) : " m[" ++ rest = " " ++ ("m[" ++ rest) := by
      rw [← String.append_assoc]
      rfl
    have in_brackets (rest : String) : "(m[" ++ rest = "(" ++ ("m[" ++ rest) := by
      rw [← String.append_assoc]
      rfl
    have closed : "]" ++ ");" = "]);" := rfl
    refine .inr (.inr ⟨kind, kind.resultType s, kind.keyword, i, j, named, ?_, ?_⟩)
    · simpa [String.append_assoc, after_blank] using statement
    · simpa [String.append_assoc, in_brackets, closed] using call

/-- The line of a strict program in the place of a line of a permissive one. -/
def erased : Line → Line
  | declaration _ count .qumodes => declaration .discrete count .qumodes
  | readout kind i o _ => readout kind i o (kind.isCall .strict)
  | line => line

theorem Erases.params {line line' : Line} (h : line.Erases line') : line'.params = line.params := by
  cases h <;> rfl

end Line

namespace Program

variable {c : Circuit} {r : Analysis} {scope : Scope} {mode : Mode} {rotations : Bool}

/-- The lines of a strict program are those of a permissive one, erased. Behind the registers stand
stubs, one for each way in which a qumode is read out. -/
inductive Erasure : List Line → List Line → Prop where
  | intro {head registers tail before after : List Line} {stubs : List ReadoutKind}
      (declared : ∀ line ∈ registers, line.isDeclaration = true)
      (elsewhere : ∀ line ∈ head ++ tail, line.isDeclaration = false)
      (distinct : stubs.Nodup)
      (called : ∀ kind, kind ∈ stubs ↔
        kind ∈ (head ++ registers ++ tail).filterMap Line.qumodeKind?)
      (erased_before : List.Forall₂ Line.Erases (head ++ registers) before)
      (erased_after : List.Forall₂ Line.Erases tail after) :
      Erasure (head ++ registers ++ tail) (before ++ stubs.map .stub ++ after)

/-! ## The blocks -/

/-- The strict readouts are the permissive ones, erased. -/
theorem readouts_strict (group position next : Nat) (entries : List (WireId × BasisSchema)) :
    readouts .strict scope group position next entries =
      (readouts .permissive scope group position next entries).map (List.map Line.erased) := by
  induction entries generalizing position next with
  | nil => rfl
  | cons e rest ih =>
    unfold readouts
    rw [ih]
    cases scope.kind group position e.1 with
    | error e => rfl
    | ok kind =>
      cases scope.operand e.1 with
      | error e => rfl
      | ok o =>
        cases readouts .permissive scope group (position + 1) (next + 1) rest with
        | error e => rfl
        | ok lines => rfl

/-- A strict block is the permissive one, erased. -/
theorem block_strict (index next : Nat) (g : ExecutionGroup) :
    block .strict rotations scope index next g =
      (block .permissive rotations scope index next g).map (List.map Line.erased) := by
  have kept (statements : List Statement) :
      (statements.map Line.rotate).map Line.erased = statements.map Line.rotate := by
    rw [List.map_map]
    rfl
  unfold block
  rw [readouts_strict]
  cases rotated rotations scope g with
  | error e => rfl
  | ok statements =>
    cases readouts .permissive scope index 0 next g.readouts with
    | error e => rfl
    | ok read =>
      refine congrArg Except.ok ?_
      rw [List.map_append, List.map_cons, kept]
      rfl

/-- The blocks of a strict program are the erased blocks of the permissive one, and there are none
just when the permissive program has none, for the same reason. -/
theorem blocks_strict (index next : Nat) (groups : List ExecutionGroup) :
    blocks .strict rotations scope index next groups =
      (blocks .permissive rotations scope index next groups).map (List.map Line.erased) := by
  induction groups generalizing index next with
  | nil => rfl
  | cons g rest ih =>
    unfold blocks
    rw [block_strict, ih]
    cases block .permissive rotations scope index next g with
    | error e => rfl
    | ok lines =>
      cases blocks .permissive rotations scope (index + 1) (next + g.readouts.length) rest with
      | error e => rfl
      | ok more =>
        refine congrArg Except.ok ?_
        rw [List.map_append, List.map_cons]
        rfl

/-- The readout of a wire in a permissive program becomes a call if the wire is a qumode, and then
it is of a kind that only qumodes have. -/
theorem Reads.erases {e : WireId × BasisSchema} {line : Line} (h : Reads r .permissive e line) :
    line.Erases line.erased ∧ line.qumodeKind? = (r.kind? e).filter (· ≠ .measure) := by
  obtain @⟨kind, ⟨register, j⟩, i, read_as, read_from⟩ := h
  have native := Analysis.register_of_kind? read_as read_from
  rw [read_as]
  cases register with
  | qubits =>
    have measure : kind = .measure := by
      by_contra call
      cases native.2 call
    subst measure
    exact ⟨.same rfl, rfl⟩
  | qumodes =>
    have call : kind ≠ .measure := native.1 rfl
    have as_call : kind.isCall .strict = true := by simp [ReadoutKind.isCall, call]
    constructor
    · show Line.Erases _ (.readout kind i ⟨.qumodes, j⟩ (kind.isCall .strict))
      rw [as_call]
      exact .readout kind i j
    · simp [Line.qumodeKind?, Option.filter_some, call]

/-- The blocks of a permissive program, line by line: what each line becomes, and that the qumodes
are read out in the ways that have stubs. -/
theorem blocks_erase (resolves : scope.Resolves r) {measured : List Line}
    (written : blocks .permissive rotations scope 0 0 r.groups = .ok measured) :
    (∀ line ∈ measured, line.isDeclaration = false ∧ line.Erases line.erased) ∧
      ∀ kind, kind ∈ calledKinds .strict scope ↔ kind ∈ measured.filterMap Line.qumodeKind? := by
  obtain ⟨parts, rfl, are_blocks, -⟩ := blocks_layout resolves resolves.kinds written
  constructor
  · intro line mem
    obtain rfl | rfl | ⟨st, rfl⟩ | ⟨g, hg, e, he, reads⟩ :=
      IsBlock.mem_flatMap_cases are_blocks mem
    · exact ⟨rfl, .same rfl⟩
    · exact ⟨rfl, .same rfl⟩
    · exact ⟨rfl, .same rfl⟩
    · refine ⟨?_, reads.erases.1⟩
      cases reads
      rfl
  · intro kind
    rw [mem_calledKinds resolves, List.mem_filterMap]
    constructor
    · rintro ⟨-, call, g, hg, e, he, read_as⟩
      obtain ⟨part, listed, is_block⟩ := Steps.exists_left_of_mem are_blocks.flip hg
      obtain ⟨line, inside, reads⟩ := IsBlock.exists_reads is_block he
      refine ⟨line, List.mem_flatMap.2 ⟨part, listed, List.mem_cons_of_mem _ inside⟩, ?_⟩
      rw [reads.erases.2, read_as]
      simp [call]
    · rintro ⟨line, mem, read⟩
      obtain rfl | rfl | ⟨st, rfl⟩ | ⟨g, hg, e, he, reads⟩ :=
        IsBlock.mem_flatMap_cases are_blocks mem
      · cases read
      · cases read
      · cases read
      · rw [reads.erases.2, Option.filter_eq_some_iff] at read
        exact ⟨rfl, by simpa using read.2, g, hg, e, he, read.1⟩

/-! ## The whole program -/

/-- The declarations of the registers that are not empty. -/
def registers (mode : Mode) (scope : Scope) : List Line :=
  (if 0 < scope.numQubits then [.declaration .discrete scope.numQubits .qubits] else [])
    ++ (if 0 < scope.numQumodes then
          [.declaration (qumodeKeyword mode) scope.numQumodes .qumodes] else [])

theorem isDeclaration_of_registers : ∀ line ∈ registers mode scope, line.isDeclaration = true := by
  intro line mem
  rcases List.mem_append.1 mem with qubits | qumodes
  · split at qubits
    · cases List.mem_singleton.1 qubits
      rfl
    · cases qubits
  · split at qumodes
    · cases List.mem_singleton.1 qumodes
      rfl
    · cases qumodes

/-- The strict registers are the permissive ones, erased. -/
theorem registers_erase :
    List.Forall₂ Line.Erases (registers .permissive scope) (registers .strict scope) := by
  have qubits : List.Forall₂ Line.Erases
      (if 0 < scope.numQubits then [.declaration .discrete scope.numQubits .qubits] else [])
      (if 0 < scope.numQubits then [.declaration .discrete scope.numQubits .qubits] else []) := by
    split
    · exact .cons (.same rfl) .nil
    · exact .nil
  refine List.rel_append qubits ?_
  split
  · exact .cons (.declaration scope.numQumodes) .nil
  · exact .nil

/-- A line that neither declares a register nor reads a wire out stays. -/
def Plain (line : Line) : Prop := line.isDeclaration = false ∧ line.isNative = false

/-- Plain lines read no qumode. -/
theorem Plain.reads_nothing {lines : List Line} (plain : ∀ line ∈ lines, Plain line) :
    lines.filterMap Line.qumodeKind? = [] := by
  rw [List.filterMap_eq_nil_iff]
  intro line mem
  have native := (plain line mem).2
  cases line <;> simp_all [Line.isNative, Line.qumodeKind?]

theorem plain_of_header : ∀ line ∈ header scope, Plain line := by
  intro line mem
  obtain rfl | ⟨name, rfl⟩ | rfl := header_lines line mem
  all_goals exact ⟨rfl, rfl⟩

/-- A preparation holds plain lines alone, since it neither declares nor reads. -/
theorem plain_of_preparation {operations : List Operation} {prepared : List Line}
    (done : preparation scope operations = .ok prepared) : ∀ line ∈ prepared, Plain line := by
  intro line mem
  obtain rfl | rfl | ⟨register, rfl⟩ | ⟨statement, rfl⟩ := preparation_lines done line mem
  all_goals exact ⟨rfl, rfl⟩

/-- Plain lines are erased to themselves. -/
theorem Plain.erases {lines : List Line} (plain : ∀ line ∈ lines, Plain line) :
    List.Forall₂ Line.Erases lines lines :=
  List.forall₂_same.2 fun line mem => .same (plain line mem).2

/-- The blank line behind the declarations, if there are any. -/
def separator (scope : Scope) : List Line :=
  if 0 < scope.numQubits + scope.numQumodes then [.blank] else []

theorem plain_of_separator : ∀ line ∈ separator scope, Plain line := by
  intro line mem
  unfold separator at mem
  split at mem
  · cases List.mem_singleton.1 mem
    exact ⟨rfl, rfl⟩
  · cases mem

/-- The lines in their order: what stands before the stubs, the stubs, and what stands after them.
-/
theorem order_of_lines (prepared measured : List Line) :
    header scope ++ declarations mode scope ++ prepared ++ measured =
      (header scope ++ registers mode scope) ++ (calledKinds mode scope).map .stub
        ++ (separator scope ++ prepared ++ measured) := by
  unfold declarations registers separator
  simp only [List.append_assoc]

/-- No readout is a call in a permissive program. -/
theorem filter_isCall_permissive (kinds : List ReadoutKind) :
    kinds.filter (·.isCall .permissive) = [] := by
  rw [List.filter_eq_nil_iff]
  intro kind _ call
  cases call

/-- So a permissive program needs no stubs. -/
theorem calledKinds_permissive : calledKinds .permissive scope = [] := by
  unfold calledKinds
  rw [filter_isCall_permissive]
  rfl

/-- The lines that one scope is written as in the two modes. -/
theorem erasure_of_parts (resolves : scope.Resolves r) {prepared measured : List Line}
    (done : preparation scope c.operations = .ok prepared)
    (written : blocks .permissive rotations scope 0 0 r.groups = .ok measured) :
    Erasure (header scope ++ declarations .permissive scope ++ prepared ++ measured)
      (header scope ++ declarations .strict scope ++ prepared ++ measured.map Line.erased) := by
  obtain ⟨erase, called⟩ := blocks_erase resolves written
  have quiet : ∀ line ∈ separator scope ++ prepared, Plain line := by
    intro line mem
    rcases List.mem_append.1 mem with blank | inside
    · exact plain_of_separator line blank
    · exact plain_of_preparation done line inside
  have no_readout : (registers .permissive scope).filterMap Line.qumodeKind? = [] := by
    rw [List.filterMap_eq_nil_iff]
    intro line mem
    have declared := isDeclaration_of_registers line mem
    cases line <;> first | rfl | cases declared
  -- no stubs in the permissive mode, so its lines divide at the same places
  rw [order_of_lines, order_of_lines, calledKinds_permissive, List.map_nil, List.append_nil]
  refine .intro isDeclaration_of_registers ?_ (nodup_eraseDups _) ?_ ?_ ?_
  · intro line mem
    rcases List.mem_append.1 mem with early | late
    · exact (plain_of_header line early).1
    · rcases List.mem_append.1 late with inside | read
      · exact (quiet line inside).1
      · exact (erase line read).1
  · intro kind
    rw [List.filterMap_append, List.filterMap_append, Plain.reads_nothing plain_of_header,
      no_readout, List.filterMap_append, Plain.reads_nothing quiet]
    exact called kind
  · exact List.rel_append (Plain.erases plain_of_header) registers_erase
  · refine List.rel_append (Plain.erases quiet) ?_
    rw [List.forall₂_map_right_iff, List.forall₂_same]
    exact fun line mem => (erase line mem).2

/-- Lines are written in both modes or in neither, for the same reason, and those of the strict
program are the erased ones. -/
theorem lines_erasure (c : Circuit) (r : Analysis) (rotations : Bool) :
    (∃ e, lines .permissive rotations c r = .error e ∧ lines .strict rotations c r = .error e) ∨
      ∃ written erased, lines .permissive rotations c r = .ok written ∧
        lines .strict rotations c r = .ok erased ∧ Erasure written erased := by
  cases checked : Scope.ofAnalysis c r with
  | error mismatch =>
    refine .inl ⟨.invariant mismatch, ?_, ?_⟩
    all_goals
      unfold lines
      rw [checked]
      rfl
  | ok scope =>
    have accepted (mode : Mode) : lines mode rotations c r = preparation scope c.operations >>=
        fun prepared => blocks mode rotations scope 0 0 r.groups >>=
        fun measured => pure (header scope ++ declarations mode scope ++ prepared ++ measured) := by
      unfold lines
      rw [checked]
      rfl
    rw [accepted, accepted, blocks_strict]
    cases done : preparation scope c.operations with
    | error e => exact .inl ⟨e, rfl, rfl⟩
    | ok prepared =>
      cases written : blocks .permissive rotations scope 0 0 r.groups with
      | error e => exact .inl ⟨e, rfl, rfl⟩
      | ok measured =>
        have resolves := Scope.resolves_of_ofAnalysis checked
        exact .inr ⟨_, _, rfl, rfl, erasure_of_parts resolves done written⟩

/-! ## The text -/

/-- Lines that erase others print the same parameters. -/
theorem params_of_erases {written erased : List Line}
    (h : List.Forall₂ Line.Erases written erased) :
    erased.flatMap Line.params = written.flatMap Line.params := by
  induction h with
  | nil => rfl
  | cons first _ ih => rw [List.flatMap_cons, List.flatMap_cons, first.params, ih]

/-- A program and its erasure print the same parameters, so both can be written or neither can. -/
theorem Erasure.params {written erased : List Line} (h : Erasure written erased) :
    erased.flatMap Line.params = written.flatMap Line.params := by
  obtain @⟨head, registers, tail, before, after, stubs, -, -, -, -, erased_before, erased_after⟩ :=
    h
  have no_params : (stubs.map Line.stub).flatMap Line.params = [] := by
    simp [List.flatMap_map, Line.params]
  rw [List.flatMap_append, List.flatMap_append, params_of_erases erased_before, no_params,
    params_of_erases erased_after, List.append_nil, ← List.flatMap_append]

/-- Erased lines have a text just when the lines have one. -/
theorem Erasure.isSome_render?_iff {written erased : List Line} (h : Erasure written erased)
    (s : Settings) :
    (Line.render? s erased).isSome ↔ (Line.render? s written).isSome := by
  rw [Line.isSome_render?_iff, Line.isSome_render?_iff, h.params]

/-- The text of lines does not depend on the mode. -/
theorem render?_mode (s : Settings) (mode : Mode) (lines : List Line) :
    Line.render? { s with mode } lines = Line.render? s lines := rfl

/-- The settings in the two modes either give the same error or a program each. -/
theorem emit_modes (c : Circuit) (r : Analysis) (s : Settings) :
    (∃ e, emit c r { s with mode := .permissive } = .error e ∧
      emit c r { s with mode := .strict } = .error e) ∨
    ∃ text text' written erased,
      emit c r { s with mode := .permissive } = .ok text ∧
      emit c r { s with mode := .strict } = .ok text' ∧
      lines .permissive s.rotations c r = .ok written ∧ Line.render? s written = some text ∧
      lines .strict s.rotations c r = .ok erased ∧ Line.render? s erased = some text' ∧
      Erasure written erased := by
  obtain ⟨e, fails, fails'⟩ | ⟨written, erased, done, done', erasure⟩ :=
    lines_erasure c r s.rotations
  · left
    refine ⟨e, ?_, ?_⟩
    · unfold emit
      rw [fails]
      rfl
    · unfold emit
      rw [fails']
      rfl
  · have permissive := emit_eq (s := { s with mode := .permissive }) done
    have strict := emit_eq (s := { s with mode := .strict }) done'
    rw [render?_mode] at permissive strict
    have both := erasure.isSome_render?_iff s
    cases text : Line.render? s written with
    | none =>
      have text' : Line.render? s erased = none := by
        rw [text] at both
        simpa using both
      rw [text] at permissive
      rw [text'] at strict
      exact .inl ⟨.precisionTooLarge, permissive, strict⟩
    | some t =>
      rw [text] at both permissive
      obtain ⟨t', text'⟩ := Option.isSome_iff_exists.1 (both.2 rfl)
      rw [text'] at strict
      exact .inr ⟨t, t', written, erased, permissive, strict, done, text, done', text', erasure⟩

/-- Under any analysis a circuit has a strict program just when it has a permissive one, and fails
in both modes with the same error. Each is the whole program of its mode. The lines of the strict
program are those of the permissive one, erased, with the stubs of the called functions behind the
registers. -/
theorem emit_strict_erases_permissive (c : Circuit) (r : Analysis) (s : Settings) :
    (∀ e, emit c r { s with mode := .permissive } = .error e ↔
      emit c r { s with mode := .strict } = .error e) ∧
    (∀ text, emit c r { s with mode := .permissive } = .ok text →
      ∃ text' written erased, emit c r { s with mode := .strict } = .ok text' ∧
        lines .permissive s.rotations c r = .ok written ∧ Written s written text ∧
        lines .strict s.rotations c r = .ok erased ∧ Written s erased text' ∧
        IsProgram c r .permissive s.rotations written ∧ IsProgram c r .strict s.rotations erased ∧
        Erasure written erased) ∧
    ∀ line line', line.Erases line' → Line.ErasesText s line line' := by
  refine ⟨?_, ?_, fun line line' h => h.text s⟩
  · intro e
    obtain ⟨e', fails, fails'⟩ | ⟨text, text', -, -, emitted, emitted', -⟩ := emit_modes c r s
    · rw [fails, fails']
    · rw [emitted, emitted']
      exact iff_of_false nofun nofun
  · intro text emitted
    obtain ⟨e, fails, -⟩ | ⟨_, text', written, erased, emitted', strict, done, rendered, done',
      rendered', erasure⟩ := emit_modes c r s
    · cases emitted.symm.trans fails
    · cases emitted.symm.trans emitted'
      exact ⟨text', written, erased, strict, done, written_iff.2 rendered, done',
        written_iff.2 rendered', isProgram_of_lines done, isProgram_of_lines done', erasure⟩

/-- The position of a qumode and the parity of a qubit: one of the readouts is called, and its stub
is declared. -/
theorem emit_strict_of_position_and_parity :
    let c := (Circuit.empty "c").afterCalls [
      .hybrid "ConditionalDisplacement" [.index 0, .index 1] 1 [],
      .measure (.leaf ⟨"QuadX", [.index 0], []⟩), .measure (.leaf ⟨"PauliZ", [.index 1], []⟩)]
    ∃ r text text' written erased, Analysis.ofCircuit c = .ok r ∧
      emit c r { mode := .permissive } = .ok text ∧ emit c r { mode := .strict } = .ok text' ∧
      lines .permissive true c r = .ok written ∧ lines .strict true c r = .ok erased ∧
      IsProgram c r .permissive true written ∧ IsProgram c r .strict true erased ∧
      Erasure written erased ∧ Written {} written text ∧ Written {} erased text' ∧
      text = "OPENQASM 3.0;\ninclude \"stdgates.inc\";\ninclude \"cvstdgates.inc\";\n\n"
        ++ "qubit[1] q;\nqumode[1] m;\n\n"
        ++ "def state_prep() \x7b\n    reset q;\n    reset m;\n    cv_cd m[0], q[0];\n\x7d\n\n"
        ++ "state_prep();\ncv_r(0.000000) m[0];\n"
        ++ "float[32] c0 = homodyne m[0];\nbit c1 = measure q[0];\n" ∧
      text' = "OPENQASM 3.0;\ninclude \"stdgates.inc\";\ninclude \"cvstdgates.inc\";\n\n"
        ++ "qubit[1] q;\nqubit[1] m;\ndef homodyne(qubit r) -> float[32] \x7b\x7d\n\n"
        ++ "def state_prep() \x7b\n    reset q;\n    reset m;\n    cv_cd m[0], q[0];\n\x7d\n\n"
        ++ "state_prep();\ncv_r(0.000000) m[0];\n"
        ++ "float[32] c0 = homodyne(m[0]);\nbit c1 = measure q[0];\n" := by
  intro c
  obtain ⟨r, analysed⟩ : ∃ r, Analysis.ofCircuit c = .ok r := ⟨_, rfl⟩
  obtain ⟨text, emitted⟩ : ∃ text, emit c r { mode := .permissive } = .ok text := by
    cases analysed
    exact ⟨_, rfl⟩
  obtain ⟨-, accepted, -⟩ := emit_strict_erases_permissive c r {}
  obtain ⟨text', written, erased, emitted', done, spelled, done', spelled', whole, whole',
    erasure⟩ := accepted text emitted
  refine ⟨r, text, text', written, erased, analysed, emitted, emitted', done, done', whole, whole',
    erasure, spelled, spelled', ?_⟩
  cases analysed
  constructor
  · refine Except.ok.inj (emitted.symm.trans ?_)
    decide +kernel
  · refine Except.ok.inj (emitted'.symm.trans ?_)
    decide +kernel

end Program

end Qumode

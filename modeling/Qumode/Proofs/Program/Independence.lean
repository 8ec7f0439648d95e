import Qumode.Proofs.Program.Layout
import Qumode.Proofs.Program.Outcome
import Qumode.Proofs.Program.Spelling

/-!
# Settings act apart from each other

The lines of a program depend on the mode and on whether rotations are wanted; widths, decimal
places and indentation settle only the texts of the lines. So a change of one of these is seen line
by line: `Line.WidthOnly`, `Line.PlacesOnly` and `Line.IndentOnly` say what of a line it reaches,
and every other line keeps its text. Without rotations the program has the same lines in the same
order, less the diagonalizing statements; in particular the result variables keep their numbers,
because only readouts are numbered.
-/

namespace Qumode

/-- A parameter as it is written with `k` and with `k'` decimal places. Only reals differ. -/
inductive Param.Reprints (k k' : Nat) : Param → String × String → Prop where
  | int (value : Int64) :
      Reprints k k' (.int value) (toString value.toInt, toString value.toInt)
  | real {x : Real64} {t t' : String} (first : x.toFixed? k = some t)
      (second : x.toFixed? k' = some t') : Reprints k k' (.real x) (t, t')

/-- Parameters are written one by one, with any numbers of decimal places that can be written. -/
theorem Param.exists_reprints {k k' : Nat} (writable : k ≤ Real64.maxPlaces)
    (writable' : k' ≤ Real64.maxPlaces) (params : List Param) :
    ∃ printed, List.Forall₂ (Reprints k k') params printed ∧
      params.mapM (text? k) = some (printed.map (·.1)) ∧
      params.mapM (text? k') = some (printed.map (·.2)) := by
  induction params with
  | nil => exact ⟨[], .nil, rfl, rfl⟩
  | cons p rest ih =>
    obtain ⟨printed, reprints, first, second⟩ := ih
    obtain ⟨t, t', reprint, old, new⟩ : ∃ t t', Reprints k k' p (t, t') ∧ p.text? k = some t ∧
        p.text? k' = some t' := by
      cases p with
      | int value => exact ⟨_, _, .int value, rfl, rfl⟩
      | real x =>
        obtain ⟨t, old⟩ := Option.isSome_iff_exists.1 (Real64.toFixed?_isSome.2 writable)
        obtain ⟨t', new⟩ := Option.isSome_iff_exists.1 (Real64.toFixed?_isSome.2 writable')
        exact ⟨t, t', .real old new, old, new⟩
    refine ⟨(t, t') :: printed, .cons reprint reprints, ?_, ?_⟩
    · rw [List.mapM_cons, old, first]
      rfl
    · rw [List.mapM_cons, new, second]
      rfl

/-- A statement says the same before and after its parameters, whatever the decimal places. -/
theorem Statement.exists_reprints {k k' : Nat} (writable : k ≤ Real64.maxPlaces)
    (writable' : k' ≤ Real64.maxPlaces) {st : Statement} (given : st.params ≠ []) :
    ∃ before after printed, List.Forall₂ (Param.Reprints k k') st.params printed ∧
      st.text? k = some (before ++ ", ".intercalate (printed.map (·.1)) ++ after) ∧
      st.text? k' = some (before ++ ", ".intercalate (printed.map (·.2)) ++ after) := by
  obtain ⟨printed, reprints, first, second⟩ := Param.exists_reprints writable writable' st.params
  have not_empty : st.params.isEmpty = false := by simpa using given
  refine ⟨Gate.written st.name ++ "(",
    ") " ++ ", ".intercalate (st.operands.map Operand.text) ++ ";", printed, reprints, ?_, ?_⟩
  · simp [text?, not_empty, first, String.append_assoc]
  · simp [text?, not_empty, second, String.append_assoc]

namespace Line

variable {s s' : Settings} {line : Line}

/-- The way to read out whose result type stands in the line. -/
def resultKind? : Line → Option ReadoutKind
  | stub kind | readout kind .. => some kind
  | _ => none

/-! ## What of a line a setting reaches -/

/-- The texts of a line differ in the width `m` or `n` behind a word, if the line names the result
type of one of these kinds, and otherwise they do not differ. -/
inductive WidthOnly (kinds : List ReadoutKind) (word : String) (m n : Nat) (s s' : Settings) :
    Line → Prop where
  | width {line : Line} {kind : ReadoutKind} (before after : String)
      (names : line.resultKind? = some kind) (mem : kind ∈ kinds)
      (old : line.text? s = some (before ++ word ++ "[" ++ toString m ++ "]" ++ after))
      (new : line.text? s' = some (before ++ word ++ "[" ++ toString n ++ "]" ++ after)) :
      WidthOnly kinds word m n s s' line
  | same {line : Line} (other : ∀ kind ∈ kinds, line.resultKind? ≠ some kind)
      (same : line.text? s' = line.text? s) : WidthOnly kinds word m n s s' line

/-- The texts of a line differ in the decimal places of its real parameters. -/
inductive PlacesOnly (s s' : Settings) : Line → Prop where
  | params {line : Line} (before after : String) {printed : List (String × String)}
      (given : line.params ≠ [])
      (reprints : List.Forall₂ (Param.Reprints s.precision.toNat s'.precision.toNat) line.params
        printed)
      (old : line.text? s = some (before ++ ", ".intercalate (printed.map (·.1)) ++ after))
      (new : line.text? s' = some (before ++ ", ".intercalate (printed.map (·.2)) ++ after)) :
      PlacesOnly s s' line
  | same {line : Line} (none_given : line.params = []) (same : line.text? s' = line.text? s) :
      PlacesOnly s s' line

/-- The texts of a line differ in the blanks in front, if the line stands inside the preparation
routine, and otherwise they do not differ. -/
inductive IndentOnly (s s' : Settings) : Line → Prop where
  | inner {line : Line} (content : String) (inside : line.isInner = true)
      (old : line.text? s = some ("".pushn ' ' s.indent.toNat ++ content))
      (new : line.text? s' = some ("".pushn ' ' s'.indent.toNat ++ content)) : IndentOnly s s' line
  | same {line : Line} (outside : line.isInner = false) (same : line.text? s' = line.text? s) :
      IndentOnly s s' line

/-- A line that names a result type says the same before and after it, whatever the settings. -/
theorem text?_of_resultKind? {kind : ReadoutKind} (names : line.resultKind? = some kind) :
    ∃ before after, ∀ s, line.text? s = some (before ++ kind.resultType s ++ after) := by
  cases line with
  | stub kind' =>
    cases names
    exact ⟨"def " ++ kind.keyword ++ "(" ++ WireType.discrete.text ++ " r) -> ", " \x7b\x7d",
      fun s => rfl⟩
  | readout kind' i o asCall =>
    cases names
    refine ⟨"", " c" ++ toString i ++ " = " ++ kind.keyword
      ++ (if asCall then "(" ++ o.text ++ ")" else " " ++ o.text) ++ ";", fun s => ?_⟩
    simp [text?, content?, isInner, String.append_assoc]
  | _ => cases names

/-- A line whose text depends on a width only through its result type has only the width changed. -/
theorem widthOnly_of_resultType {kinds : List ReadoutKind} {word : String} {m n : Nat}
    (unnamed : line.resultKind? = none → line.text? s' = line.text? s)
    (other : ∀ kind, kind ∉ kinds → kind.resultType s' = kind.resultType s)
    (wide : ∀ kind ∈ kinds, ∃ before after,
      kind.resultType s = before ++ word ++ "[" ++ toString m ++ "]" ++ after ∧
      kind.resultType s' = before ++ word ++ "[" ++ toString n ++ "]" ++ after) :
    line.WidthOnly kinds word m n s s' := by
  cases names : line.resultKind? with
  | none => exact .same (by simp [names]) (unnamed names)
  | some kind =>
    obtain ⟨head, tail, written⟩ := text?_of_resultKind? names
    by_cases mem : kind ∈ kinds
    · obtain ⟨before, after, old, new⟩ := wide kind mem
      refine .width (head ++ before) (after ++ tail) names mem ?_ ?_
      · rw [written, old]
        simp only [String.append_assoc]
      · rw [written, new]
        simp only [String.append_assoc]
    · refine .same ?_ ?_
      · rintro _ mem' same
        cases names.symm.trans same
        exact mem mem'
      · rw [written, written, other kind mem]

/-- The width of integers stands only in the result types of counts. -/
theorem widthOnly_intBits (s : Settings) (n : UInt32) (line : Line) :
    line.WidthOnly [.fockNumber] "uint" s.intBits.toNat n.toNat s { s with intBits := n } := by
  refine widthOnly_of_resultType ?_ ?_ ?_
  · intro unnamed
    cases line with
    | stub kind | readout kind i o asCall => cases unnamed
    | _ => rfl
  · intro kind other
    cases kind with
    | fockNumber => exact absurd List.mem_cons_self other
    | _ => rfl
  · intro kind mem
    cases List.mem_singleton.1 mem
    exact ⟨"", "", by simp [ReadoutKind.resultType], by simp [ReadoutKind.resultType]⟩

/-- The width of reals stands only in the result types of quadratures. -/
theorem widthOnly_floatBits (s : Settings) (n : UInt32) (line : Line) :
    line.WidthOnly [.homodyne, .heterodyne] "float" s.floatBits.toNat n.toNat s
      { s with floatBits := n } := by
  refine widthOnly_of_resultType ?_ ?_ ?_
  · intro unnamed
    cases line with
    | stub kind | readout kind i o asCall => cases unnamed
    | _ => rfl
  · intro kind other
    cases kind with
    | homodyne | heterodyne => simp at other
    | _ => rfl
  · intro kind mem
    rw [List.mem_pair] at mem
    obtain rfl | rfl := mem
    · exact ⟨"", "", by simp [ReadoutKind.resultType], by simp [ReadoutKind.resultType]⟩
    · have opened : "complex[float[" = "complex[" ++ "float" ++ "[" := rfl
      have closed : "]]" = "]" ++ "]" := rfl
      refine ⟨"complex[", "]", ?_, ?_⟩
      all_goals
        rw [ReadoutKind.resultType, opened, closed]
        simp only [String.append_assoc]

/-- The number of places changes only the reals of a line, if they can be written. -/
theorem placesOnly_precision {n : UInt64} (writable : s.precision.toNat ≤ Real64.maxPlaces)
    (writable' : n.toNat ≤ Real64.maxPlaces) (line : Line) :
    line.PlacesOnly s { s with precision := n } := by
  by_cases given : line.params = []
  · refine .same given ?_
    cases line with
    | prepare st | rotate st =>
      have none_given : st.params = [] := given
      simp [text?, content?, Statement.text?, none_given]
    | _ => rfl
  · cases line with
    | prepare st =>
      obtain ⟨before, after, printed, reprints, old, new⟩ :=
        Statement.exists_reprints writable writable' given
      refine .params ("".pushn ' ' s.indent.toNat ++ before) after given reprints ?_ ?_
      · simp only [text?, content?, old, Option.map_some, isInner, if_true, String.append_assoc]
      · simp only [text?, content?, new, Option.map_some, isInner, if_true, String.append_assoc]
    | rotate st =>
      obtain ⟨before, after, printed, reprints, old, new⟩ :=
        Statement.exists_reprints writable writable' given
      refine .params before after given reprints ?_ ?_
      · simp only [text?, content?, old, Option.map_some, isInner]
        rfl
      · simp only [text?, content?, new, Option.map_some, isInner]
        rfl
    | _ => exact absurd rfl given

/-- The indentation changes only the blanks in front of a line. -/
theorem indentOnly_indent (n : UInt64) (written : (line.text? s).isSome) :
    line.IndentOnly s { s with indent := n } := by
  cases inside : line.isInner with
  | true =>
    rw [text?, Option.isSome_map] at written
    obtain ⟨content, stated⟩ := Option.isSome_iff_exists.1 written
    have stated' : line.content? { s with indent := n } = some content := by
      rw [← stated]
      cases line <;> rfl
    refine .inner content inside ?_ ?_
    · rw [text?, stated, Option.map_some, if_pos inside]
    · rw [text?, stated', Option.map_some, if_pos inside]
  | false =>
    refine .same inside ?_
    cases line with
    | reset register | prepare st => cases inside
    | _ => rfl

end Line

namespace Program

variable {c d : Circuit} {r : Analysis} {scope : Scope} {mode : Mode} {s : Settings}

/-! ## Programs without rotations -/

/-- The lines without the diagonalizing statements. -/
def unrotated (lines : List Line) : List Line := lines.filter fun line => !line.isRotation

/-- Lines that do not rotate are all left. -/
theorem unrotated_eq_self {lines : List Line} (plain : ∀ line ∈ lines, line.isRotation = false) :
    unrotated lines = lines := by
  refine List.filter_eq_self.2 fun line mem => ?_
  rw [plain line mem]
  rfl

theorem unrotated_append (lines more : List Line) :
    unrotated (lines ++ more) = unrotated lines ++ unrotated more := by
  simp only [unrotated, List.filter_append]

/-- Readouts are no rotations. -/
theorem readouts_unrotated {group position next : Nat} {entries : List (WireId × BasisSchema)}
    {read : List Line} (written : readouts mode scope group position next entries = .ok read) :
    ∀ line ∈ read, line.isRotation = false := by
  induction entries generalizing position next read with
  | nil =>
    cases written
    intro line mem
    cases mem
  | cons e rest ih =>
    obtain ⟨kind, -, written⟩ := Steps.bind_eq_ok.1 written
    obtain ⟨o, -, written⟩ := Steps.bind_eq_ok.1 written
    obtain ⟨others, more, done⟩ := Steps.bind_eq_ok.1 written
    cases done
    rw [List.forall_mem_cons]
    exact ⟨rfl, ih more⟩

/-- A block without rotations is the block with them, its rotations left out. -/
theorem block_unrotated {index next : Nat} {g : ExecutionGroup} {lines : List Line}
    (written : block mode true scope index next g = .ok lines) :
    block mode false scope index next g = .ok (unrotated lines) := by
  obtain ⟨statements, -, written⟩ := Steps.bind_eq_ok.1 written
  obtain ⟨read, found, done⟩ := Steps.bind_eq_ok.1 written
  cases done
  have none_left : unrotated (statements.map .rotate) = [] := by
    simp [unrotated, Line.isRotation]
  have kept : unrotated read = read := unrotated_eq_self (readouts_unrotated found)
  have first : unrotated (.callPreparation :: statements.map .rotate)
      = .callPreparation :: unrotated (statements.map .rotate) := rfl
  rw [unrotated_append, first, none_left, kept]
  exact Steps.bind_eq_ok.2 ⟨[], rfl, Steps.bind_eq_ok.2 ⟨read, found, rfl⟩⟩

/-- So are the blocks, one for each group. -/
theorem blocks_unrotated {index next : Nat} {groups : List ExecutionGroup} {lines : List Line}
    (written : blocks mode true scope index next groups = .ok lines) :
    blocks mode false scope index next groups = .ok (unrotated lines) := by
  induction groups generalizing index next lines with
  | nil =>
    cases written
    rfl
  | cons g rest ih =>
    obtain ⟨part, first, written⟩ := Steps.bind_eq_ok.1 written
    obtain ⟨more, others, done⟩ := Steps.bind_eq_ok.1 written
    cases done
    refine Steps.bind_eq_ok.2 ⟨_, block_unrotated first, Steps.bind_eq_ok.2 ⟨_, ih others, ?_⟩⟩
    have separated : unrotated (.blank :: part) = .blank :: unrotated part := rfl
    rw [unrotated_append, separated]
    rfl

/-- A program without rotations is the program with them, the rotations of its blocks left out. -/
theorem lines_unrotated {on : List Line} (done : lines mode true c r = .ok on) :
    lines mode false c r = .ok (unrotated on) ∧
      ∃ preamble parts, on = preamble ++ parts.flatMap (.blank :: ·) ∧
        (∀ line ∈ preamble, line.isRotation = false) ∧
        List.Forall₂ (IsBlock r mode true) r.groups parts := by
  obtain ⟨scope, checked, prepared, prepares, measured, measures, rfl⟩ := lines_eq_ok.1 done
  have plain : ∀ line ∈ header scope ++ declarations mode scope ++ prepared,
      line.isRotation = false :=
    fun line mem => (before_blocks prepares line mem).2
  constructor
  · refine lines_eq_ok.2 ⟨scope, checked, prepared, prepares, _, blocks_unrotated measures, ?_⟩
    rw [unrotated_append, unrotated_eq_self plain]
  · have resolves := Scope.resolves_of_ofAnalysis checked
    obtain ⟨parts, rfl, are_blocks, -⟩ := blocks_layout resolves resolves.kinds measures
    exact ⟨_, parts, rfl, plain, are_blocks⟩

/-- Nothing is declared in a rotation. -/
theorem declared_unrotated (lines : List Line) :
    (unrotated lines).filterMap Line.declared? = lines.filterMap Line.declared? := by
  rw [unrotated, List.filterMap_filter]
  refine List.filterMap_congr fun line _ => ?_
  cases line <;> rfl

/-! ## The preparation routine -/

/-- The lines inside the preparation routine are those between its first line and its last. -/
theorem lines_enclosed {rotations : Bool} {written : List Line}
    (done : lines mode rotations c r = .ok written) :
    ∃ before inner after,
      written = before ++ .openPreparation :: inner ++ .closePreparation :: after ∧
      (∀ line ∈ inner, line.isInner = true) ∧ ∀ line ∈ before ++ after, line.isInner = false := by
  obtain ⟨scope, checked, prepared, prepares, measured, measures, rfl⟩ := lines_eq_ok.1 done
  obtain ⟨statements, -, same⟩ := Steps.bind_eq_ok.1 prepares
  cases same
  have resolves := Scope.resolves_of_ofAnalysis checked
  obtain ⟨parts, rfl, are_blocks, -⟩ := blocks_layout resolves resolves.kinds measures
  refine ⟨header scope ++ declarations mode scope,
    (if 0 < scope.numQubits then [.reset .qubits] else [])
      ++ (if 0 < scope.numQumodes then [.reset .qumodes] else []) ++ statements.map .prepare,
    parts.flatMap (.blank :: ·), ?_, ?_, ?_⟩
  · simp only [List.append_assoc, List.cons_append, List.nil_append]
  · intro line mem
    simp only [List.mem_append, List.mem_map] at mem
    rcases mem with (reset | reset) | ⟨statement, -, rfl⟩
    · split at reset
      · cases List.mem_singleton.1 reset
        rfl
      · cases reset
    · split at reset
      · cases List.mem_singleton.1 reset
        rfl
      · cases reset
    · rfl
  · intro line mem
    rw [List.mem_append, List.mem_append] at mem
    rcases mem with (early | declared) | inside
    · obtain rfl | ⟨name, rfl⟩ | rfl := header_lines line early
      all_goals rfl
    · obtain ⟨keyword, count, register, rfl⟩ | ⟨kind, rfl⟩ | rfl := declarations_lines line declared
      all_goals rfl
    · obtain rfl | rfl | ⟨st, rfl⟩ | ⟨g, -, e, -, ⟨i, -, -⟩⟩ :=
        IsBlock.mem_flatMap_cases are_blocks inside
      all_goals rfl

/-! ## Every setting for itself -/

/-- The settings give the program with these lines and this text. -/
structure Writes (c : Circuit) (r : Analysis) (s : Settings) (written : List Line)
    (text : String) : Prop where
  emitted : emit c r s = .ok text
  lines : lines s.mode s.rotations c r = .ok written
  rendered : Line.render? s written = some text
  spelled : Written s written text

/-- A program is written with any number of places that there can be. -/
theorem exists_writes {written : List Line} (writable : s.precision.toNat ≤ Real64.maxPlaces)
    (done : lines s.mode s.rotations c r = .ok written) : ∃ text, Writes c r s written text := by
  obtain ⟨text, rendered⟩ : ∃ text, Line.render? s written = some text :=
    Option.isSome_iff_exists.1 (Line.isSome_render?_iff.2 fun _ _ => writable)
  refine ⟨text, ?_, done, rendered, written_iff.2 rendered⟩
  rw [emit_eq done, rendered]
  rfl

/-- Every line of a program that is written has a text. -/
theorem Writes.isSome_text? {written : List Line} {text : String} (h : Writes c r s written text)
    {line : Line} (mem : line ∈ written) : (line.text? s).isSome := by
  have rendered := h.rendered
  rw [Line.render?] at rendered
  obtain ⟨texts, found, -⟩ := Option.map_eq_some_iff.1 rendered
  exact Steps.isSome_mapM_iff.1 (Option.isSome_of_eq_some found) line mem

/-- Settings with the same lines have a program if one of them has, as long as the decimal places
can be written. -/
theorem Writes.under {s' : Settings} {written : List Line} {text : String}
    (h : Writes c r s written text) (mode : s'.mode = s.mode)
    (rotations : s'.rotations = s.rotations) (writable : s'.precision.toNat ≤ Real64.maxPlaces) :
    ∃ text', Writes c r s' written text' := by
  refine exists_writes writable ?_
  rw [mode, rotations]
  exact h.lines

/-- Take the program of a circuit under an analysis, and change one setting. Another width stands in
the stubs and readouts of its kinds and nowhere else; other decimal places change the texts of real
parameters; another indentation changes the blanks before the lines between the first line of the
preparation routine and its last; and without rotations the program has the same lines less the
diagonalizing statements of the groups. -/
theorem settings_act_apart {text : String} (built : c.Reachable) (built' : d.Reachable)
    (analysed : Analysis.ofCircuit d = .ok r) (writable : s.precision.toNat ≤ 65535)
    (accepted : emit c r s = .ok text) :
    ∃ written, Writes c r s written text ∧
      (∀ n : UInt32, ∃ text', Writes c r { s with intBits := n } written text' ∧
        ∀ line ∈ written, line.WidthOnly [.fockNumber] "uint" s.intBits.toNat n.toNat s
          { s with intBits := n }) ∧
      (∀ n : UInt32, ∃ text', Writes c r { s with floatBits := n } written text' ∧
        ∀ line ∈ written, line.WidthOnly [.homodyne, .heterodyne] "float" s.floatBits.toNat n.toNat
          s { s with floatBits := n }) ∧
      (∀ n : UInt64, n.toNat ≤ 65535 →
        ∃ text', Writes c r { s with precision := n } written text' ∧
          ∀ line ∈ written, line.PlacesOnly s { s with precision := n }) ∧
      (∀ n : UInt64, ∃ text', Writes c r { s with indent := n } written text' ∧
        (∀ line ∈ written, line.IndentOnly s { s with indent := n }) ∧
        ∃ before inner after,
          written = before ++ .openPreparation :: inner ++ .closePreparation :: after ∧
          (∀ line ∈ inner, line.isInner = true) ∧
          ∀ line ∈ before ++ after, line.isInner = false) ∧
      ∃ on textOn textOff, Writes c r { s with rotations := true } on textOn ∧
        Writes c r { s with rotations := false } (unrotated on) textOff ∧
        (∀ line : Line, line.text? { s with rotations := false }
          = line.text? { s with rotations := true }) ∧
        (unrotated on).filterMap Line.declared? = on.filterMap Line.declared? ∧
        ∃ preamble parts, on = preamble ++ parts.flatMap (.blank :: ·) ∧
          (∀ line ∈ preamble, line.isRotation = false) ∧
          List.Forall₂ (IsBlock r s.mode true) r.groups parts := by
  obtain ⟨written, done, rendered⟩ := emit_eq_ok accepted
  have writes : Writes c r s written text := ⟨accepted, done, rendered, written_iff.2 rendered⟩
  have suits : r.Suits c := by
    obtain ⟨scope, checked, -⟩ := lines_eq_ok.1 done
    exact Scope.ofAnalysis_isOk_iff.1 ⟨scope, checked⟩
  have describes := Analysis.describes_of_ofCircuit built'.wellFormed analysed
  obtain ⟨on, on_lines, -⟩ : Prints (lines s.mode true c r) _ :=
    lines_prints built.wellFormed suits describes.groupsInside
  obtain ⟨off_lines, blocks⟩ := lines_unrotated on_lines
  refine ⟨written, writes, ?_, ?_, ?_, ?_, ?_⟩
  · intro n
    obtain ⟨text', writes'⟩ : ∃ text', Writes c r { s with intBits := n } written text' :=
      writes.under rfl rfl writable
    exact ⟨text', writes', fun line _ => Line.widthOnly_intBits s n line⟩
  · intro n
    obtain ⟨text', writes'⟩ : ∃ text', Writes c r { s with floatBits := n } written text' :=
      writes.under rfl rfl writable
    exact ⟨text', writes', fun line _ => Line.widthOnly_floatBits s n line⟩
  · intro n writable'
    obtain ⟨text', writes'⟩ : ∃ text', Writes c r { s with precision := n } written text' :=
      writes.under rfl rfl writable'
    exact ⟨text', writes', fun line _ => Line.placesOnly_precision writable writable' line⟩
  · intro n
    obtain ⟨text', writes'⟩ : ∃ text', Writes c r { s with indent := n } written text' :=
      writes.under rfl rfl writable
    refine ⟨text', writes', ?_, lines_enclosed done⟩
    exact fun line mem => Line.indentOnly_indent n (writes.isSome_text? mem)
  · obtain ⟨textOn, writes_on⟩ : ∃ textOn, Writes c r { s with rotations := true } on textOn :=
      exists_writes writable on_lines
    obtain ⟨textOff, writes_off⟩ :
        ∃ textOff, Writes c r { s with rotations := false } (unrotated on) textOff :=
      exists_writes writable off_lines
    exact ⟨on, textOn, textOff, writes_on, writes_off, fun line => rfl, declared_unrotated on,
      blocks⟩

/-- Counting one mode and a quadrature of another. A width of 64 bits reaches the readout of the
count, and without rotations one line is missing. -/
theorem settings_of_count_and_position :
    let c := (Circuit.empty "c").afterCalls [
      .measure (.leaf ⟨"NumberOperator", [.index 0], []⟩),
      .measure (.leaf ⟨"QuadX", [.index 1], []⟩)]
    let count : Line := .readout .fockNumber 0 ⟨.qumodes, 0⟩ false
    let position : Line := .readout .homodyne 1 ⟨.qumodes, 1⟩ false
    ∃ r preamble text text' textOff, Analysis.ofCircuit c = .ok r ∧
      Writes c r {} (preamble ++ [.rotate ⟨"Rotation", [.real .zero], [⟨.qumodes, 1⟩]⟩, count,
        position]) text ∧
      Writes c r { intBits := 64 } (preamble ++ [.rotate ⟨"Rotation", [.real .zero],
        [⟨.qumodes, 1⟩]⟩, count, position]) text' ∧
      count.WidthOnly [.fockNumber] "uint" 32 64 {} { intBits := 64 } ∧
      Writes c r { rotations := false } (preamble ++ [count, position]) textOff := by
  intro c count position
  let schemaOf (w : WireId) (q : WireReadout) : MeasurementSchema :=
    MeasurementSchema.empty.push w q List.not_mem_nil
  let r : Analysis := ⟨[.continuous, .continuous],
    [schemaOf ⟨0⟩ (.plain .discrete), schemaOf ⟨1⟩ (.rotated .position .zero ⟨1⟩)],
    [⟨[0, 1], [(⟨0⟩, .discrete), (⟨1⟩, .position)], [.rotation .zero ⟨1⟩]⟩]⟩
  let preamble : List Line := [.version, .includeFile "stdgates.inc", .includeFile "cvstdgates.inc",
    .blank, .declaration .continuous 2 .qumodes, .blank, .openPreparation, .reset .qumodes,
    .closePreparation, .blank, .callPreparation]
  let whole : List Line := preamble ++ [.rotate ⟨"Rotation", [.real .zero], [⟨.qumodes, 1⟩]⟩, count,
    position]
  have analysed : Analysis.ofCircuit c = .ok r := by decide +kernel
  have done : lines .permissive true c r = .ok whole := by decide +kernel
  obtain ⟨text, writes⟩ : ∃ text, Writes c r {} whole text := exists_writes (by decide) done
  obtain ⟨written, writes', widths, -, -, -, on, _, textOff, on_writes, off_writes, -⟩ :=
    settings_act_apart ⟨_, _, rfl⟩ ⟨_, _, rfl⟩ analysed (by decide) writes.emitted
  cases done.symm.trans writes'.lines
  cases done.symm.trans on_writes.lines
  obtain ⟨text', wide, only⟩ := widths 64
  exact ⟨r, preamble, text, text', textOff, analysed, writes, wide, only count (by decide),
    off_writes⟩

end Program

end Qumode

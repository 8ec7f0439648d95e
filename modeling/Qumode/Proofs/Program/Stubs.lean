import Qumode.Proofs.FirstOccurrences
import Qumode.Proofs.Program.Erasure
import Qumode.Proofs.Program.Spelling

/-!
# Stubs and calls

A strict program declares a stub for each function that it calls. The stubs come from a table of the
readout kinds, made before anything is written, and the calls from the groups, which are walked with
indices into that table. Both tell the same kinds in the same order (`calls_of_lines`,
`stubs_of_lines`): the stubs are the first occurrences of the calls. `StubsMatch` says what follows
for a program, and `stubs_match_calls` says it of every program that is emitted.
-/

namespace Qumode

theorem ReadoutKind.keyword_injective : Function.Injective keyword := by
  intro kind kind' same
  cases kind <;> cases kind' <;> first | rfl | (revert same; decide)

namespace Line

variable {kind : ReadoutKind} {lines : List Line}

/-- The function that the line declares a stub for. -/
def stub? : Line → Option ReadoutKind
  | stub kind => some kind
  | _ => none

/-- The function that the line calls. -/
def called? : Line → Option ReadoutKind
  | readout kind _ _ asCall => if asCall then some kind else none
  | _ => none

theorem called?_eq_some {line : Line} :
    line.called? = some kind ↔ ∃ i o, line = .readout kind i o true := by
  cases line with
  | readout kind' i o asCall => cases asCall <;> simp [called?]
  | _ => exact iff_of_false nofun nofun

theorem mem_filterMap_stub? : kind ∈ lines.filterMap stub? ↔ .stub kind ∈ lines := by
  rw [List.mem_filterMap]
  constructor
  · rintro ⟨line, mem, declares⟩
    cases line with
    | stub kind' =>
      cases declares
      exact mem
    | _ => cases declares
  · exact fun mem => ⟨_, mem, rfl⟩

theorem mem_filterMap_called? :
    kind ∈ lines.filterMap called? ↔ ∃ i o, .readout kind i o true ∈ lines := by
  simp only [List.mem_filterMap, called?_eq_some]
  constructor
  · rintro ⟨line, mem, i, o, rfl⟩
    exact ⟨i, o, mem⟩
  · rintro ⟨i, o, mem⟩
    exact ⟨_, mem, i, o, rfl⟩

/-- A line that declares no variable calls no function. -/
theorem called?_eq_none {line : Line} (none_declared : line.declared? = none) :
    line.called? = none := by
  cases line with
  | readout kind i o asCall => cases none_declared
  | _ => rfl

end Line

namespace Program

variable {c : Circuit} {r : Analysis} {scope : Scope} {mode : Mode} {rotations : Bool}

/-- The functions of a program in strict mode: those that have stubs are those that are called, and
a stub has the types of its calls. -/
structure StubsMatch (s : Settings) (written : List Line) : Prop where
  /-- No function has two stubs. -/
  distinct : ((written.filterMap Line.stub?).map ReadoutKind.keyword).Nodup
  /-- A function has a stub just when some readout calls it. -/
  called : ∀ kind, .stub kind ∈ written ↔ ∃ i o, .readout kind i o true ∈ written
  /-- Of two stubs the first is that of the function that is called first. -/
  in_order : (written.filterMap Line.stub?).Pairwise fun kind kind' =>
    (written.filterMap Line.called?).idxOf kind < (written.filterMap Line.called?).idxOf kind'
  /-- No stub stands behind a call. -/
  before : written.Pairwise fun line behind => line.called?.isSome → behind.stub? = none
  /-- A call declares its variable with the type that its function returns. -/
  typed : ∀ kind i o, .readout kind i o true ∈ written → ∃ type,
    (Line.stub kind).text? s = some ("def " ++ kind.keyword ++ "(qubit r) -> " ++ type
      ++ " \x7b\x7d") ∧
    (Line.readout kind i o true).text? s = some (type ++ " c" ++ toString i ++ " = "
      ++ kind.keyword ++ "(" ++ o.text ++ ");")

/-! ## Calls -/

/-- The readout of a wire is a call when its kind is one in that mode. -/
theorem Reads.called? {e : WireId × BasisSchema} {line : Line} (h : Reads r mode e line) :
    line.called? = (r.kind? e).filter (·.isCall mode) := by
  obtain ⟨i, read_as, -⟩ := h
  rw [read_as, Option.filter_some]
  rfl

/-- The calls among the readouts of a group are its kinds that are called. -/
theorem calls_of_reads {entries : List (WireId × BasisSchema)} {kinds : List ReadoutKind}
    {read : List Line} (typed : List.Forall₂ (fun e kind => r.kind? e = some kind) entries kinds)
    (reads : List.Forall₂ (Reads r mode) entries read) :
    read.filterMap Line.called? = kinds.filter (·.isCall mode) := by
  induction typed generalizing read with
  | nil =>
    cases reads
    rfl
  | @cons e kind _ _ read_as _ ih =>
    obtain ⟨line, later, first, rest, rfl⟩ := List.forall₂_cons_left_iff.1 reads
    rw [List.filterMap_cons, List.filter_cons, first.called?, read_as, Option.filter_some,
      ih rest]
    cases kind.isCall mode <;> rfl

/-- The blocks of some groups call the functions of their readout kinds, in order. -/
theorem calls_of_blocks {groups : List ExecutionGroup} {kinds : List (List ReadoutKind)}
    {parts : List (List Line)}
    (typed : List.Forall₂ (fun g kinds => List.Forall₂ (fun e kind => r.kind? e = some kind)
      g.readouts kinds) groups kinds)
    (are_blocks : List.Forall₂ (IsBlock r mode rotations) groups parts) :
    (parts.flatMap (.blank :: ·)).filterMap Line.called? =
      kinds.flatten.filter (·.isCall mode) := by
  induction typed generalizing parts with
  | nil =>
    cases are_blocks
    rfl
  | cons here _ ih =>
    obtain ⟨part, later, is_block, rest, rfl⟩ := List.forall₂_cons_left_iff.1 are_blocks
    obtain ⟨statements, read, rfl, -, reads⟩ := is_block
    have none_called : (Line.blank :: .callPreparation :: statements.map .rotate).filterMap
        Line.called? = [] := by
      simp [Line.called?]
    rw [List.flatMap_cons, List.filterMap_append, ih rest, List.flatten_cons,
      List.filter_append, ← calls_of_reads here reads, ← List.cons_append, List.filterMap_append,
      none_called, List.nil_append]

/-! ## The whole program -/

/-- No stub stands behind the first block. -/
theorem no_stub_in_blocks {groups : List ExecutionGroup} {parts : List (List Line)}
    (are_blocks : List.Forall₂ (IsBlock r mode rotations) groups parts) :
    ∀ line ∈ parts.flatMap (.blank :: ·), line.stub? = none := by
  intro line mem
  obtain rfl | rfl | ⟨st, rfl⟩ | ⟨g, -, e, -, reads⟩ := IsBlock.mem_flatMap_cases are_blocks mem
  · rfl
  · rfl
  · rfl
  · cases reads
    rfl

/-- The stubs before the blocks are those of the scope. -/
theorem stubs_before_blocks {prepared : List Line}
    (done : preparation scope c.operations = .ok prepared) :
    (header scope ++ declarations mode scope ++ prepared).filterMap Line.stub? =
      calledKinds mode scope := by
  have header_none : (header scope).filterMap Line.stub? = [] := by
    rw [List.filterMap_eq_nil_iff]
    intro line mem
    obtain rfl | ⟨name, rfl⟩ | rfl := header_lines line mem
    all_goals rfl
  have prepared_none : prepared.filterMap Line.stub? = [] := by
    rw [List.filterMap_eq_nil_iff]
    intro line mem
    obtain rfl | rfl | ⟨register, rfl⟩ | ⟨statement, rfl⟩ := preparation_lines done line mem
    all_goals rfl
  have each : Line.stub? ∘ Line.stub = some := rfl
  rw [List.filterMap_append, List.filterMap_append, header_none, prepared_none, List.nil_append,
    List.append_nil, declarations, List.filterMap_append, List.filterMap_append,
    List.filterMap_append, List.filterMap_map, each, List.filterMap_some]
  split <;> split <;> split <;> simp [List.filterMap_cons, Line.stub?]

/-- A program divides into a part without calls and a part without stubs. The calls are those of the
kinds of the scope, and the stubs their first occurrences. -/
theorem lines_divide {written : List Line} (done : lines mode rotations c r = .ok written) :
    ∃ scope early late, Scope.ofAnalysis c r = .ok scope ∧ written = early ++ late ∧
      (∀ line ∈ early, line.called? = none) ∧ (∀ line ∈ late, line.stub? = none) ∧
      early.filterMap Line.stub? = calledKinds mode scope ∧
      late.filterMap Line.called? = scope.kinds.flatten.filter (·.isCall mode) := by
  obtain ⟨scope, checked, prepared, prepares, measured, measures, rfl⟩ := lines_eq_ok.1 done
  have resolves := Scope.resolves_of_ofAnalysis checked
  obtain ⟨parts, rfl, are_blocks, -⟩ := blocks_layout resolves resolves.kinds measures
  exact ⟨scope, _, _, checked, rfl,
    fun line mem => Line.called?_eq_none (before_blocks prepares line mem).1,
    no_stub_in_blocks are_blocks, stubs_before_blocks prepares,
    calls_of_blocks resolves.kinds are_blocks⟩

/-- The stubs of a strict program match its calls. -/
theorem stubsMatch_of_lines {s : Settings} {written : List Line}
    (done : lines mode rotations c r = .ok written) : StubsMatch s written := by
  obtain ⟨scope, early, late, -, rfl, no_calls, no_stubs, stubs, calls⟩ := lines_divide done
  have all_stubs : (early ++ late).filterMap Line.stub? = calledKinds mode scope := by
    rw [List.filterMap_append, stubs, List.filterMap_eq_nil_iff.2 no_stubs, List.append_nil]
  have all_calls : (early ++ late).filterMap Line.called? =
      scope.kinds.flatten.filter (·.isCall mode) := by
    rw [List.filterMap_append, calls, List.filterMap_eq_nil_iff.2 no_calls, List.nil_append]
  constructor
  · rw [all_stubs]
    exact (nodup_eraseDups _).map ReadoutKind.keyword_injective
  · intro kind
    rw [← Line.mem_filterMap_stub?, ← Line.mem_filterMap_called?, all_stubs, all_calls]
    exact List.mem_eraseDups
  · rw [all_stubs, all_calls]
    exact pairwise_idxOf_eraseDups _
  · have after_no_call {line : Line} (mem : line ∈ early) {P : Prop} : line.called?.isSome → P := by
      rw [no_calls line mem]
      exact nofun
    refine List.pairwise_append.2 ⟨?_, ?_, fun line mem _ _ => after_no_call mem⟩
    · exact List.pairwise_of_forall_mem_list fun line mem _ _ => after_no_call mem
    · exact List.pairwise_of_forall_mem_list fun _ _ behind mem _ => no_stubs behind mem
  · intro kind i o mem
    refine ⟨kind.resultType s, ?_, ?_⟩
    · simp [Line.text?, Line.content?, Line.isInner, WireType.text, String.append_assoc]
    · simp [Line.text?, Line.content?, Line.isInner, String.append_assoc]

/-- Whatever circuit and analysis a program comes from, the stubs of a strict program match its
calls, and a permissive program has neither stubs nor calls. -/
theorem stubs_match_calls (c : Circuit) (r : Analysis) (s : Settings) {text : String}
    (emitted : emit c r s = .ok text) :
    ∃ written, lines s.mode s.rotations c r = .ok written ∧ Line.render? s written = some text ∧
      Written s written text ∧ (s.mode = .strict → StubsMatch s written) ∧
      (s.mode = .permissive → ∀ line ∈ written, line.stub? = none ∧ line.called? = none) := by
  obtain ⟨written, done, rendered⟩ := emit_eq_ok emitted
  refine ⟨written, done, rendered, written_iff.2 rendered, fun _ => stubsMatch_of_lines done,
    fun permissive => ?_⟩
  obtain ⟨scope, early, late, -, rfl, no_calls, no_stubs, stubs, calls⟩ := lines_divide done
  rw [permissive, calledKinds_permissive, List.filterMap_eq_nil_iff] at stubs
  rw [permissive, filter_isCall_permissive, List.filterMap_eq_nil_iff] at calls
  intro line mem
  rcases List.mem_append.1 mem with before | after
  · exact ⟨stubs line before, no_calls line before⟩
  · exact ⟨no_stubs line after, calls line after⟩

/-- The parity of a qubit, then an amplitude, a position and a second amplitude: two functions are
called, and the stub of the one that is called first is the first stub. -/
theorem stubs_match_calls_of_amplitudes :
    let c := (Circuit.empty "c").afterCalls [
      .measure (.leaf ⟨"PauliZ", [.index 0], []⟩), .measure (.leaf ⟨"Heterodyne", [.index 1], []⟩),
      .measure (.leaf ⟨"QuadX", [.index 2], []⟩), .measure (.leaf ⟨"Heterodyne", [.index 3], []⟩)]
    ∃ r text written, Analysis.ofCircuit c = .ok r ∧ emit c r { mode := .strict } = .ok text ∧
      Line.render? { mode := .strict } written = some text ∧
      Written { mode := .strict } written text ∧ StubsMatch { mode := .strict } written ∧
      written.filterMap Line.stub? = [.heterodyne, .homodyne] ∧
      written.filterMap Line.called? = [.heterodyne, .homodyne, .heterodyne] := by
  intro c
  obtain ⟨r, analysed⟩ : ∃ r, Analysis.ofCircuit c = .ok r := ⟨_, rfl⟩
  obtain ⟨text, emitted⟩ : ∃ text, emit c r { mode := .strict } = .ok text := by
    cases analysed
    exact ⟨_, rfl⟩
  obtain ⟨written, done, rendered, spelled, strict, -⟩ :=
    stubs_match_calls c r { mode := .strict } emitted
  refine ⟨r, text, written, analysed, emitted, rendered, spelled, strict rfl, ?_⟩
  cases analysed
  cases done
  decide

end Program

end Qumode

import Mathlib.Algebra.BigOperators.Group.List.Basic
import Qumode.Proofs.Program.Census

/-!
# What the names of operations bring into a program

An operation without a gate is written under its own name, whatever that is. So the name is the one
part of a program whose text the circuit decides. Apart from names, a program is written in finitely
many forms of lines (`Program.forms`), and a landmark that stands in none of them occurs at the line
ends, in the calls of the preparation and in the names (`Program.occurrences_ofCircuit`).

Hence a program has as many line breaks as elements and one call for each group, and a strict one
never says `qumode`, as long as no name does so.
-/

namespace Qumode

/-- A gate with a spelling of its own has a name without the pattern. -/
theorem Landmark.of_known {p : List Char} (mark : Landmark p) {name : String}
    (known : Gate.Known name) : occurrences p name.toList = 0 := by
  obtain ⟨spelling, listed⟩ := known
  exact (mark.gates _ listed).1

/-- The gates of the includes are spelled without line breaks, calls of the preparation and the
qumode keyword. -/
theorem Gate.unmarked : ∀ gate ∈ standardGates ++ continuousGates,
    ∀ text ∈ [gate.1.toList, gate.2.toList],
      occurrences ['\n'] text = 0 ∧ occurrences "state_prep();".toList text = 0 ∧
        occurrences "qumode".toList text = 0 := by
  decide +kernel

/-- Two counts for each gate settle that the includes are spelled without the pattern. -/
theorem Gate.spelled_without {p : List Char}
    (silent : ∀ gate ∈ standardGates ++ continuousGates,
      ∀ text ∈ [gate.1.toList, gate.2.toList], occurrences p text = 0) :
    ∀ gate ∈ standardGates ++ continuousGates,
      occurrences p gate.1.toList = 0 ∧ occurrences p gate.2.toList = 0 :=
  fun gate listed => ⟨silent gate listed _ List.mem_cons_self,
    silent gate listed _ (List.mem_cons_of_mem _ List.mem_cons_self)⟩

/-- The line break is a landmark: no gate of the includes is spelled with one. -/
theorem lineBreak_landmark : Landmark ['\n'] where
  nonempty := by decide
  digitless := List.all_iff_forall_prop.1 (by decide)
  blankless := by decide
  beyond := List.any_iff_exists_prop.1 (by decide)
  bracket := by decide
  lineBreak := .inr rfl
  gates := Gate.spelled_without fun gate listed text spelled =>
    (Gate.unmarked gate listed text spelled).1

/-- So is the call of the preparation routine. -/
theorem call_landmark : Landmark "state_prep();".toList where
  nonempty := by decide
  digitless := List.all_iff_forall_prop.1 (by decide)
  blankless := by decide
  beyond := List.any_iff_exists_prop.1 (by decide)
  bracket := by decide
  lineBreak := .inl (by decide)
  gates := Gate.spelled_without fun gate listed text spelled =>
    (Gate.unmarked gate listed text spelled).2.1

/-- And so is the keyword of qumodes. -/
theorem keyword_landmark : Landmark "qumode".toList where
  nonempty := by decide
  digitless := List.all_iff_forall_prop.1 (by decide)
  blankless := by decide
  beyond := List.any_iff_exists_prop.1 (by decide)
  bracket := by decide
  lineBreak := .inl (by decide)
  gates := Gate.spelled_without fun gate listed text spelled =>
    (Gate.unmarked gate listed text spelled).2.2

/-- The line with zero for every number. -/
def Line.zeroed : Line → Line
  | declaration keyword _ register => declaration keyword 0 register
  | readout kind _ operand asCall => readout kind 0 ⟨operand.register, 0⟩ asCall
  | line => line

/-- The numbers in a line bring no landmark. -/
theorem Line.marks_zeroed (p : List Char) (line : Line) : line.zeroed.marks p = line.marks p := by
  cases line <;> rfl

theorem Line.statement?_zeroed (line : Line) : line.zeroed.statement? = line.statement? := by
  cases line <;> rfl

namespace Program

/-- The lines of programs up to their numbers, but for calls of the preparation and statements. -/
def forms (mode : Mode) : List Line :=
  [.version, .includeFile "stdgates.inc", .includeFile "cvstdgates.inc", .blank, .openPreparation,
    .closePreparation, .reset .qubits, .reset .qumodes, .declaration .discrete 0 .qubits,
    .declaration (qumodeKeyword mode) 0 .qumodes]
  ++ [.measure, .fockNumber, .homodyne, .heterodyne].flatMap fun kind =>
    [.stub kind, .readout kind 0 ⟨.qubits, 0⟩ (kind.isCall mode),
      .readout kind 0 ⟨.qumodes, 0⟩ (kind.isCall mode)]

variable {c : Circuit} {r : Analysis} {s : Settings} {mode : Mode} {rotations : Bool}
  {p : List Char}

theorem header_forms {scope : Scope} {line : Line} (mem : line ∈ header scope) :
    line.zeroed ∈ forms mode := by
  simp only [header, List.mem_append, List.mem_cons, List.not_mem_nil, or_false] at mem
  rcases mem with ((rfl | rfl) | qumodes) | rfl
  · simp [forms, Line.zeroed]
  · simp [forms, Line.zeroed]
  · split at qumodes
    · cases List.mem_singleton.1 qumodes
      simp [forms, Line.zeroed]
    · cases qumodes
  · simp [forms, Line.zeroed]

/-- The forms of lines have no statement and call no preparation. -/
theorem forms_worded : ∀ form ∈ forms mode, form.statement? = none ∧ form ≠ .callPreparation := by
  cases mode <;> decide

/-- The forms have no line breaks and no calls of the preparation, and in strict mode no qumode
keyword. -/
theorem forms_unmarked (mode : Mode) : ∀ form ∈ forms mode,
    form.marks ['\n'] = 0 ∧ form.marks "state_prep();".toList = 0 ∧
      (mode = .strict → form.marks "qumode".toList = 0) := by
  cases mode <;> decide +kernel

theorem stub_forms (kind : ReadoutKind) : Line.stub kind ∈ forms mode := by
  cases kind <;> simp [forms]

/-- Declarations have one of the forms. -/
theorem declarations_forms {scope : Scope} {line : Line} (mem : line ∈ declarations mode scope) :
    line.zeroed ∈ forms mode := by
  simp only [declarations, List.mem_append, List.mem_map] at mem
  rcases mem with ((qubits | qumodes) | ⟨kind, -, rfl⟩) | blank
  · split at qubits
    · cases List.mem_singleton.1 qubits
      simp [forms, Line.zeroed]
    · cases qubits
  · split at qumodes
    · cases List.mem_singleton.1 qumodes
      simp [forms, Line.zeroed]
    · cases qumodes
  · exact stub_forms kind
  · split at blank
    · cases List.mem_singleton.1 blank
      simp [forms, Line.zeroed]
    · cases blank

/-- Readouts have one of the forms. -/
theorem Reads.forms {e : WireId × BasisSchema} {line : Line} (reads : Reads r mode e line) :
    line.zeroed ∈ forms mode := by
  obtain @⟨kind, ⟨register, j⟩, i, -, -⟩ := reads
  cases kind <;> cases register <;> simp [Program.forms, Line.zeroed]

/-- Every line of a program calls the preparation, applies an operation, or has one of the forms. -/
theorem forms_of_lines {written : List Line} (done : lines mode rotations c r = .ok written) :
    ∀ line ∈ written,
      line = .callPreparation ∨ line.statement?.isSome ∨ line.zeroed ∈ forms mode := by
  obtain ⟨scope, checked, prepared, prepares, measured, measures, rfl⟩ := lines_eq_ok.1 done
  have resolves := Scope.resolves_of_ofAnalysis checked
  obtain ⟨parts, rfl, are_blocks, -⟩ := blocks_layout resolves resolves.kinds measures
  intro line mem
  rw [List.mem_append, List.mem_append, List.mem_append] at mem
  rcases mem with ((early | declared) | inside) | block
  · exact .inr (.inr (header_forms early))
  · exact .inr (.inr (declarations_forms declared))
  · obtain rfl | rfl | ⟨register, rfl⟩ | ⟨st, rfl⟩ := preparation_lines prepares line inside
    · exact .inr (.inr (by simp [forms, Line.zeroed]))
    · exact .inr (.inr (by simp [forms, Line.zeroed]))
    · exact .inr (.inr (by cases register <;> simp [forms, Line.zeroed]))
    · exact .inr (.inl rfl)
  · obtain rfl | rfl | ⟨st, rfl⟩ | ⟨g, -, e, -, reads⟩ := IsBlock.mem_flatMap_cases are_blocks block
    · exact .inr (.inr (by simp [forms, Line.zeroed]))
    · exact .inl rfl
    · exact .inr (.inl rfl)
    · exact .inr (.inr reads.forms)

/-- Where the pattern stands in no form, the lines hold it in calls and in names. -/
theorem sum_marks (silent : ∀ line ∈ forms mode, line.marks p = 0) {written : List Line}
    (formed : ∀ line ∈ written,
      line = .callPreparation ∨ line.statement?.isSome ∨ line.zeroed ∈ forms mode) :
    (written.map (Line.marks p)).sum =
      written.count .callPreparation * Line.callPreparation.marks p +
        ((written.filterMap Line.statement?).map fun st => occurrences p st.name.toList).sum := by
  induction written with
  | nil => simp
  | cons line rest ih =>
    rw [List.forall_mem_cons] at formed
    rw [List.map_cons, List.sum_cons, ih formed.2]
    rcases formed.1 with rfl | applied | form
    · rw [List.count_cons_self, List.filterMap_cons_none rfl, Nat.succ_mul, ← Nat.add_assoc,
        Nat.add_comm (Line.marks p _)]
    · obtain ⟨st, found⟩ := Option.isSome_iff_exists.1 applied
      have other : line ≠ .callPreparation := by
        rintro rfl
        cases found
      have named : line.marks p = occurrences p st.name.toList := by rw [Line.marks, found]
      rw [List.count_cons_of_ne other, List.filterMap_cons_some found, List.map_cons,
        List.sum_cons, named]
      exact Nat.add_left_comm _ _ _
    · obtain ⟨worded, not_call⟩ := forms_worded _ form
      rw [Line.statement?_zeroed] at worded
      have other : line ≠ .callPreparation := by
        rintro rfl
        exact not_call rfl
      have unmarked : line.marks p = 0 := (line.marks_zeroed p).symm.trans (silent _ form)
      rw [List.count_cons_of_ne other, List.filterMap_cons_none worded, unmarked, Nat.zero_add]

/-- How often a landmark occurs in a program: at the ends of its lines, in the calls of the
preparation, and in the names of its operations. -/
theorem occurrences_emit (mark : Landmark p) (silent : ∀ line ∈ forms s.mode, line.marks p = 0)
    {text : String} (emitted : emit c r s = .ok text) :
    occurrences p text.toList = size s c r * occurrences p ['\n'] +
      r.groups.length * Line.callPreparation.marks p +
        ((applied s.rotations c r).map fun op => occurrences p op.name.toList).sum := by
  obtain ⟨written, done, rendered⟩ := emit_eq_ok emitted
  have census := lines_census done
  have names : (applied s.rotations c r).map (fun op => occurrences p op.name.toList) =
      (written.filterMap Line.statement?).map fun st => occurrences p st.name.toList := by
    have by_name := congrArg (List.map fun name : String => occurrences p name.toList) census.names
    rw [List.map_map, List.map_map] at by_name
    exact by_name.symm
  rw [Line.occurrences_render? mark rendered, List.sum_map_add, sum_marks silent
    (forms_of_lines done), census.calls, names, List.map_const', List.sum_replicate_nat,
    census.length, Nat.add_comm, Nat.add_assoc]

/-- The diagonalizing operations are gates and bring nothing in. -/
theorem occurrences_applied {entries : List Entry} (mark : Landmark p) (lists : c.Lists entries)
    (describes : r.Describes c) :
    ((applied rotations c r).map fun op => occurrences p op.name.toList).sum =
      (c.operations.map fun op => occurrences p op.name.toList).sum := by
  have gates : ((r.groups.flatMap fun g => if rotations then g.diagonalizing else []).map
      fun op => occurrences p op.name.toList).sum = 0 := by
    refine List.sum_eq_zero fun n mem => ?_
    obtain ⟨op, hop, rfl⟩ := List.mem_map.1 mem
    obtain ⟨g, hg, hop⟩ := List.mem_flatMap.1 hop
    cases rotations with
    | true => exact mark.of_known (describes.diagonalizing_known lists hg hop)
    | false => cases hop
  rw [applied, List.map_append, List.sum_append, gates, Nat.add_zero]

/-- A circuit with an analysis is written with any number of places that there can be. -/
theorem exists_text {entries : List Entry} (lists : c.Lists entries)
    (analysed : Analysis.ofCircuit c = .ok r) (places : s.precision.toNat ≤ 65535) :
    ∃ text, ofCircuit c s = .ok text := by
  have describes := Analysis.describes_of_ofCircuit lists.wellFormed analysed
  rw [ofCircuit, analysed]
  obtain ⟨found, -⟩ | ⟨-, tooLarge, -⟩ := emit_spec (s := s) lists.wellFormed describes
  · exact found
  · exact absurd tooLarge (Nat.not_lt.2 places)

/-- How often a landmark occurs in the program of a circuit. -/
theorem occurrences_ofCircuit {entries : List Entry} (mark : Landmark p)
    (silent : ∀ form ∈ forms s.mode, form.marks p = 0) (lists : c.Lists entries)
    (analysed : Analysis.ofCircuit c = .ok r) {text : String} (done : ofCircuit c s = .ok text) :
    occurrences p text.toList = size s c r * occurrences p ['\n'] +
      r.groups.length * Line.callPreparation.marks p +
        (c.operations.map fun op => occurrences p op.name.toList).sum := by
  have describes := Analysis.describes_of_ofCircuit lists.wellFormed analysed
  rw [ofCircuit, analysed] at done
  rw [← occurrences_applied mark lists describes]
  exact occurrences_emit mark silent done

/-- A program has a line for each of its elements and calls the preparation once for each group; an
operation without a gate adds the line breaks and the calls that stand in its name. -/
theorem text_has_lines_and_calls {d : Description} (made : Circuit.ofDescription d = .ok c)
    (analysed : Analysis.ofCircuit c = .ok r) (places : s.precision.toNat ≤ 65535) :
    ∃ text, ofCircuit c s = .ok text ∧
      text.toList.count '\n' =
        size s c r + (c.operations.map fun op => op.name.toList.count '\n').sum ∧
      occurrences "state_prep();".toList text.toList = r.groups.length +
        (c.operations.map fun op => occurrences "state_prep();".toList op.name.toList).sum := by
  have lists := Circuit.lists_of_ofDescription made
  obtain ⟨text, done⟩ := exists_text lists analysed places
  refine ⟨text, done, ?lineBreaks, ?calls⟩
  case lineBreaks =>
    have silent : ∀ form ∈ forms s.mode, form.marks ['\n'] = 0 :=
      fun form listed => (forms_unmarked s.mode form listed).1
    have counted := occurrences_ofCircuit lineBreak_landmark silent lists analysed done
    have called : Line.callPreparation.marks ['\n'] = 0 := by decide
    simp only [occurrences_singleton, called] at counted
    rwa [List.count_singleton_self, Nat.mul_one, Nat.mul_zero, Nat.add_zero] at counted
  case calls =>
    have silent : ∀ form ∈ forms s.mode, form.marks "state_prep();".toList = 0 :=
      fun form listed => (forms_unmarked s.mode form listed).2.1
    have counted := occurrences_ofCircuit call_landmark silent lists analysed done
    have ended : occurrences "state_prep();".toList ['\n'] = 0 := by decide
    have called : Line.callPreparation.marks "state_prep();".toList = 1 := by decide +kernel
    rwa [ended, called, Nat.mul_zero, Nat.zero_add, Nat.mul_one] at counted

/-- Two groups, a stub, and a custom gate whose name has a line break. -/
theorem text_has_lines_and_calls_of_two_groups :
    let d : Description := ⟨"c", [.hybrid "Pulse\n" [.label "m", .index 0] 1 [.int 3]],
      [.leaf ⟨"QuadX", [.label "m"], []⟩, .leaf ⟨"PauliY", [.index 0], []⟩,
        .leaf ⟨"QuadP", [.label "m"], []⟩]⟩
    ∃ c text, Circuit.ofDescription d = .ok c ∧ ofCircuit c { mode := .strict } = .ok text ∧
      text.toList.count '\n' = 26 ∧ occurrences "state_prep();".toList text.toList = 2 := by
  intro d
  obtain ⟨text, done, lineBreaks, calls⟩ := text_has_lines_and_calls (d := d)
    (s := { mode := .strict }) rfl rfl (by decide)
  exact ⟨_, text, rfl, done, lineBreaks.trans (by decide), calls.trans (by decide)⟩

/-- One operation can bring a line and a call of the preparation into the program. -/
theorem name_adds_line_and_call :
    let d : Description := ⟨"c", [.standard "state_prep();\nh" [.label "q"] []],
      [.leaf ⟨"PauliZ", [.label "q"], []⟩]⟩
    ∃ c r text, Circuit.ofDescription d = .ok c ∧ Analysis.ofCircuit c = .ok r ∧
      ofCircuit c {} = .ok text ∧ text.toList.count '\n' ≠ size {} c r ∧
      occurrences "state_prep();".toList text.toList ≠ r.groups.length :=
  ⟨_, _, _, rfl, rfl, rfl, by decide +kernel, by decide +kernel⟩

/-- A strict program has the qumode keyword only where an operation has it in its name. -/
theorem strict_text_has_qumode_iff (built : c.Reachable) (analysed : Analysis.ofCircuit c = .ok r)
    (strict : s.mode = .strict) (places : s.precision.toNat ≤ 65535) :
    ∃ text, ofCircuit c s = .ok text ∧
      ("qumode".toList <:+: text.toList ↔
        ∃ op ∈ c.operations, "qumode".toList <:+: op.name.toList) := by
  obtain ⟨entries, lists⟩ := built.lists
  obtain ⟨text, done⟩ := exists_text lists analysed places
  have silent : ∀ form ∈ forms s.mode, form.marks "qumode".toList = 0 :=
    fun form listed => (forms_unmarked s.mode form listed).2.2 strict
  have counted := occurrences_ofCircuit keyword_landmark silent lists analysed done
  have ended : occurrences "qumode".toList ['\n'] = 0 := by decide
  have called : Line.callPreparation.marks "qumode".toList = 0 := by decide +kernel
  rw [ended, called, Nat.mul_zero, Nat.mul_zero, Nat.add_zero, Nat.zero_add] at counted
  refine ⟨text, done, ?_⟩
  simp only [← occurrences_pos_iff, counted, List.sum_pos_iff_exists_pos_nat, List.mem_map,
    exists_exists_and_eq_and]

/-- Qumodes that are declared, rotated and read out are erased, also beside a custom gate. -/
theorem strict_text_of_qumode_circuit :
    let c := (Circuit.empty "c").afterCalls [.hybrid "Qumode" [.label "m", .index 0] 1 [.int 3],
      .measure (.leaf ⟨"QuadX", [.label "m"], []⟩)]
    ∃ text, ofCircuit c { mode := .strict } = .ok text ∧ ¬ "qumode".toList <:+: text.toList := by
  intro c
  obtain ⟨text, done, only_in_names⟩ := strict_text_has_qumode_iff (c := c)
    (s := { mode := .strict }) ⟨_, _, rfl⟩ rfl rfl (by decide)
  refine ⟨text, done, fun found => ?_⟩
  obtain ⟨op, hop, inside⟩ := only_in_names.1 found
  cases List.mem_singleton.1 hop
  revert inside
  decide

/-- A name can declare a qumode in a strict program. -/
theorem name_declares_qumode_in_strict_text :
    let c := (Circuit.empty "c").afterCalls [.standard "qumode[1] n; h" [.label "q"] [],
      .measure (.leaf ⟨"PauliZ", [.label "q"], []⟩)]
    ∃ r text, Analysis.ofCircuit c = .ok r ∧ ofCircuit c { mode := .strict } = .ok text ∧
      "qumode".toList <:+: text.toList :=
  ⟨_, _, rfl, rfl, by decide +kernel⟩

end Program

end Qumode

import Qumode.Program.Line
import Qumode.Proofs.FirstOccurrences
import Qumode.Proofs.Steps

/-!
# How a program is spelled

The lines of a program say what a program does, and its text is what a reader of the program sees.
Here the text of every kind of line is put down in its characters, apart from the functions that
write it (`Line.Spelled`), and the text of a program is the texts of its lines, each with a line
break behind it (`Program.Written`). `Line.spelled_iff` and `Program.written_iff` say that this is
what is written. A statement about the lines of a program, together with `Program.Written`, is one
about its text.
-/

namespace Qumode

/-! ## The parts of a line -/

/-- A gate of the includes is spelled as the includes name it, and any other operation as it is
called. -/
inductive Gate.Spelled (name : String) : String → Prop where
  | gate {spelling : String} (listed : (name, spelling) ∈ standardGates ++ continuousGates) :
      Spelled name spelling
  | own (unlisted : ∀ spelling, (name, spelling) ∉ standardGates ++ continuousGates) :
      Spelled name name

/-- An integer has its decimal digits, and a real so many decimal places, at most 65535. -/
inductive Param.Spelled (places : Nat) : Param → String → Prop where
  | int (value : Int64) : Spelled places (.int value) (toString value.toInt)
  | real (value : Real64) (writable : places ≤ 65535) :
      Spelled places (.real value) (value.fixedText places)

/-- An operand is the letter of its register with its place in brackets. -/
inductive Operand.Spelled : Operand → String → Prop where
  | qubit (i : Nat) : Spelled ⟨.qubits, i⟩ ("q[" ++ toString i ++ "]")
  | qumode (i : Nat) : Spelled ⟨.qumodes, i⟩ ("m[" ++ toString i ++ "]")

/-- A statement is its gate, its parameters in brackets if it has any, and its operands. -/
inductive Statement.Spelled (places : Nat) : Statement → String → Prop where
  | bare {name gate : String} {operands : List Operand} {places_of : List String}
      (named : Gate.Spelled name gate)
      (applied : List.Forall₂ Operand.Spelled operands places_of) :
      Spelled places ⟨name, [], operands⟩ (gate ++ " " ++ ", ".intercalate places_of ++ ";")
  | withParams {name gate : String} {params : List Param} {operands : List Operand}
      {values places_of : List String} (named : Gate.Spelled name gate) (given : params ≠ [])
      (printed : List.Forall₂ (Param.Spelled places) params values)
      (applied : List.Forall₂ Operand.Spelled operands places_of) :
      Spelled places ⟨name, params, operands⟩
        (gate ++ "(" ++ ", ".intercalate values ++ ") " ++ ", ".intercalate places_of ++ ";")

/-- The keyword of a readout and the type of its result, of the widths of the settings. -/
inductive ReadoutKind.Spelled (s : Settings) : ReadoutKind → String → String → Prop where
  | measure : Spelled s .measure "measure" "bit"
  | fockNumber :
      Spelled s .fockNumber "fock_number" ("uint[" ++ toString s.intBits.toNat ++ "]")
  | homodyne : Spelled s .homodyne "homodyne" ("float[" ++ toString s.floatBits.toNat ++ "]")
  | heterodyne :
      Spelled s .heterodyne "heterodyne" ("complex[float[" ++ toString s.floatBits.toNat ++ "]]")

/-! ## Lines -/

/-- How each kind of line is spelled, without its line break. The lines inside the preparation
routine begin with the blanks of the indentation. -/
inductive Line.Spelled (s : Settings) : Line → String → Prop where
  | version : Spelled s .version "OPENQASM 3.0;"
  | includeFile (name : String) : Spelled s (.includeFile name) ("include \"" ++ name ++ "\";")
  | blank : Spelled s .blank ""
  | qubits (n : Nat) :
    Spelled s (.declaration .discrete n .qubits) ("qubit[" ++ toString n ++ "] q;")
  | qumodes (n : Nat) :
      Spelled s (.declaration .continuous n .qumodes) ("qumode[" ++ toString n ++ "] m;")
  | qumodesAsQubits (n : Nat) :
      Spelled s (.declaration .discrete n .qumodes) ("qubit[" ++ toString n ++ "] m;")
  | qubitsAsQumodes (n : Nat) :
      Spelled s (.declaration .continuous n .qubits) ("qumode[" ++ toString n ++ "] q;")
  | stub {kind : ReadoutKind} {keyword type : String} (spelled : kind.Spelled s keyword type) :
      Spelled s (.stub kind) ("def " ++ keyword ++ "(qubit r) -> " ++ type ++ " \x7b\x7d")
  | openPreparation : Spelled s .openPreparation "def state_prep() \x7b"
  | resetQubits : Spelled s (.reset .qubits) ("".pushn ' ' s.indent.toNat ++ "reset q;")
  | resetQumodes : Spelled s (.reset .qumodes) ("".pushn ' ' s.indent.toNat ++ "reset m;")
  | prepare {st : Statement} {text : String} (spelled : st.Spelled s.precision.toNat text) :
      Spelled s (.prepare st) ("".pushn ' ' s.indent.toNat ++ text)
  | closePreparation : Spelled s .closePreparation "\x7d"
  | callPreparation : Spelled s .callPreparation "state_prep();"
  | rotate {st : Statement} {text : String} (spelled : st.Spelled s.precision.toNat text) :
      Spelled s (.rotate st) text
  | readout {kind : ReadoutKind} {keyword type place : String} {o : Operand}
      (spelled : kind.Spelled s keyword type) (i : Nat) (applied : o.Spelled place) :
      Spelled s (.readout kind i o false)
        (type ++ " c" ++ toString i ++ " = " ++ keyword ++ " " ++ place ++ ";")
  | call {kind : ReadoutKind} {keyword type place : String} {o : Operand}
      (spelled : kind.Spelled s keyword type) (i : Nat) (applied : o.Spelled place) :
      Spelled s (.readout kind i o true)
        (type ++ " c" ++ toString i ++ " = " ++ keyword ++ "(" ++ place ++ ");")

/-- The text is that of the lines in their order, each with a line break behind it. -/
inductive Program.Written (s : Settings) : List Line → String → Prop where
  | nil : Written s [] ""
  | cons {line : Line} {lines : List Line} {t text : String} (first : line.Spelled s t)
      (rest : Written s lines text) : Written s (line :: lines) (t ++ "\n" ++ text)

/-! ## What is written is so spelled -/

namespace Gate

/-- No gate is listed twice. -/
theorem nodup_names : ((standardGates ++ continuousGates).map (·.1)).Nodup := by decide +kernel

/-- A name is spelled as the program writes it. -/
theorem spelled_iff {name spelling : String} :
    Spelled name spelling ↔ written name = spelling := by
  have found (gate : String) := lookup_eq_some_iff_mem (k := name) (b := gate) nodup_names
  constructor
  · intro spelled
    unfold written qasmName?
    cases spelled with
    | gate listed => rw [(found spelling).2 listed, Option.getD_some]
    | own unlisted =>
      cases looked_up : (standardGates ++ continuousGates).lookup name with
      | none => rfl
      | some gate => exact absurd ((found gate).1 looked_up) (unlisted gate)
  · rintro rfl
    unfold written qasmName?
    cases looked_up : (standardGates ++ continuousGates).lookup name with
    | some gate => exact .gate ((found gate).1 looked_up)
    | none =>
      refine .own fun gate listed => ?_
      cases looked_up.symm.trans ((found gate).2 listed)

end Gate

/-- A parameter is spelled just as it is written. -/
theorem Param.spelled_iff {places : Nat} {p : Param} {t : String} :
    p.Spelled places t ↔ p.text? places = some t := by
  constructor
  · intro spelled
    cases spelled with
    | int value => rfl
    | real value writable => exact if_pos writable
  · intro written
    cases p with
    | int value =>
      cases written
      exact .int value
    | real value =>
      obtain ⟨writable, same⟩ := Option.ite_none_right_eq_some.1 written
      cases same
      exact .real value writable

/-- An operand is spelled just as it is written. -/
theorem Operand.spelled_iff {o : Operand} {t : String} : o.Spelled t ↔ o.text = t := by
  have letters (i : Nat) : text ⟨.qubits, i⟩ = "q[" ++ toString i ++ "]" ∧
      text ⟨.qumodes, i⟩ = "m[" ++ toString i ++ "]" := ⟨rfl, rfl⟩
  constructor
  · intro spelled
    cases spelled with
    | qubit i => exact (letters i).1
    | qumode i => exact (letters i).2
  · rintro rfl
    obtain ⟨register, i⟩ := o
    cases register with
    | qubits => exact (letters i).1 ▸ .qubit i
    | qumodes => exact (letters i).2 ▸ .qumode i

/-- Operands are spelled one by one. -/
theorem Operand.forall₂_spelled_iff {operands : List Operand} {texts : List String} :
    List.Forall₂ Spelled operands texts ↔ operands.map text = texts := by
  rw [← List.forall₂_eq_eq_eq, List.forall₂_map_left_iff]
  exact ⟨.imp fun _ _ => spelled_iff.1, .imp fun _ _ => spelled_iff.2⟩

/-- A statement is spelled just as it is written. -/
theorem Statement.spelled_iff {places : Nat} {st : Statement} {t : String} :
    st.Spelled places t ↔ st.text? places = some t := by
  have printed_iff {params : List Param} {values : List String} :
      List.Forall₂ (Param.Spelled places) params values ↔
        params.mapM (Param.text? places) = some values := by
    rw [Steps.mapM_eq_some]
    exact ⟨.imp fun _ _ => Param.spelled_iff.1, .imp fun _ _ => Param.spelled_iff.2⟩
  constructor
  · intro spelled
    cases spelled with
    | bare named applied =>
      cases Gate.spelled_iff.1 named
      cases Operand.forall₂_spelled_iff.1 applied
      rfl
    | withParams named given printed applied =>
      cases Gate.spelled_iff.1 named
      cases Operand.forall₂_spelled_iff.1 applied
      simp [text?, given, printed_iff.1 printed]
  · intro written
    obtain ⟨name, params, operands⟩ := st
    have named : Gate.Spelled name (Gate.written name) := Gate.spelled_iff.2 rfl
    have applied := Operand.forall₂_spelled_iff.2 (rfl : operands.map Operand.text = _)
    by_cases given : params = []
    · subst given
      cases written
      exact .bare named applied
    · simp only [text?, List.isEmpty_iff, given, if_false, Option.map_eq_some_iff] at written
      obtain ⟨values, printed, rfl⟩ := written
      exact .withParams named given (printed_iff.2 printed) applied

/-- A kind of readout is spelled with its keyword and its result type. -/
theorem ReadoutKind.spelled_iff {s : Settings} {kind : ReadoutKind} {keyword type : String} :
    kind.Spelled s keyword type ↔ kind.keyword = keyword ∧ kind.resultType s = type := by
  constructor
  · intro spelled
    cases spelled <;> exact ⟨rfl, rfl⟩
  · rintro ⟨rfl, rfl⟩
    cases kind with
    | measure => exact .measure
    | fockNumber => exact .fockNumber
    | homodyne => exact .homodyne
    | heterodyne => exact .heterodyne

namespace Line

variable {s : Settings} {line : Line} {t : String}

/-- A line that is spelled has that text. -/
theorem text?_of_spelled (spelled : line.Spelled s t) : line.text? s = some t := by
  cases spelled with
  | stub spelled =>
    obtain ⟨rfl, rfl⟩ := ReadoutKind.spelled_iff.1 spelled
    simp [text?, content?, isInner, WireType.text, String.append_assoc]
  | prepare spelled | rotate spelled =>
    simp [text?, content?, isInner, Statement.spelled_iff.1 spelled]
  | readout spelled i applied =>
    obtain ⟨rfl, rfl⟩ := ReadoutKind.spelled_iff.1 spelled
    cases Operand.spelled_iff.1 applied
    simp [text?, content?, isInner, String.append_assoc]
  | call spelled i applied =>
    obtain ⟨rfl, rfl⟩ := ReadoutKind.spelled_iff.1 spelled
    cases Operand.spelled_iff.1 applied
    simp [text?, content?, isInner, String.append_assoc]
  | qubits n | qumodes n | qumodesAsQubits n | qubitsAsQumodes n =>
    simp [text?, content?, isInner, WireType.text, Register.text, String.append_assoc]
  | _ => rfl

/-- A line that has a text is spelled. -/
theorem exists_spelled (written : line.text? s = some t) : ∃ t', line.Spelled s t' := by
  cases line with
  | version => exact ⟨_, .version⟩
  | includeFile name => exact ⟨_, .includeFile name⟩
  | blank => exact ⟨_, .blank⟩
  | declaration keyword count register =>
    cases keyword <;> cases register
    · exact ⟨_, .qubits count⟩
    · exact ⟨_, .qumodesAsQubits count⟩
    · exact ⟨_, .qubitsAsQumodes count⟩
    · exact ⟨_, .qumodes count⟩
  | stub kind => exact ⟨_, .stub (ReadoutKind.spelled_iff.2 ⟨rfl, rfl⟩)⟩
  | openPreparation => exact ⟨_, .openPreparation⟩
  | reset register =>
    cases register
    · exact ⟨_, .resetQubits⟩
    · exact ⟨_, .resetQumodes⟩
  | prepare st =>
    obtain ⟨text, stated, -⟩ := Option.map_eq_some_iff.1 written
    exact ⟨_, .prepare (Statement.spelled_iff.2 stated)⟩
  | closePreparation => exact ⟨_, .closePreparation⟩
  | callPreparation => exact ⟨_, .callPreparation⟩
  | rotate st =>
    obtain ⟨text, stated, -⟩ := Option.map_eq_some_iff.1 written
    exact ⟨_, .rotate (Statement.spelled_iff.2 stated)⟩
  | readout kind i o asCall =>
    have spelled : kind.Spelled s kind.keyword (kind.resultType s) :=
      ReadoutKind.spelled_iff.2 ⟨rfl, rfl⟩
    cases asCall
    · exact ⟨_, .readout spelled i (Operand.spelled_iff.2 rfl)⟩
    · exact ⟨_, .call spelled i (Operand.spelled_iff.2 rfl)⟩

/-- A line is written as it is spelled. -/
theorem spelled_iff : line.Spelled s t ↔ line.text? s = some t := by
  refine ⟨text?_of_spelled, fun written => ?_⟩
  obtain ⟨t', spelled⟩ := exists_spelled written
  cases written.symm.trans (text?_of_spelled spelled)
  exact spelled

end Line

/-- The text of lines is written as their spellings. -/
theorem Program.written_iff {s : Settings} {lines : List Line} {text : String} :
    Written s lines text ↔ Line.render? s lines = some text := by
  have joined (texts : List String) (t : String) :
      String.join ((t :: texts).map (· ++ "\n")) =
        t ++ "\n" ++ String.join (texts.map (· ++ "\n")) := by
    simp [String.join_cons]
  unfold Line.render?
  constructor
  · intro written
    induction written with
    | nil => rfl
    | @cons line lines t text first _ ih =>
      obtain ⟨texts, each, rfl⟩ := Option.map_eq_some_iff.1 ih
      rw [List.mapM_cons, Line.spelled_iff.1 first, each]
      exact congrArg some (joined texts t)
  · intro rendered
    obtain ⟨texts, each, rfl⟩ := Option.map_eq_some_iff.1 rendered
    have spelled := (Steps.mapM_eq_some.1 each).imp fun line t => Line.spelled_iff.2
    clear rendered each
    induction spelled with
    | nil => exact .nil
    | cons first _ ih =>
      rw [joined]
      exact .cons first ih

end Qumode

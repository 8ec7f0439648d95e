import Qumode.CommandLine.Run
import Qumode.Proofs.Analysis.Consistency
import Qumode.Proofs.Circuit.Normalization
import Qumode.Proofs.CommandLine.Arguments
import Qumode.Proofs.CommandLine.Files
import Qumode.Proofs.Program.Outcome

/-!
# An emission is made as a whole or not at all

An emission needs settings, a circuit and its analysis before there is a text, and it has the whole
text before anything is printed or written. So it ends in one of three ways: it fails and leaves the
files as they were, it prints the text, or it changes the one file that was asked for, which then
holds the text. The settings are those of a file, or the usual ones, with each option that is given
in the place of its own field.

This holds whatever the libraries make of a document and whatever the console makes of a text. Of
the reader of arguments it asks that a command follows the options that are given
(`Libraries.FollowsOptions`).
-/

namespace Qumode.CommandLine

/-! ## What has to be there -/

/-- A field of the settings under an option that may replace it. -/
def Replaced {α : Type} (number? : String → Option α) (given : Option String) (base new : α) :
    Prop :=
  match given with
  | none => new = base
  | some text => number? text = some new

/-- The settings of a base with each option that is given in the place of its own field. -/
structure Found.Adjusts (given : Found) (base s : Settings) : Prop where
  mode : s.mode = if (given.lookup "strict").isSome then .strict else base.mode
  rotations : s.rotations = if (given.lookup "no-rotations").isSome then false else base.rotations
  precision : Replaced nat64? (given.lookup "precision") base.precision s.precision
  intBits : Replaced nat32? (given.lookup "int-bits") base.intBits s.intBits
  floatBits : Replaced nat32? (given.lookup "float-bits") base.floatBits s.floatBits
  indent : s.indent = base.indent

/-- A command line that asks for an emission gives it all its options. -/
def Libraries.FollowsOptions (libraries : Libraries) (given? : List String → Option Found) : Prop :=
  ∀ envConfig args command, libraries.arguments envConfig args = .ok (.emit command) →
    ∃ given, given? args = some given ∧ command.Follows envConfig given

/-- The settings that a file holds, or the usual ones where no file is named. -/
def Bases (libraries : Libraries) (files : Files) : Option String → Settings → Prop
  | none, base => base = {}
  | some path, base => load files libraries.settings path = .ok base

/-- The files and the options give an emission its settings, its circuit and the analysis of it. -/
structure Prepares (libraries : Libraries) (files : Files) (envConfig : Option String)
    (given : Found) (s : Settings) (c : Circuit) (r : Analysis) : Prop where
  settings : ∃ base, Bases libraries files ((given.lookup "config").or envConfig) base ∧
    given.Adjusts base s
  circuit : ∃ input, given.lookup "input" = some input ∧ loadCircuit libraries files input = .ok c
  analysis : Analysis.ofCircuit c = .ok r

/-! ## What is left behind -/

/-- A text is printed and the run has succeeded, or is aborted where the text breaks off. -/
def Outcome.Prints (outcome : Outcome) (console : Console) (text : String) : Prop :=
  match console.out text with
  | .complete => outcome.status = 0 ∧ outcome.output = text
  | .broken part => outcome.status = 101 ∧ outcome.output = part

/-- An error is printed and the run ends with a status, or is aborted where the error breaks off. -/
def Outcome.Reports (outcome : Outcome) (console : Console) (status : Nat) (error : String) :
    Prop :=
  match console.err error with
  | .complete => outcome.status = status ∧ outcome.errors = error
  | .broken part => outcome.status = 101 ∧ outcome.errors = part

/-- A failed run prints nothing but an error and leaves the files as they were. -/
structure Outcome.Fails (outcome : Outcome) (console : Console) (status : Nat) (files : Files) :
    Prop where
  error : ∃ error, outcome.Reports console status error
  output : outcome.output = ""
  files : outcome.files = files

/-- A text is the content of the one file that has changed. -/
structure Files.Receives (files after : Files) (path text : String) : Prop where
  read : after.read path = .ok text
  only : ∃ here last, files.LeadsTo path here last ∧
    after.find? (here ++ [last]) = some (.file text.toUTF8) ∧
    ∀ other, other ≠ here ++ [last] → after.find? other = files.find? other

/-- A text is delivered: into a file if one is asked for, and otherwise to the output. -/
def Outcome.Delivers (outcome : Outcome) (console : Console) (text : String) (files : Files) :
    Option String → Prop
  | none => outcome.Prints console text ∧ outcome.files = files
  | some path =>
    (∃ summary, outcome.Prints console summary) ∧ files.Receives outcome.files path text

variable {libraries : Libraries} {console : Console} {files : Files} {envConfig : Option String}
  {given : Found} {command : EmitCommand} {s base : Settings} {c : Circuit} {r : Analysis}

/-! ## Printing -/

/-- A run that succeeds prints its text as its last act. -/
theorem succeed_prints (text : String) : (console.succeed files text).Prints console text := by
  rw [Outcome.Prints, Console.succeed]
  cases console.out text with
  | complete => exact ⟨rfl, rfl⟩
  | broken part => exact ⟨rfl, rfl⟩

/-- Printing changes no file. -/
theorem succeed_files (text : String) : (console.succeed files text).files = files := by
  rw [Console.succeed]
  cases console.out text <;> rfl

/-- An aborted run has printed nothing and changed no file, whether its last word gets out or not.
-/
theorem abort_fails (lastWord : String) :
    (console.abort files "" lastWord).Fails console 101 files := by
  refine ⟨⟨lastWord, ?_⟩, rfl, rfl⟩
  rw [Outcome.Reports, Console.abort]
  cases console.err lastWord with
  | complete => exact ⟨rfl, rfl⟩
  | broken part => exact ⟨rfl, rfl⟩

/-- Every failure but that of printing a number is reported. -/
theorem fail_fails {e : CommandError} (calm : e ≠ .emission .precisionTooLarge) :
    (console.fail files e).Fails console 1 files := by
  rw [Console.fail]
  case x => exact calm
  generalize "Error: " ++ e.message ++ "\n" = error
  refine ⟨⟨error, ?_⟩, ?_, ?_⟩
  · rw [Outcome.Reports]
    cases console.err error <;> exact ⟨rfl, rfl⟩
  · cases console.err error <;> rfl
  · cases console.err error <;> rfl

/-! ## Settings -/

/-- A field is replaced by the number that the option takes over, and else is that of the base. -/
theorem replaced_iff {α : Type} {number? : String → Option α} {text : Option String}
    {number : Option α} {old new : α} (takesOver : TakesOver number? text number) :
    Replaced number? text old new ↔ new = number.getD old := by
  cases takesOver with
  | none => rfl
  | some read =>
    rw [Replaced, read, Option.some.injEq]
    exact eq_comm

/-- The settings that the given options ask for are the ones the command applies. -/
theorem EmitCommand.Follows.adjusts_iff (follows : command.Follows envConfig given) :
    given.Adjusts base s ↔ s = command.overrides.apply base := by
  constructor
  · rintro ⟨mode, rotations, precision, intBits, floatBits, indent⟩
    rw [follows.strict] at mode
    rw [follows.noRotations] at rotations
    rw [replaced_iff follows.precision] at precision
    rw [replaced_iff follows.intBits] at intBits
    rw [replaced_iff follows.floatBits] at floatBits
    cases s
    rw [Overrides.apply, Settings.mk.injEq]
    exact ⟨mode, rotations, precision, intBits, floatBits, indent⟩
  · rintro rfl
    refine ⟨?_, ?_, ?_, ?_, ?_, rfl⟩
    · rw [follows.strict]
      rfl
    · rw [follows.noRotations]
      rfl
    · exact (replaced_iff follows.precision).2 rfl
    · exact (replaced_iff follows.intBits).2 rfl
    · exact (replaced_iff follows.floatBits).2 rfl

/-- A command has settings when there is a base for them, and they are the adjusted base. -/
theorem EmitCommand.Follows.settings_eq_ok_iff (follows : command.Follows envConfig given) :
    command.settings libraries files = .ok s ↔
      ∃ base, Bases libraries files ((given.lookup "config").or envConfig) base ∧
        given.Adjusts base s := by
  simp only [EmitCommand.settings, follows.config, follows.adjusts_iff]
  cases command.config with
  | none =>
    constructor
    · rintro ⟨⟩
      exact ⟨{}, rfl, rfl⟩
    · rintro ⟨_, rfl, rfl⟩
      rfl
  | some path =>
    refine Steps.bind_eq_ok.trans (exists_congr fun base => and_congr_right fun _ => ?_)
    exact ⟨fun h => (Except.ok.inj h).symm, fun h => congrArg Except.ok h.symm⟩

/-! ## Stages -/

theorem analyzeCircuit_eq_ok_iff : analyzeCircuit c = .ok r ↔ Analysis.ofCircuit c = .ok r := by
  rw [analyzeCircuit]
  cases Analysis.ofCircuit c with
  | ok r => rw [Except.ok.injEq, Except.ok.injEq]
  | error e => exact iff_of_false nofun nofun

/-- An emission is prepared when its first three stages succeed. -/
theorem EmitCommand.Follows.prepares_iff (follows : command.Follows envConfig given) :
    Prepares libraries files envConfig given s c r ↔
      command.settings libraries files = .ok s ∧
        loadCircuit libraries files command.input = .ok c ∧ analyzeCircuit c = .ok r := by
  rw [follows.settings_eq_ok_iff, analyzeCircuit_eq_ok_iff]
  constructor
  · rintro ⟨settings, ⟨input, asked, loaded⟩, analysis⟩
    rw [follows.input] at asked
    cases asked
    exact ⟨settings, loaded, analysis⟩
  · rintro ⟨settings, loaded, analysis⟩
    exact ⟨settings, ⟨command.input, follows.input, loaded⟩, analysis⟩

/-- A circuit that could be loaded is well-formed. -/
theorem wellFormed_of_loadCircuit {path : String}
    (loaded : loadCircuit libraries files path = .ok c) : c.WellFormed := by
  obtain ⟨d, -, built⟩ := Steps.bind_eq_ok.1 loaded
  dsimp only at built
  split at built
  case h_1 done =>
    cases built
    exact (Circuit.lists_of_ofDescription done).wellFormed
  case h_2 => cases built

/-- Loading a document has nothing to do with emitting. -/
theorem load_ne_emission {α : Type} {read : Dialect → String → Except String α} {path : String}
    {e : EmitError} : load files read path ≠ .error (.emission e) := by
  rw [load]
  intro failed
  split at failed
  · cases failed
  · dsimp only at failed
    split at failed
    · cases failed
    · split at failed <;> cases failed

/-- Loading a circuit fails before there is anything to emit. -/
theorem loadCircuit_ne_emission {path : String} {e : EmitError} :
    loadCircuit libraries files path ≠ .error (.emission e) := by
  rw [loadCircuit]
  intro failed
  rcases Steps.bind_eq_error.1 failed with failed | ⟨d, -, failed⟩
  · exact load_ne_emission failed
  · dsimp only at failed
    split at failed <;> cases failed

/-- So does reading the settings. -/
theorem settings_ne_emission {e : EmitError} :
    command.settings libraries files ≠ .error (.emission e) := by
  rw [EmitCommand.settings]
  intro failed
  cases named : command.config with
  | none =>
    rw [named] at failed
    cases failed
  | some path =>
    rw [named] at failed
    rcases Steps.bind_eq_error.1 failed with failed | ⟨d, -, failed⟩
    · exact load_ne_emission failed
    · cases failed

/-- And so does the analysis. -/
theorem analyzeCircuit_ne_emission {e : EmitError} : analyzeCircuit c ≠ .error (.emission e) := by
  rw [analyzeCircuit]
  split <;> nofun

/-- What an emission does once it is prepared. -/
theorem EmitCommand.run_of_prepared (settings : command.settings libraries files = .ok s)
    (loaded : loadCircuit libraries files command.input = .ok c)
    (analysis : analyzeCircuit c = .ok r) :
    command.run libraries files = match Program.emit c r s with
      | .error e => .error (.emission e)
      | .ok text =>
        match command.output with
        | none => .ok (text, files)
        | some path =>
          match files.write path text with
          | .error fault => .error (.unwritable path fault)
          | .ok after => .ok (command.summary s r path, after) := by
  rw [EmitCommand.run, settings]
  show (loadCircuit libraries files command.input >>= _) = _
  rw [loaded]
  show (analyzeCircuit c >>= _) = _
  rw [analysis]
  rfl

/-- An emission that is not prepared fails before the emission itself. -/
theorem EmitCommand.run_of_not_prepared
    (unprepared : ¬ ∃ s c r, command.settings libraries files = .ok s ∧
      loadCircuit libraries files command.input = .ok c ∧ analyzeCircuit c = .ok r) :
    ∃ e, command.run libraries files = .error e ∧ ∀ e', e ≠ .emission e' := by
  rw [EmitCommand.run]
  cases settings : command.settings libraries files with
  | error e => exact ⟨e, rfl, fun e' same => settings_ne_emission (same ▸ settings)⟩
  | ok s =>
    show ∃ e, (loadCircuit libraries files command.input >>= _) = _ ∧ _
    cases loaded : loadCircuit libraries files command.input with
    | error e => exact ⟨e, rfl, fun e' same => loadCircuit_ne_emission (same ▸ loaded)⟩
    | ok c =>
      show ∃ e, (analyzeCircuit c >>= _) = _ ∧ _
      cases analysis : analyzeCircuit c with
      | error e => exact ⟨e, rfl, fun e' same => analyzeCircuit_ne_emission (same ▸ analysis)⟩
      | ok r => exact absurd ⟨s, c, r, settings, loaded, analysis⟩ unprepared

/-! ## The run -/

section Run

variable {args : List String}
  (accepted : libraries.arguments envConfig args = .ok (.emit command))

include accepted

/-- An emission that fails is the failure of the run. -/
theorem execute_of_error {e : CommandError} (failed : command.run libraries files = .error e) :
    execute libraries console files envConfig args = console.fail files e := by
  rw [execute, accepted]
  show Command.run libraries console files (.emit command) = _
  rw [Command.run, failed]

/-- An emission that succeeds is printed over the files it leaves. -/
theorem execute_of_ok {output : String} {after : Files}
    (done : command.run libraries files = .ok (output, after)) :
    execute libraries console files envConfig args = console.succeed after output := by
  rw [execute, accepted]
  show Command.run libraries console files (.emit command) = _
  rw [Command.run, done]

/-- A text that there is gets where it is asked for, or the run fails. -/
theorem execute_of_emitted {text : String} (settings : command.settings libraries files = .ok s)
    (loaded : loadCircuit libraries files command.input = .ok c)
    (analysis : analyzeCircuit c = .ok r) (emitted : Program.emit c r s = .ok text) :
    (∀ path, command.output = some path → ¬ files.Writable path →
        (execute libraries console files envConfig args).Fails console 1 files) ∧
      ((∀ path, command.output = some path → files.Writable path) →
        (execute libraries console files envConfig args).Delivers console text files
          command.output) := by
  have ran := EmitCommand.run_of_prepared settings loaded analysis
  rw [emitted] at ran
  cases asked : command.output with
  | none =>
    simp only [asked] at ran
    rw [execute_of_ok accepted ran]
    exact ⟨nofun, fun _ => ⟨succeed_prints text, succeed_files text⟩⟩
  | some path =>
    simp only [asked] at ran
    cases outcome : files.write path text with
    | error fault =>
      have unwritable : ¬ files.Writable path := fun writable => by
        obtain ⟨after, done⟩ := Files.write_isOk_iff.2 writable
        rw [outcome] at done
        cases done
      rw [outcome] at ran
      rw [execute_of_error accepted ran]
      exact ⟨fun _ _ _ => fail_fails nofun, fun writable => absurd (writable path rfl) unwritable⟩
    | ok after =>
      have writable : files.Writable path := Files.write_isOk_iff.1 ⟨after, outcome⟩
      obtain ⟨here, last, leads, there, read, others⟩ := Files.write_spec outcome
      rw [outcome] at ran
      rw [execute_of_ok accepted ran]
      refine ⟨?_, fun _ => ⟨⟨_, succeed_prints _⟩, ?_⟩⟩
      · rintro _ ⟨⟩ unwritable
        exact absurd writable unwritable
      · rw [succeed_files]
        exact ⟨read, here, last, leads, there, others⟩

end Run

/-- Every command line that asks for an emission has one of these outcomes, whatever the libraries
read in documents. Where the settings, the circuit or its analysis cannot be had, or the file not be
written, the run fails with status 1. Otherwise there is a text, which is what is printed, or what
the file that is asked for holds, and no other file has changed. A real number that would be printed
with more places than there can be aborts the run, and so does a console on which a text breaks
off. -/
theorem emission_is_all_or_nothing {given? : List String → Option Found}
    (follows : libraries.FollowsOptions given?) (console : Console) (files : Files)
    {args : List String} (accepted : libraries.arguments envConfig args = .ok (.emit command)) :
    ∃ given, given? args = some given ∧
      ((¬ ∃ s c r, Prepares libraries files envConfig given s c r) →
        (execute libraries console files envConfig args).Fails console 1 files) ∧
      ∀ s c r, Prepares libraries files envConfig given s c r →
        (65535 < s.precision.toNat ∧ Program.PrintsReal c r s ∧
          (execute libraries console files envConfig args).Fails console 101 files) ∨
        ∃ text, Program.emit c r s = .ok text ∧
          (∀ path, given.lookup "output" = some path → ¬ files.Writable path →
            (execute libraries console files envConfig args).Fails console 1 files) ∧
          ((∀ path, given.lookup "output" = some path → files.Writable path) →
            (execute libraries console files envConfig args).Delivers console text files
              (given.lookup "output")) := by
  obtain ⟨given, found, follows⟩ := follows envConfig args command accepted
  refine ⟨given, found, fun unprepared => ?_, fun s c r prepared => ?_⟩
  · simp only [follows.prepares_iff] at unprepared
    obtain ⟨e, failed, early⟩ := EmitCommand.run_of_not_prepared unprepared
    rw [execute_of_error accepted failed]
    exact fail_fails (early _)
  · obtain ⟨settings, loaded, analysis⟩ := follows.prepares_iff.1 prepared
    have wellFormed := wellFormed_of_loadCircuit loaded
    have describes := Analysis.describes_of_ofCircuit wellFormed prepared.analysis
    obtain ⟨⟨text, emitted⟩, -⟩ | ⟨emitted, tooLarge, printsReal⟩ :=
      Program.emit_spec (s := s) wellFormed describes
    · rw [follows.output]
      exact .inr ⟨text, emitted, execute_of_emitted accepted settings loaded analysis emitted⟩
    · have ran := EmitCommand.run_of_prepared settings loaded analysis
      rw [emitted] at ran
      rw [execute_of_error accepted ran]
      exact .inl ⟨tooLarge, printsReal, abort_fails _⟩

/-- The bundled reader of arguments gives a command the options that it finds. -/
theorem Libraries.bundled_follows : bundled.FollowsOptions emissionOptions? := by
  intro envConfig args command accepted
  refine follows_of_parse ?_
  simp only [bundled] at accepted
  cases read : parse envConfig args with
  | error stop =>
    rw [read] at accepted
    cases accepted
  | ok asked =>
    rw [read] at accepted
    cases accepted
    rfl

/-- The strict program of a measured displacement is written to a file, with the places that the
settings file of the environment asks for. -/
theorem strict_program_is_written :
    let circuit := "\x7b\"name\": \"c\", \"operations\": [\x7b\"name\": \"Displacement\", "
      ++ "\"wires\": [\"m\"], \"params\": [0.5, 0.25], \"capability\": \"ContinuousNative\"\x7d], "
      ++ "\"measurements\": [\x7b\"Named\": \x7b\"name\": \"QuadX\", \"wires\": [\"m\"]\x7d\x7d]\x7d"
    let files : Files :=
      ⟨[(["c.json"], .file circuit.toUTF8), (["s.yaml"], .file "precision: 3".toUTF8)]⟩
    let args := ["emit", "-i", "c.json", "-o", "c.qasm", "--strict"]
    Libraries.bundled.FollowsOptions emissionOptions? ∧
      (∃ command, Libraries.bundled.arguments (some "s.yaml") args = .ok (.emit command)) ∧
      ∃ given c r text,
        Prepares .bundled files (some "s.yaml") given { mode := .strict, precision := 3 } c r ∧
        Program.emit c r { mode := .strict, precision := 3 } = .ok text ∧
        (execute .bundled .working files (some "s.yaml") args).Delivers .working text files
          (some "c.qasm") := by
  intro circuit files args
  have accepted : Libraries.bundled.arguments (some "s.yaml") args = .ok (.emit
      { input := "c.json", output := some "c.qasm", config := some "s.yaml",
        overrides := { strict := true } }) := rfl
  obtain ⟨given, found, -, outcome⟩ :=
    emission_is_all_or_nothing Libraries.bundled_follows .working files accepted
  have options : [("input", "c.json"), ("output", "c.qasm"), ("strict", "")] = given :=
    Option.some.inj found
  subst options
  have base : load files Libraries.bundled.settings "s.yaml" = .ok { precision := 3 } := by
    decide +kernel
  have analysed : (loadCircuit .bundled files "c.json" >>= analyzeCircuit).isOk := by
    decide +kernel
  cases stages : loadCircuit .bundled files "c.json" >>= analyzeCircuit with
  | error e =>
    rw [stages] at analysed
    cases analysed
  | ok r =>
    obtain ⟨c, loaded, analysis⟩ := Steps.bind_eq_ok.1 stages
    have prepared : Prepares .bundled files (some "s.yaml")
        [("input", "c.json"), ("output", "c.qasm"), ("strict", "")]
        { mode := .strict, precision := 3 } c r :=
      ⟨⟨{ precision := 3 }, base, rfl, rfl, rfl, rfl, rfl, rfl⟩, ⟨"c.json", rfl, loaded⟩,
        analyzeCircuit_eq_ok_iff.1 analysis⟩
    obtain ⟨tooLarge, -⟩ | ⟨text, emitted, -, delivers⟩ := outcome _ c r prepared
    · exact absurd tooLarge (by decide)
    · refine ⟨Libraries.bundled_follows, ⟨_, accepted⟩, _, c, r, text, prepared, emitted,
        delivers ?_⟩
      rintro _ ⟨⟩
      exact ⟨[], "c.qasm", ⟨⟨[], rfl, rfl⟩, by decide, by decide⟩, by decide⟩

end Qumode.CommandLine

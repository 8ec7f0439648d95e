import Qumode.Backend.Basic
import Qumode.CommandLine.Command
import Qumode.CommandLine.Files
import Qumode.CommandLine.Report
import Qumode.Program.Emission
import Qumode.Text.LowerCase

/-!
# Carrying out a command

A command reads documents, analyses a circuit, and prints a report or a program. `execute` is the
whole program as a function of its arguments, its environment and the files: what it prints, the
status it ends with, and the files afterwards. The first failure ends a command with status 1,
nothing printed but the error, and the files as they were.

Two things are left open. How arguments and documents are read is for `Libraries` to say, and what
becomes of a printed text for the `Console`: a text that does not get out aborts the program.
-/

namespace Qumode.CommandLine

/-- The end of a program that has no command to carry out. -/
structure Exit where
  status : Nat
  output : String := ""
  errors : String := ""

/-- What is left to libraries: the reading of arguments and of documents, and documents over several
lines. `arguments` is given the settings file that the environment names. A reader that refuses a
text may say why, behind a colon. -/
structure Libraries where
  arguments : Option String → List String → Except Exit Command
  description : Dialect → String → Except String Description
  settings : Dialect → String → Except String Settings
  backend : Dialect → String → Except String Backend
  pretty : Document → String

/-- What becomes of a text that is printed: all of it gets out, or only a part of it. -/
inductive Printing where
  | complete
  | broken (part : String)

/-- The output of a program and its output for errors, by what they make of a text. -/
structure Console where
  out : String → Printing
  err : String → Printing

/-- A console on which every text gets out. -/
def Console.working : Console := ⟨fun _ => .complete, fun _ => .complete⟩

/-- What gets out of a text. -/
def Printing.shown (text : String) : Printing → String
  | complete => text
  | broken part => part

/-- Why a command fails. -/
inductive CommandError where
  | fileNotFound (path : String)
  | unreadable (path : String) (fault : FileFault)
  | invalidDocument (path : String) (dialect : Dialect) (reason : String)
  | circuit (error : CircuitError)
  | analysis (error : AnalysisError)
  | emission (error : EmitError)
  | unknownBackend (name : String)
  | unwritable (path : String) (fault : FileFault)
  deriving DecidableEq, Repr

def CommandError.message : CommandError → String
  | fileNotFound path => "File not found: " ++ path
  | unreadable path fault => "Failed to read file: " ++ path ++ ": " ++ fault.text
  | invalidDocument path .json reason => "Invalid JSON in " ++ path ++ reason
  | invalidDocument path .yaml reason => "Invalid YAML in " ++ path ++ reason
  | circuit error => error.message
  | analysis error => error.message
  | emission error => error.message
  | unknownBackend name =>
    "Unknown backend: '" ++ name ++ "'. Available: qubit, hybrid, fock, or a profile file"
  | unwritable path fault => "Failed to write file: " ++ path ++ ": " ++ fault.text

/-- The way a file is written, by its extension. -/
def dialectOf (path : String) : Dialect :=
  if lowerCase (extension path) ∈ ["yaml", "yml"] then .yaml else .json

/-- What a document file stands for. -/
def load {α : Type} (files : Files) (read : Dialect → String → Except String α) (path : String) :
    Except CommandError α := do
  if !files.exists? path then throw (.fileNotFound path)
  match files.read path with
  | .error fault => throw (.unreadable path fault)
  | .ok source =>
    match read (dialectOf path) source with
    | .ok value => pure value
    | .error reason => throw (.invalidDocument path (dialectOf path) reason)

def analyzeCircuit (c : Circuit) : Except CommandError Analysis :=
  match Analysis.ofCircuit c with
  | .ok r => .ok r
  | .error e => .error (.analysis e)

/-- Settings with those of the command line in their place. -/
def Overrides.apply (o : Overrides) (s : Settings) : Settings where
  mode := if o.strict then .strict else s.mode
  rotations := if o.noRotations then false else s.rotations
  precision := o.precision.getD s.precision
  intBits := o.intBits.getD s.intBits
  floatBits := o.floatBits.getD s.floatBits
  indent := s.indent

/-- What is printed after a program is written to a file. -/
def EmitCommand.summary (command : EmitCommand) (s : Settings) (r : Analysis) (output : String) :
    String :=
  let mode := match s.mode with
    | .permissive => "Permissive"
    | .strict => "Strict"
  "✓ Emitted " ++ command.input ++ " (" ++ mode ++ " mode)\n"
    ++ "  " ++ toString r.discreteWires.length ++ " qubits, " ++ toString r.continuousWires.length
    ++ " qumodes, " ++ toString r.groups.length ++ " executions\n"
    ++ "  Output: " ++ output ++ "\n"

section Commands

variable (libraries : Libraries) (files : Files)

/-- The circuit of a description file; one without a name is named after the file. -/
def loadCircuit (path : String) : Except CommandError Circuit := do
  let d ← load files libraries.description path
  let d := if d.name.isEmpty then { d with name := fileStem path } else d
  match Circuit.ofDescription d with
  | .ok c => pure c
  | .error e => throw (.circuit e)

/-- A backend by the name of a preset, in any case, or by its profile file. -/
def loadBackend (name : String) : Except CommandError Backend :=
  match lowerCase name with
  | "qubit" | "qubit-only" => .ok (.qubitOnly "qubit")
  | "hybrid" => .ok (.hybrid "hybrid")
  | "fock" | "fock-only" => .ok (.fockOnly "fock")
  | lower =>
    if files.exists? name then load files libraries.backend name else .error (.unknownBackend lower)

/-- Whether the backend of a given name can run an analysed circuit. -/
def checkBackend (r : Analysis) (name : String) : Except CommandError Unit := do
  match (← loadBackend libraries files name).check r with
  | .ok () => pure ()
  | .error e => throw (.analysis e)

/-- What an analysis prints. -/
def AnalyzeCommand.run (command : AnalyzeCommand) : Except CommandError String := do
  let c ← loadCircuit libraries files command.input
  let r ← analyzeCircuit c
  if let some name := command.backend then checkBackend libraries files r name
  let report := Report.ofAnalysis c r
  pure (if command.format = "json" then libraries.pretty report.toDocument ++ "\n"
    else report.table command.backend)

/-- The settings that an emission is made with. -/
def EmitCommand.settings (command : EmitCommand) : Except CommandError Settings := do
  let base ← match command.config with
    | some path => load files libraries.settings path
    | none => pure {}
  pure (command.overrides.apply base)

/-- What an emission prints, and the files after it. -/
def EmitCommand.run (command : EmitCommand) : Except CommandError (String × Files) := do
  let s ← command.settings libraries files
  let c ← loadCircuit libraries files command.input
  let r ← analyzeCircuit c
  match Program.emit c r s with
  | .error e => throw (.emission e)
  | .ok program =>
    match command.output with
    | none => pure (program, files)
    | some path =>
      match files.write path program with
      | .error fault => throw (.unwritable path fault)
      | .ok files => pure (command.summary s r path, files)

end Commands

/-- What a program run leaves behind. -/
structure Outcome where
  status : Nat
  output : String
  errors : String
  files : Files

namespace Console

variable (console : Console) (files : Files)

/-- The run is aborted, with a last word for the errors that need not get out. -/
def abort (output lastWord : String) : Outcome :=
  ⟨101, output, (console.err lastWord).shown lastWord, files⟩

/-- The text is printed last, and the run has succeeded. -/
def succeed (text : String) : Outcome :=
  match console.out text with
  | .complete => ⟨0, text, "", files⟩
  | .broken part => console.abort files part "failed printing to stdout\n"

/-- The run has failed, and the error is printed. A number that cannot be printed aborts the run
instead of being reported. -/
def fail (e : CommandError) : Outcome :=
  match e with
  | .emission .precisionTooLarge => console.abort files "" (e.message ++ "\n")
  | e =>
    let message := "Error: " ++ e.message ++ "\n"
    match console.err message with
    | .complete => ⟨1, "", message, files⟩
    | .broken part => ⟨101, "", part, files⟩

end Console

/-- The outcome of a command. -/
def Command.run (libraries : Libraries) (console : Console) (files : Files) : Command → Outcome
  | .analyze command =>
    match command.run libraries files with
    | .ok output => console.succeed files output
    | .error e => console.fail files e
  | .emit command =>
    match command.run libraries files with
    | .ok (output, files) => console.succeed files output
    | .error e => console.fail files e

/-- The outcome of a program run. -/
def execute (libraries : Libraries) (console : Console) (files : Files) (envConfig : Option String)
    (args : List String) : Outcome :=
  match libraries.arguments envConfig args with
  | .ok command => command.run libraries console files
  | .error exit =>
    ⟨exit.status, (console.out exit.output).shown exit.output,
      (console.err exit.errors).shown exit.errors, files⟩

end Qumode.CommandLine

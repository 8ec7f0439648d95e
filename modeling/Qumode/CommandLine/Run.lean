import Qumode.Backend.Document
import Qumode.Circuit.Document
import Qumode.CommandLine.Arguments
import Qumode.CommandLine.Execution
import Qumode.Json.Reader
import Qumode.Json.Writer
import Qumode.Program.Document
import Qumode.Yaml.Reader

/-!
# Running the program

The program with the readers of this library: `run` on a console on which every text gets out.
-/

namespace Qumode.CommandLine

def parseDocument? : Dialect → String → Option Document
  | .json, source => Json.parse? source
  | .yaml, source => Yaml.parse? source

/-- What the document in a text stands for. -/
def readDocument {α : Type} (read : Dialect → Document → Option α) (dialect : Dialect)
    (source : String) : Except String α :=
  match (parseDocument? dialect source).bind (read dialect) with
  | some value => .ok value
  | none => .error ""

def usageText : String :=
  "Usage: hybridc [-v] <COMMAND>\n\nCommands:\n"
    ++ "  analyze  -i <INPUT> [-f <FORMAT>] [-b <BACKEND>]\n"
    ++ "  emit     -i <INPUT> [-o <OUTPUT>] [-c <CONFIG>] [--strict] [--no-rotations]\n"
    ++ "           [--precision <N>] [--int-bits <N>] [--float-bits <N>]\n"
    ++ "  help     Print this message\n"

def versionText : String := "hybridc 0.3.0\n"

/-- What a program prints whose arguments ask for no command. -/
def Stop.exit : Stop → Exit
  | help => { status := 0, output := usageText }
  | version => { status := 0, output := versionText }
  | usage e => { status := 2, errors := "error: " ++ e.message ++ "\n\n" ++ usageText }

def Libraries.bundled : Libraries where
  arguments envConfig args := (parse envConfig args).mapError Stop.exit
  description := readDocument Description.ofDocument?
  settings := readDocument Settings.ofDocument?
  backend := readDocument Backend.ofDocument?
  pretty := Json.pretty

/-- The outcome of a program run. -/
def run (files : Files) (envConfig : Option String) (args : List String) : Outcome :=
  execute .bundled .working files envConfig args

end Qumode.CommandLine

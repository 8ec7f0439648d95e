import Qumode.CommandLine.Run

/-!
# The command line program

Looks at the files that the arguments name, runs the command on what is there, and then writes the
output file and prints.
-/

namespace Qumode.CommandLine

/-- The paths that a command reads or writes, and the directory of the output. -/
def Command.paths : Command → List String
  | .analyze command => command.input :: command.backend.toList
  | .emit command =>
    command.input :: command.config.toList ++ match command.output with
      | some output => [output, "/".intercalate (pathNames output).dropLast]
      | none => []

/-- The location that a path names. -/
def locate (path : String) : Location :=
  match Files.split? path with
  | none => []
  | some (before, last) =>
    (before ++ [last]).foldl
      (fun here name =>
        if name ∈ ["", "."] then here
        else if name = ".." then Location.parent here
        else here ++ [name]) []

/-- What stands at a path. -/
def look (path : String) : IO (Option Entry) := do
  try
    return some (.file (← IO.FS.readBinFile path))
  catch
    | .inappropriateType .. => return some .directory
    | _ => return none

/-- The part of the file system that a list of paths shows. -/
def lookAll (paths : List String) : IO Files := do
  let found ← paths.mapM fun path => do return (← look path).map fun entry => (locate path, entry)
  return ⟨found.filterMap id⟩

/-- Writes the output of a command that succeeded. -/
def writeOutput (command : Command) (outcome : Outcome) : IO Unit := do
  match command with
  | .emit { output := some path, .. } =>
    if outcome.status = 0 then
      if let some (.file content) := outcome.files.find? (locate path) then
        IO.FS.writeBinFile path content
  | _ => return

end Qumode.CommandLine

open Qumode.CommandLine in
def main (args : List String) : IO UInt32 := do
  let envConfig ← IO.getEnv "HYBRIDC_CONFIG"
  let command := (parse envConfig args).toOption
  let files ← lookAll ((command.map Command.paths).getD [])
  let outcome := run files envConfig args
  if let some command := command then writeOutput command outcome
  IO.print outcome.output
  IO.eprint outcome.errors
  return outcome.status.toUInt32

/-!
# Commands

What the program can be asked for: the report of an analysis, or the emission of a program.
-/

namespace Qumode.CommandLine

/-- What to analyse and how to report it. -/
structure AnalyzeCommand where
  input : String
  format : String := "table"
  backend : Option String := none
  deriving DecidableEq, Repr

/-- Settings given on the command line; they go before those of a file. -/
structure Overrides where
  strict : Bool := false
  noRotations : Bool := false
  precision : Option UInt64 := none
  intBits : Option UInt32 := none
  floatBits : Option UInt32 := none
  deriving DecidableEq, Repr

/-- What to emit, and where to. -/
structure EmitCommand where
  input : String
  output : Option String := none
  config : Option String := none
  overrides : Overrides := {}
  deriving DecidableEq, Repr

inductive Command where
  | analyze (command : AnalyzeCommand)
  | emit (command : EmitCommand)
  deriving DecidableEq, Repr

end Qumode.CommandLine

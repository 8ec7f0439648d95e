import Qumode.CommandLine.Command
import Qumode.Text.Digit

/-!
# The arguments of the command line

`hybridc [-v] analyze …` and `hybridc [-v] emit …`. Options are read from left to right:
`--name value`, `--name=value`, `-n value`, `-nvalue`, and flags in one cluster. Anything unknown,
repeated, missing or not a number is a usage error; a request for help or for the version ends the
reading at once.
-/

namespace Qumode.CommandLine

/-- What is wrong with the arguments. -/
inductive UsageError where
  | unexpected (argument : String)
  | missingValue (option : String)
  | surplusValue (option : String)
  | repeated (option : String)
  | invalidValue (option value : String)
  | missingOption (option : String)
  | missingCommand
  deriving DecidableEq, Repr

def UsageError.message : UsageError → String
  | unexpected argument => "unexpected argument '" ++ argument ++ "' found"
  | missingValue option => "a value is required for '--" ++ option ++ "' but none was supplied"
  | surplusValue option => "no value is allowed for '--" ++ option ++ "'"
  | repeated option => "the argument '--" ++ option ++ "' cannot be used multiple times"
  | invalidValue option value => "invalid value '" ++ value ++ "' for '--" ++ option ++ "'"
  | missingOption option => "the required argument '--" ++ option ++ "' was not provided"
  | missingCommand => "a subcommand is required but one was not provided"

/-- What belongs to an option. -/
inductive Arity where
  | flag
  | countedFlag
  | text
  | nat64
  | nat32
  | help
  | version
  deriving DecidableEq, Repr

def Arity.takesValue : Arity → Bool
  | text | nat64 | nat32 => true
  | flag | countedFlag | help | version => false

structure OptionSpec where
  long : String
  short : Option Char
  arity : Arity

/-- Why the reading of arguments ends early. -/
inductive Stop where
  | usage (error : UsageError)
  | help
  | version
  deriving DecidableEq, Repr

/-- A run of digits after an optional plus. -/
def nat? (s : String) : Option Nat :=
  match s.toList with
  | '+' :: ds => Digit.number? 10 ds
  | ds => Digit.number? 10 ds

/-- A number below `2 ^ 64`. -/
def nat64? (s : String) : Option UInt64 :=
  (nat? s).bind fun n => if n < UInt64.size then some (.ofNat n) else none

/-- A number below `2 ^ 32`; zero may have a minus. -/
def nat32? (s : String) : Option UInt32 :=
  match s.toList with
  | '-' :: ds => (Digit.number? 10 ds).bind fun n => if n = 0 then some 0 else none
  | _ => (nat? s).bind fun n => if n < UInt32.size then some (.ofNat n) else none

/-- The options found so far: their long names and their values, which are empty for flags. -/
abbrev Found := List (String × String)

/-- The options found, with one more. -/
def Found.add (found : Found) (spec : OptionSpec) (value : String) : Except Stop Found := do
  if spec.arity = .help then throw .help
  if spec.arity = .version then throw .version
  if spec.arity ≠ .countedFlag ∧ (found.lookup spec.long).isSome then
    throw (.usage (.repeated spec.long))
  if spec.arity = .nat64 ∧ (nat64? value).isNone ∨ spec.arity = .nat32 ∧ (nat32? value).isNone then
    throw (.usage (.invalidValue spec.long value))
  pure (found ++ [(spec.long, value)])

/-- The options of one cluster of letters, and the option that still waits for its value. -/
def readCluster (specs : List OptionSpec) (argument : String) (found : Found) :
    List Char → Except Stop (Found × Option OptionSpec)
  | [] => .ok (found, none)
  | c :: rest =>
    match specs.find? fun spec => spec.short = some c with
    | none => .error (.usage (.unexpected argument))
    | some spec =>
      if spec.arity.takesValue then
        match rest with
        | [] => .ok (found, some spec)
        | '=' :: value => do .ok (← found.add spec (String.ofList value), none)
        | value => do .ok (← found.add spec (String.ofList value), none)
      else do readCluster specs argument (← found.add spec "") rest

/-- An option by its long name, with the value behind an equals sign if there is one. -/
def readLong (specs : List OptionSpec) (found : Found) (argument : List Char) :
    Except Stop (Found × Option OptionSpec) := do
  let name := String.ofList (argument.takeWhile (· ≠ '='))
  let some spec := specs.find? fun spec => spec.long = name
    | throw (.usage (.unexpected ("--" ++ String.ofList argument)))
  match argument.dropWhile (· ≠ '=') with
  | [] =>
    if spec.arity.takesValue then pure (found, some spec) else pure (← found.add spec "", none)
  | _ :: value =>
    if spec.arity.takesValue then pure (← found.add spec (String.ofList value), none)
    else throw (.usage (.surplusValue spec.long))

/-- Reads options until a word that is none; it is returned with the arguments behind it. An option
in `waiting` takes the next word as its value, which must not look like an option. -/
def readOptions (specs : List OptionSpec) (found : Found) (waiting : Option OptionSpec) :
    List String → Except Stop (Found × Option (String × List String))
  | [] =>
    match waiting with
    | some spec => .error (.usage (.missingValue spec.long))
    | none => .ok (found, none)
  | argument :: rest =>
    match argument.toList, waiting with
    | ['-', '-'], some spec => .error (.usage (.missingValue spec.long))
    | ['-', '-'], none =>
      match rest with
      | [] => .ok (found, none)
      | word :: _ => .error (.usage (.unexpected word))
    | '-' :: _ :: _, some spec => .error (.usage (.missingValue spec.long))
    | '-' :: '-' :: long, none => do
      let (found, waiting) ← readLong specs found long
      readOptions specs found waiting rest
    | '-' :: c :: letters, none => do
      let (found, waiting) ← readCluster specs argument found (c :: letters)
      readOptions specs found waiting rest
    | _, some spec => do readOptions specs (← found.add spec argument) none rest
    | _, none => .ok (found, some (argument, rest))

/-- The options that stand anywhere. -/
def commonOptions : List OptionSpec :=
  [⟨"verbose", some 'v', .countedFlag⟩, ⟨"help", some 'h', .help⟩]

def topOptions : List OptionSpec := ⟨"version", some 'V', .version⟩ :: commonOptions

def analyzeOptions : List OptionSpec :=
  [⟨"input", some 'i', .text⟩, ⟨"format", some 'f', .text⟩, ⟨"backend", some 'b', .text⟩]
    ++ commonOptions

def emitOptions : List OptionSpec :=
  [⟨"input", some 'i', .text⟩, ⟨"output", some 'o', .text⟩, ⟨"config", some 'c', .text⟩,
   ⟨"strict", none, .flag⟩, ⟨"no-rotations", none, .flag⟩, ⟨"precision", none, .nat64⟩,
   ⟨"int-bits", none, .nat32⟩, ⟨"float-bits", none, .nat32⟩] ++ commonOptions

/-- The options behind a command; no other words may stand among them. -/
def commandOptions (specs : List OptionSpec) (args : List String) : Except Stop Found := do
  match ← readOptions specs [] none args with
  | (found, none) => pure found
  | (_, some (word, _)) => throw (.usage (.unexpected word))

def Found.required (found : Found) (name : String) : Except Stop String :=
  match found.lookup name with
  | some value => .ok value
  | none => .error (.usage (.missingOption name))

def analyzeCommand (args : List String) : Except Stop AnalyzeCommand := do
  let found ← commandOptions analyzeOptions args
  let input ← Found.required found "input"
  pure { input, format := (found.lookup "format").getD "table", backend := found.lookup "backend" }

/-- The emission that is asked for. The settings file named in the environment is taken where the
arguments name none. -/
def emitCommand (envConfig : Option String) (args : List String) : Except Stop EmitCommand := do
  let found ← commandOptions emitOptions args
  let input ← Found.required found "input"
  pure
    { input
      output := found.lookup "output"
      config := found.lookup "config" <|> envConfig
      overrides :=
        { strict := (found.lookup "strict").isSome
          noRotations := (found.lookup "no-rotations").isSome
          precision := (found.lookup "precision").bind nat64?
          intBits := (found.lookup "int-bits").bind nat32?
          floatBits := (found.lookup "float-bits").bind nat32? } }

/-- The command that the arguments ask for. `envConfig` is the settings file named in the
environment. -/
def parse (envConfig : Option String) (args : List String) : Except Stop Command := do
  match ← readOptions topOptions [] none args with
  | (_, none) => throw (.usage .missingCommand)
  | (_, some ("analyze", rest)) => do pure (.analyze (← analyzeCommand rest))
  | (_, some ("emit", rest)) => do pure (.emit (← emitCommand envConfig rest))
  | (_, some ("help", rest)) =>
    match rest with
    | [] | ["analyze"] | ["emit"] | ["help"] => throw .help
    | word :: _ => throw (.usage (.unexpected word))
  | (_, some (word, _)) => throw (.usage (.unexpected word))

end Qumode.CommandLine

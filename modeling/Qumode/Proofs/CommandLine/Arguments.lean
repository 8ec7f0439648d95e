import Qumode.CommandLine.Arguments
import Qumode.Proofs.Steps

/-!
# What the arguments of an emission say

Options are found one after another. Each one is an option of the command, with a value of its kind:
what should be a number is one. So an emission takes over every option that is given, and none is
passed over because its value cannot be read.
-/

namespace Qumode.CommandLine

/-- A value is of the kind that belongs to an option. -/
structure Arity.Accepts (arity : Arity) (value : String) : Prop where
  nat64 : arity = .nat64 → (nat64? value).isSome
  nat32 : arity = .nat32 → (nat32? value).isSome

/-- Every option found is one of a list of options, with a value of its kind. -/
def Found.Fits (found : Found) (specs : List OptionSpec) : Prop :=
  ∀ given ∈ found, ∃ spec ∈ specs, spec.long = given.1 ∧ spec.arity.Accepts given.2

/-- Options found, and an option that still waits for its value, are options of a list. -/
structure Within (specs : List OptionSpec) (reading : Found × Option OptionSpec) : Prop where
  found : reading.1.Fits specs
  waiting : ∀ spec ∈ reading.2, spec ∈ specs

variable {specs : List OptionSpec} {found found' : Found} {spec : OptionSpec} {value : String}
  {reading : Found × Option OptionSpec}

/-! ## One option -/

/-- An option is added only with a value of its kind. -/
theorem Found.add_eq_ok (added : found.add spec value = .ok found') :
    spec.arity.Accepts value ∧ found' = found ++ [(spec.long, value)] := by
  rw [Found.add] at added
  split at added
  case isTrue => cases added
  dsimp only at added
  split at added
  case isTrue => cases added
  split at added
  case isTrue => cases added
  split at added
  case isTrue => cases added
  case isFalse readable =>
    cases added
    rw [not_or] at readable
    refine ⟨⟨fun number => ?_, fun number => ?_⟩, rfl⟩
    · simpa [number, Option.isSome_iff_ne_none] using readable.1
    · simpa [number, Option.isSome_iff_ne_none] using readable.2

/-- One more known option keeps what is found fitting. -/
theorem Found.Fits.add (fits : found.Fits specs) (known : spec ∈ specs)
    (added : found.add spec value = .ok found') : found'.Fits specs := by
  obtain ⟨accepts, rfl⟩ := Found.add_eq_ok added
  intro given inside
  rcases List.mem_append.1 inside with before | last
  · exact fits given before
  · cases List.mem_singleton.1 last
    exact ⟨spec, known, rfl, accepts⟩

/-- An option with its value is found, and nothing waits. -/
theorem Found.Fits.complete (fits : found.Fits specs) (known : spec ∈ specs)
    (done : (do pure (← found.add spec value, none)) = Except.ok reading) :
    Within specs reading := by
  obtain ⟨found', added, ⟨⟩⟩ := Steps.bind_eq_ok.1 done
  exact ⟨fits.add known added, nofun⟩

/-- An option that waits for its value is a known one. -/
theorem Found.Fits.await (fits : found.Fits specs) (known : spec ∈ specs) :
    Within specs (found, some spec) :=
  ⟨fits, fun _ same => Option.some.inj same ▸ known⟩

/-! ## All options -/

/-- Letters in a cluster are known options. -/
theorem Found.Fits.cluster {argument : String} {letters : List Char} (fits : found.Fits specs)
    (done : readCluster specs argument found letters = .ok reading) : Within specs reading := by
  fun_induction readCluster specs argument found letters with
  | case1 found =>
    cases done
    exact ⟨fits, nofun⟩
  | case2 => cases done
  | case3 found c spec sought _ =>
    cases done
    exact fits.await (List.mem_of_find?_eq_some sought)
  | case4 found c spec sought _ _ => exact fits.complete (List.mem_of_find?_eq_some sought) done
  | case5 found c spec sought _ _ _ _ =>
    exact fits.complete (List.mem_of_find?_eq_some sought) done
  | case6 found c rest spec sought _ ih =>
    obtain ⟨found', added, more⟩ := Steps.bind_eq_ok.1 done
    exact ih _ (fits.add (List.mem_of_find?_eq_some sought) added) more

/-- A long name is that of a known option. -/
theorem Found.Fits.long {argument : List Char} (fits : found.Fits specs)
    (done : readLong specs found argument = .ok reading) : Within specs reading := by
  rw [readLong] at done
  split at done
  case h_2 => cases done
  case h_1 spec sought =>
    have known := List.mem_of_find?_eq_some sought
    split at done
    · split at done
      · cases done
        exact fits.await known
      · exact fits.complete known done
    · split at done
      · exact fits.complete known done
      · cases done

/-- What is found in all of the arguments fits, whatever was found before. -/
theorem Within.options {args : List String} {result : Found × Option (String × List String)}
    {waiting : Option OptionSpec} (within : Within specs (found, waiting))
    (done : readOptions specs found waiting args = .ok result) : result.1.Fits specs := by
  fun_induction readOptions specs found waiting args with
  | case1 => cases done
  | case2 =>
    cases done
    exact within.found
  | case3 => cases done
  | case4 =>
    cases done
    exact within.found
  | case5 => cases done
  | case6 => cases done
  | case7 found argument rest long _ _ ih =>
    obtain ⟨⟨found', waiting⟩, read, more⟩ := Steps.bind_eq_ok.1 done
    exact ih _ _ (within.found.long read) more
  | case8 found argument rest c letters _ _ _ ih =>
    obtain ⟨⟨found', waiting⟩, read, more⟩ := Steps.bind_eq_ok.1 done
    exact ih _ _ (within.found.cluster read) more
  | case9 found argument rest spec _ _ ih =>
    obtain ⟨found', added, more⟩ := Steps.bind_eq_ok.1 done
    exact ih _ ⟨within.found.add (within.waiting spec rfl) added, nofun⟩ more
  | case10 =>
    cases done
    exact within.found

/-- What is found behind a command fits its options. -/
theorem fits_of_commandOptions {args : List String}
    (done : commandOptions specs args = .ok found) : found.Fits specs := by
  obtain ⟨⟨found', rest⟩, read, done⟩ := Steps.bind_eq_ok.1 done
  have nothing : Within specs ([], none) := ⟨List.forall_mem_nil _, nofun⟩
  have fits : found'.Fits specs := nothing.options read
  split at done
  case h_1 same =>
    cases same
    cases done
    exact fits
  case h_2 => cases done

/-! ## An emission -/

/-- The options that are given to an emission. -/
def emissionOptions? (args : List String) : Option Found :=
  match readOptions topOptions [] none args with
  | .ok (_, some ("emit", rest)) => (commandOptions emitOptions rest).toOption
  | _ => none

/-- What is given for an option, as the command takes it over: the number that is written, if one
is. -/
abbrev TakesOver {α : Type} (number? : String → Option α) : Option String → Option α → Prop :=
  Option.Rel fun text n => number? text = some n

/-- An emission does what the given options ask for. The settings file of the environment counts
where none is given. -/
structure EmitCommand.Follows (command : EmitCommand) (envConfig : Option String) (given : Found) :
    Prop where
  input : given.lookup "input" = some command.input
  output : given.lookup "output" = command.output
  config : (given.lookup "config").or envConfig = command.config
  strict : (given.lookup "strict").isSome = command.overrides.strict
  noRotations : (given.lookup "no-rotations").isSome = command.overrides.noRotations
  precision : TakesOver nat64? (given.lookup "precision") command.overrides.precision
  intBits : TakesOver nat32? (given.lookup "int-bits") command.overrides.intBits
  floatBits : TakesOver nat32? (given.lookup "float-bits") command.overrides.floatBits

/-- A value that can be read is taken over as the number it is. -/
theorem takesOver_bind {α : Type} {number? : String → Option α} {given : Option String}
    (readable : ∀ text ∈ given, (number? text).isSome) :
    TakesOver number? given (given.bind number?) := by
  cases given with
  | none => exact .none
  | some text =>
    obtain ⟨n, read⟩ := Option.isSome_iff_exists.1 (readable text rfl)
    rw [Option.bind_some, read]
    exact .some read

/-- The value of an option that is found is of the kind of every option of that name. -/
theorem Found.Fits.accepts {name : String} {arity : Arity} (fits : found.Fits specs)
    (kind : ∀ spec ∈ specs, spec.long = name → spec.arity = arity)
    (given : found.lookup name = some value) : arity.Accepts value := by
  obtain ⟨before, behind, split, -⟩ := List.lookup_eq_some_iff.1 given
  obtain ⟨spec, known, long, accepts⟩ := fits (name, value) (by simp [split])
  exact kind spec known long ▸ accepts

theorem Found.required_eq_ok {name : String} (done : Found.required found name = .ok value) :
    found.lookup name = some value := by
  rw [Found.required] at done
  split at done
  case h_1 given => rw [given, Except.ok.inj done]
  case h_2 => cases done

/-- The command of an emission follows the options that are found for it. -/
theorem follows_of_emitCommand {envConfig : Option String} {args : List String}
    {command : EmitCommand} (asked : emitCommand envConfig args = .ok command) :
    ∃ given, commandOptions emitOptions args = .ok given ∧ command.Follows envConfig given := by
  obtain ⟨given, found, asked⟩ := Steps.bind_eq_ok.1 asked
  obtain ⟨input, required, ⟨⟩⟩ := Steps.bind_eq_ok.1 asked
  have fits := fits_of_commandOptions found
  have precision : ∀ spec ∈ emitOptions, spec.long = "precision" → spec.arity = .nat64 := by decide
  have intBits : ∀ spec ∈ emitOptions, spec.long = "int-bits" → spec.arity = .nat32 := by decide
  have floatBits : ∀ spec ∈ emitOptions, spec.long = "float-bits" → spec.arity = .nat32 := by decide
  refine ⟨given, found, Found.required_eq_ok required, rfl, ?_, rfl, rfl, ?_, ?_, ?_⟩
  · cases given.lookup "config" <;> rfl
  · exact takesOver_bind fun _ is => (fits.accepts precision is).nat64 rfl
  · exact takesOver_bind fun _ is => (fits.accepts intBits is).nat32 rfl
  · exact takesOver_bind fun _ is => (fits.accepts floatBits is).nat32 rfl

/-- A command line that asks for an emission gives it all its options. -/
theorem follows_of_parse {envConfig : Option String} {args : List String} {command : EmitCommand}
    (accepted : parse envConfig args = .ok (.emit command)) :
    ∃ given, emissionOptions? args = some given ∧ command.Follows envConfig given := by
  obtain ⟨⟨before, word⟩, read, accepted⟩ := Steps.bind_eq_ok.1 accepted
  split at accepted
  case h_1 => cases accepted
  case h_2 => obtain ⟨_, _, ⟨⟩⟩ := Steps.bind_eq_ok.1 accepted
  case h_3 rest same =>
    cases same
    obtain ⟨asked, done, ⟨⟩⟩ := Steps.bind_eq_ok.1 accepted
    obtain ⟨given, found, follows⟩ := follows_of_emitCommand done
    refine ⟨given, ?_, follows⟩
    rw [emissionOptions?, read]
    show (commandOptions emitOptions rest).toOption = some given
    rw [found]
    rfl
  case h_4 => split at accepted <;> cases accepted
  case h_5 => cases accepted

/-- Values are given with their options, after an equals sign, or as the next word. -/
example : emissionOptions? ["-v", "emit", "-ic.json", "--int-bits=8", "--strict", "-o", "c.qasm"] =
    some [("input", "c.json"), ("int-bits", "8"), ("strict", ""), ("output", "c.qasm")] := by
  decide +kernel

end Qumode.CommandLine

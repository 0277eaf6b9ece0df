import GoSignatures.Batch
import GoSignatures.Config.Loading

/-!
# The command line

The program takes its settings as options with values: `--name value` or `--name=value`. Each may
be given once. Arguments are looked at in order, and the first that settles the matter does so: a
question for the version or for help, or an argument that makes no sense.

* `CommandLine.read` — what the arguments ask for
* `CommandLine.execute` — what the program does about it
-/

namespace GoSignatures.CommandLine

/-- The settings of a run. -/
structure Settings where
  targets : String
  results : String
  config : Option String
  maxFileSize : Option Nat
deriving DecidableEq, Repr

/-- What the arguments ask for. -/
inductive Invocation where
  | run (settings : Settings)
  | version
  | help
  | misuse
deriving DecidableEq, Repr

/-- The options. -/
inductive OptionName where
  | targets
  | results
  | config
  | maxFileSize
deriving DecidableEq, Repr

/-- How an option is written. -/
def OptionName.spelling : OptionName → String
  | targets => "--targets"
  | results => "--results"
  | config => "--config"
  | maxFileSize => "--max-file-size"

/-- The option that is written so. -/
def OptionName.ofSpelling? (s : String) : Option OptionName :=
  [targets, results, config, maxFileSize].find? fun o => o.spelling == s

/-- The values of the options given so far. -/
abbrev Given := List (OptionName × String)

/-- Whether a value fits an option: a size must be a number, and a path must not be empty. -/
def fits : OptionName → String → Bool
  | .maxFileSize, value => (Text.Unsigned.read 10 value.toList).isSome
  | _, value => !value.isEmpty

/-- The settings that the given values make up; two of them are needed. -/
def Given.settings? (given : Given) : Option Settings := do
  return {
    targets := ← given.lookup .targets
    results := ← given.lookup .results
    config := given.lookup .config
    maxFileSize := (given.lookup .maxFileSize).bind fun v => Text.Unsigned.read 10 v.toList }

/-- The values with one more, if it fits and its option was not given before. -/
def Given.add? (given : Given) (name : OptionName) (value : String) : Option Given :=
  if fits name value && (given.lookup name).isNone then some (given ++ [(name, value)]) else none

/-- Whether an argument looks like an option and not like a value. -/
def isOption (arg : String) : Bool :=
  arg.startsWith "-" && arg != "-"

/-- An argument cut at its first equals sign. -/
def cut (arg : String) : String × Option String :=
  let cs := arg.toList
  (String.ofList (cs.takeWhile (· != '=')),
    match cs.dropWhile (· != '=') with
    | _ :: value => some (String.ofList value)
    | [] => none)

/-- What an argument asks for that gives no option. -/
def flag (arg : String) : Invocation :=
  if arg == "--version" then .version
  else if arg == "--help" then .help
  else if !arg.startsWith "--" && arg.startsWith "-V" then .version
  else if !arg.startsWith "--" && arg.startsWith "-h" then .help
  else .misuse

/-- What the given values ask for when no further argument follows. -/
def Given.invocation (given : Given) : Invocation :=
  match given.settings? with
  | some settings => .run settings
  | none => .misuse

/-- What the arguments ask for behind those already looked at. Two hyphens alone may stand last. -/
def readFrom (given : Given) : List String → Invocation
  | [] => given.invocation
  | arg :: args =>
    let (name, value) := cut arg
    match OptionName.ofSpelling? name, value, args with
    | none, _, [] => if arg == "--" then given.invocation else flag arg
    | none, _, _ => flag arg
    | some option, some value, args =>
      match given.add? option value with
      | some given => readFrom given args
      | none => .misuse
    | some _, none, [] => .misuse
    | some option, none, value :: args =>
      if isOption value then .misuse
      else
        match given.add? option value with
        | some given => readFrom given args
        | none => .misuse

/-- What the arguments ask for. -/
def read (args : List String) : Invocation :=
  readFrom [] args

/-! ## Execution -/

/-- How a run of the program ends. The events that it logs come before that. -/
structure Ending where
  status : Nat
  output : String
  /-- What is reported about an error; absent if the arguments make no sense. -/
  diagnostic : Option String
deriving DecidableEq, Repr

/-- The name and version of the program. -/
def versionText : String := "gosig 0.1.0\n"

/-- How the program is called. -/
def helpText : String :=
  "Usage: gosig --targets <PATH> --results <PATH> [--config <PATH>] [--max-file-size <BYTES>]\n"

variable {m : Type → Type} [Monad m]

/-- Loads the configuration and runs the batch. The environment may hold a size limit. -/
def perform (host : Host m) (environment : Option String) (settings : Settings)
    (libraries : Libraries := .plain) : ExceptT BatchError m BatchReport := do
  let config ← orFail .config
    (Config.load host "." settings.config environment settings.maxFileSize libraries)
  let report ← Batch.run host config settings.targets settings.results libraries
  host.log (.finished report.results.length)
  return report

/-- What the program does. -/
def execute (host : Host m) (environment : Option String) (args : List String)
    (libraries : Libraries := .plain) : m Ending := do
  match read args with
  | .version => return ⟨0, versionText, some ""⟩
  | .help => return ⟨0, helpText, some ""⟩
  | .misuse => return ⟨2, "", none⟩
  | .run settings =>
    match ← (perform host environment settings libraries).run with
    | .ok _ => return ⟨0, "", some ""⟩
    | .error e => return ⟨1, "", some (e.diagnostic ++ "\n")⟩

end GoSignatures.CommandLine

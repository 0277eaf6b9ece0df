import GoSignatures.Config.Document
import GoSignatures.Config.Validation
import GoSignatures.Host
import GoSignatures.Text.Unsigned

/-!
# Loading a configuration

Three layers decide the size limit: a value given on the command line wins over one from the
environment, and that over the configuration file. The file is the one that is named, which must be
there, or else `gosig.toml` in the root directory, which may be missing.

* `Config.layered` — a configuration with the upper layers put on it
* `Config.ofText` — the configuration that a text tells
* `Config.load` — the configuration in force
-/

namespace GoSignatures.Config

/-- The name of the configuration file that is looked for in the root directory. -/
def fileName : String := "gosig.toml"

/-- A path with a name behind it. -/
def joinPath (root name : String) : String :=
  if root.isEmpty then name
  else if root.endsWith "/" then root ++ name
  else root ++ "/" ++ name

/-- The configuration that a text tells, before it is checked. -/
def decoded (path text : String) (libraries : Libraries := .plain) : Except ConfigError Config :=
  match read? text with
  | some config => .ok config
  | none => .error (.malformed path (libraries.configDetail text))

/-- The configuration that a text tells. -/
def ofText (path text : String) (libraries : Libraries := .plain) : Except ConfigError Config := do
  (← decoded path text libraries).checked libraries

/-- A configuration with the size limits from the environment and from the command line put on
it. A value from the environment that is no number is passed over. -/
def layered (config : Config) (environment : Option String) (override : Option Nat) : Config :=
  let fromEnvironment := environment.bind fun text => Text.Unsigned.read 10 text.toList
  { config with maxFileSize := (override.or fromEnvironment).or config.maxFileSize }

variable {m : Type → Type} [Monad m]

/-- The configuration in a file, before it is checked. -/
def readFile (files : FileAccess m) (path : String) (libraries : Libraries := .plain) :
    m (Except ConfigError Config) := do
  match ← files.readText path with
  | .ok text => return decoded path text libraries
  | .error _ => return .error (.fileNotFound path)

/-- The configuration in the file that is named, or in the file of the root directory. -/
def findFile (files : FileAccess m) (root : String) (named : Option String)
    (libraries : Libraries := .plain) : m (Except ConfigError Config) := do
  let path := named.getD (joinPath root fileName)
  if ← files.isThere path then readFile files path libraries
  else if named.isSome then return .error (.fileNotFound path)
  else return .ok {}

/-- The configuration in force. -/
def load (host : Host m) (root : String) (named : Option String) (environment : Option String)
    (override : Option Nat) (libraries : Libraries := .plain) : m (Except ConfigError Config) := do
  match ← findFile host.toFileAccess root named libraries with
  | .error e => return .error e
  | .ok file =>
    let config := file.layered environment override
    match config.check libraries with
    | .error e => return .error e
    | .ok () =>
      host.log (.configurationLoaded config.effectiveMaxFileSize config.externalTypes.length)
      return .ok config

end GoSignatures.Config

import GoSignatures.Config.Basic
import GoSignatures.Error
import GoSignatures.Libraries
import GoSignatures.Ty.Kind

/-!
# Valid configurations

The size limit of a file must be positive. A configured imported type must have a key that joins a
path and a name by a dot, and the kind of its underlying type must be predeclared. The configured
types are a map: of several entries that are wrong, the first to be visited is reported.

* `Config.splitKey` — the path and the name in a key
* `Config.check` — the first thing that is found wrong with a configuration
-/

namespace GoSignatures.Config

/-- The path and the name that the last dot of a key parts, if there is a dot. -/
def splitKey (key : List Char) : Option (List Char × List Char) :=
  let backwards := key.reverse
  match backwards.dropWhile (· != '.') with
  | '.' :: path => some (path.reverse, (backwards.takeWhile (· != '.')).reverse)
  | _ => none

/-- Whether a key has a path before its last dot and a name behind it. -/
def isKey (key : String) : Bool :=
  match splitKey key.toList with
  | some (path, name) => !path.isEmpty && !name.isEmpty
  | none => false

/-- Whether an underlying type can be configured by a name. -/
def isUnderlying (kind : String) : Bool :=
  kind == "error" || (Kind.ofName? kind).isSome

/-- The field that holds the underlying kind of a configured type. -/
def externalTypeField (key : String) : String :=
  "analysis.external_types.\"" ++ key ++ "\""

/-- What is wrong with the entry of an imported type. -/
def checkEntry (key kind : String) : Except ConfigError Unit :=
  if !isKey key then
    .error (.invalidValue (externalTypeField key) "key must have the form import/path.TypeName")
  else if !isUnderlying kind then
    .error (.invalidValue (externalTypeField key) ("unknown underlying kind '" ++ kind ++ "'"))
  else .ok ()

/-- The first thing that is found wrong with a configuration. -/
def check (config : Config) (libraries : Libraries := .plain) : Except ConfigError Unit := do
  if config.maxFileSize = some 0 then
    throw (.validationFailed "analysis.max_file_size" "must be greater than 0")
  (libraries.visit config.externalTypes).forM fun entry => checkEntry entry.1 entry.2

/-- A configuration, if nothing is wrong with it. -/
def checked (config : Config) (libraries : Libraries := .plain) : Except ConfigError Config := do
  config.check libraries
  return config

end GoSignatures.Config

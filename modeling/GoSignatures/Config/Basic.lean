/-!
# Configuration of an analysis

How large a source file may be, and which imported types have a known underlying kind. The types
are found by import path and name, joined by a dot.
-/

namespace GoSignatures

/-- The size limit of a source file when none is configured: 10 MiB. -/
def defaultMaxFileSize : Nat := 10 * 1024 * 1024

/-- The configuration of an analysis. -/
structure Config where
  maxFileSize : Option Nat := none
  /-- Underlying kinds by `import/path.TypeName`, each key once. -/
  externalTypes : List (String × String) := []
deriving DecidableEq, Repr

namespace Config

/-- The size limit in force. -/
def effectiveMaxFileSize (config : Config) : Nat :=
  config.maxFileSize.getD defaultMaxFileSize

/-- The key under which an imported type is configured. -/
def key (path name : String) : String :=
  path ++ "." ++ name

/-- The configured underlying kind of an imported type. -/
def externalType? (config : Config) (path name : String) : Option String :=
  config.externalTypes.lookup (key path name)

end Config

end GoSignatures

/-!
# Errors

Everything that can end an analysis, by its cause. Each family has its own wording; a batch error
names the family in front of the wording, and a diagnostic puts a stable code in front of that.

* `IoError`, `RequestError`, `ParseError`, `ResolveError`, `ConfigError` — the families
* `BatchError.message`, `BatchError.code`, `BatchError.diagnostic` — what is shown
-/

namespace GoSignatures

/-- A diagnostic: a stable code in brackets, then the message. -/
def diagnosticText (code message : String) : String :=
  "[" ++ code ++ "] " ++ message

/-! ## Files -/

/-- Why a file operation fails. -/
inductive IoCause where
  | notFound
  | isDirectory
  | notDirectory
  /-- A file read as text is not UTF-8. -/
  | invalidText
  /-- A path holds the character NUL. -/
  | nulInPath
  /-- Any other reason, in the words of the system. -/
  | other (text : String)
deriving DecidableEq, Repr

/-- The wording of a cause. -/
def IoCause.message : IoCause → String
  | notFound => "No such file or directory (os error 2)"
  | isDirectory => "Is a directory (os error 21)"
  | notDirectory => "Not a directory (os error 20)"
  | invalidText => "stream did not contain valid UTF-8"
  | nulInPath => "file name contained an unexpected NUL byte"
  | other text => text

/-- Errors of reading and writing files. -/
inductive IoError where
  | read (path : String) (cause : IoCause)
  | write (path : String) (cause : IoCause)
  | fileTooLarge (path : String) (size max : Nat)
deriving DecidableEq, Repr

namespace IoError

/-- The wording of an error. -/
def message : IoError → String
  | read path cause => s!"Failed to read {path}: {cause.message}"
  | write path cause => s!"Failed to write {path}: {cause.message}"
  | fileTooLarge path size max => s!"File too large: {path} ({size} bytes, max {max})"

/-- The code of the family. -/
def code (_ : IoError) : String := "IO_ERROR"

end IoError

/-! ## Requests -/

/-- Errors of decoding a request and of writing a report as text. -/
inductive RequestError where
  | malformed (path detail : String)
  | serialize (detail : String)
deriving DecidableEq, Repr

namespace RequestError

/-- The wording of an error. -/
def message : RequestError → String
  | malformed path detail => s!"Malformed request in {path}: {detail}"
  | serialize detail => s!"Failed to serialize report: {detail}"

/-- The code of the family. -/
def code (_ : RequestError) : String := "REQUEST_ERROR"

end RequestError

/-! ## Source texts -/

/-- Errors of reading a source text. -/
inductive ParseError where
  | grammarUnavailable (detail : String)
  | noTree (path detail : String)
  | malformed (path : String) (line column : Nat) (detail : String)
  | missingPackageClause (path : String)
  | invalidEncoding (path : String)
deriving DecidableEq, Repr

namespace ParseError

/-- The wording of an error. -/
def message : ParseError → String
  | grammarUnavailable detail => s!"Go grammar unavailable: {detail}"
  | noTree path detail => s!"Tree-sitter error parsing {path}: {detail}"
  | malformed path line column detail => s!"{path}:{line}:{column}: syntax error: {detail}"
  | missingPackageClause path => s!"{path}: expected 'package' clause"
  | invalidEncoding path => s!"{path}: source is not valid UTF-8"

/-- The code of the family. -/
def code (_ : ParseError) : String := "PARSE_ERROR"

end ParseError

/-! ## Declarations -/

/-- What is wrong with a declaration. -/
inductive ResolveCause where
  | undefinedType (name : String)
  | undefinedPackage (qualifier : String)
  | notAType (name : String)
  | invalidRecursiveType (name : String)
  | redeclared (name : String)
  | duplicateMethod (receiver name : String)
  | typeArgumentCount (name : String) (expected actual : Nat)
deriving DecidableEq, Repr

/-- The wording of a cause. -/
def ResolveCause.message : ResolveCause → String
  | undefinedType name => s!"undefined: {name}"
  | undefinedPackage qualifier => s!"undefined package qualifier: {qualifier}"
  | notAType name => s!"{name} is not a type"
  | invalidRecursiveType name => s!"invalid recursive type {name}"
  | redeclared name => s!"{name} redeclared in this block"
  | duplicateMethod receiver name => s!"method {receiver}.{name} already declared"
  | typeArgumentCount name expected actual =>
    s!"{name} expects {expected} type argument(s), got {actual}"

/-- An error in a declaration, with its place. -/
structure ResolveError where
  path : String
  line : Nat
  column : Nat
  cause : ResolveCause
deriving DecidableEq, Repr

namespace ResolveError

/-- The wording of an error. -/
def message (e : ResolveError) : String :=
  s!"{e.path}:{e.line}:{e.column}: {e.cause.message}"

/-- The code of the family. -/
def code (_ : ResolveError) : String := "RESOLVE_ERROR"

end ResolveError

/-! ## Configuration -/

/-- Errors of loading and checking a configuration. -/
inductive ConfigError where
  | fileNotFound (path : String)
  | malformed (path detail : String)
  | validationFailed (field detail : String)
  | invalidValue (field detail : String)
deriving DecidableEq, Repr

namespace ConfigError

/-- The wording of an error. -/
def message : ConfigError → String
  | fileNotFound path => s!"Config file not found: {path}"
  | malformed path detail => s!"Config parse error in {path}: {detail}"
  | validationFailed field detail => s!"Config validation failed for {field}: {detail}"
  | invalidValue field detail => s!"Invalid config value for {field}: {detail}"

/-- The code of the family. -/
def code (_ : ConfigError) : String := "CONFIG_ERROR"

end ConfigError

/-! ## Batches -/

/-- Any error that ends a batch. -/
inductive BatchError where
  | io (e : IoError)
  | request (e : RequestError)
  | parse (e : ParseError)
  | resolve (e : ResolveError)
  | config (e : ConfigError)
deriving DecidableEq, Repr

namespace BatchError

/-- The wording of the error itself. -/
def ownMessage : BatchError → String
  | io e => e.message
  | request e => e.message
  | parse e => e.message
  | resolve e => e.message
  | config e => e.message

/-- The name of the family. -/
def family : BatchError → String
  | io _ => "I/O error"
  | request _ => "Request error"
  | parse _ => "Parse error"
  | resolve _ => "Resolve error"
  | config _ => "Configuration error"

/-- The wording of an error, with the name of its family in front. -/
def message (e : BatchError) : String :=
  e.family ++ ": " ++ e.ownMessage

/-- The code of an error. -/
def code : BatchError → String
  | io e => e.code
  | request e => e.code
  | parse e => e.code
  | resolve e => e.code
  | config e => e.code

/-- The diagnostic of an error. -/
def diagnostic (e : BatchError) : String :=
  diagnosticText e.code e.message

end BatchError

end GoSignatures

import GoSignatures.Position
import GoSignatures.Scope.PackageName

/-!
# The imports of a file

A named import is found by the name given to it or, without one, by the name that its path
implies. Imports into the file scope itself (with a dot) are kept apart and may repeat; those that
are blank enter nothing.

* `Imports.add` — enters an import and tells what became of it
* `Imports.lookup` — the import behind a qualifier
* `Imports.dotImport?` — where an unqualified name may come from
-/

namespace GoSignatures

/-- A named import: its path and where it stands. -/
structure ImportEntry where
  path : String
  position : Position
deriving DecidableEq, Repr

/-- What became of an import. -/
inductive ImportOutcome where
  | added
  | ignored
  | duplicate
deriving DecidableEq, Repr

/-- The imports of a file. -/
structure Imports where
  /-- Named imports, each name once. -/
  named : List (String × ImportEntry)
  /-- Paths imported into the file scope, in order. -/
  dots : List String
deriving Repr

namespace Imports

/-- No imports. -/
def empty : Imports := ⟨[], []⟩

/-- The import that a qualifier refers to. -/
def lookup (imports : Imports) (name : String) : Option ImportEntry :=
  imports.named.lookup name

/-- The first path imported into the file scope. -/
def dotImport? (imports : Imports) : Option String :=
  imports.dots.head?

/-- The number of imports entered. -/
def size (imports : Imports) : Nat :=
  imports.named.length + imports.dots.length

/-- Whether no import is entered. -/
def isEmpty (imports : Imports) : Bool :=
  imports.size == 0

/-- The name under which an import that is neither blank nor a dot is entered. -/
def effectiveName (givenName : Option String) (path : String) : String :=
  givenName.getD (PackageName.ofPath path)

/-- Enters an import. A name that is taken stays with its first import. -/
def add (imports : Imports) (givenName : Option String) (path : String) (position : Position) :
    ImportOutcome × Imports :=
  if givenName = some "_" then (.ignored, imports)
  else if givenName = some "." then (.added, { imports with dots := imports.dots ++ [path] })
  else
    let name := effectiveName givenName path
    if (imports.lookup name).isSome then (.duplicate, imports)
    else (.added, { imports with named := imports.named ++ [(name, ⟨path, position⟩)] })

end Imports

end GoSignatures

import GoSignatures.Config.Basic
import GoSignatures.Definition
import GoSignatures.Resolution.Scope
import GoSignatures.Ty.Universe
import GoSignatures.Ty.WellKnown

/-!
# Resolving: surroundings and progress

What a type expression means depends on the file scope, on the configuration and on the type
parameters in force. While types are resolved, declared types are entered into the table, and
other names for types are remembered with what they stand for.

* `Env` — what is fixed for a file
* `Progress` — what has been found so far
* `Resolve` — a step of resolving
-/

namespace GoSignatures

/-- What is fixed while a file is resolved. -/
structure Env where
  path : String
  packageName : String
  config : Config
  scope : FileScope

/-- A declared type that was entered into the table: its place there, and its name where it is
declared. -/
structure EnteredType where
  name : Piece
  id : Nat

/-- What has been found so far. -/
structure Progress where
  table : Table := .initial
  entered : List EnteredType := []
  /-- What the other names for types stand for, as far as that is known. -/
  aliases : List (String × Ty) := []
  /-- Types that are defined as another declared type whose underlying type was not known. -/
  pending : List (Nat × Nat) := []
  definitions : List Definition := []

/-- A step of resolving. -/
abbrev Resolve := StateT Progress (Except ResolveError)

namespace Env

/-- An error at a place of the file. -/
def errorAt (env : Env) (position : Position) (cause : ResolveCause) : ResolveError :=
  .at env.path position cause

/-- Ends with an error at a place of the file. -/
def fail {α : Type} (env : Env) (position : Position) (cause : ResolveCause) : Resolve α :=
  throw (env.errorAt position cause)

/-- The type that the name of a kind stands for. -/
def kindType? (kind : String) : Option Ty :=
  if kind = "error" then some .error else (Kind.ofName? kind).map .basic

/-- A type of an imported package. What is known about it comes from the configuration first, and
from the well-known types otherwise. -/
def importedType (env : Env) (path name : String) : Ty :=
  if path = "unsafe" ∧ name = "Pointer" then .basic .unsafePointer
  else
    let kind := (env.config.externalType? path name).or (WellKnown.kindName? path name)
    .imported path name (kind.bind kindType?)

end Env

namespace Progress

/-- The entered type of a name. -/
def enteredType? (p : Progress) (name : String) : Option EnteredType :=
  p.entered.find? fun e => e.name.text == name

/-- The progress with a declared type entered; its place is the old size of the table. -/
def enter (p : Progress) (name : Piece) (packageName : String) : Progress :=
  { p with
    table := p.table.declare name.text packageName
    entered := p.entered ++ [⟨name, p.table.size⟩] }

/-- The progress with a definition recorded. -/
def define (p : Progress) (definition : Definition) : Progress :=
  { p with definitions := p.definitions ++ [definition] }

end Progress

end GoSignatures

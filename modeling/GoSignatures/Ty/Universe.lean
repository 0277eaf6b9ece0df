import GoSignatures.Ty.Table

/-!
# Predeclared names

What a name denotes when no declaration of the file gives it a meaning. The predeclared types are
kept apart from the predeclared values and functions, which are no types.

* `Universe.type?` — the predeclared type of a name
* `Universe.isValue` — the names of predeclared values and functions
-/

namespace GoSignatures.Universe

/-- A predeclared type name. -/
inductive Meaning where
  | basic (kind : Kind)
  | error
  /-- Another name of the empty interface. -/
  | any
  | comparable
deriving DecidableEq, Repr

/-- The type that a predeclared name stands for. -/
def Meaning.type : Meaning → Ty
  | .basic kind => .basic kind
  | .error => .error
  | .any => .any
  | .comparable => .comparable

/-- What a predeclared type name means. -/
def meaning? (name : String) : Option Meaning :=
  if name = "error" then some .error
  else if name = "any" then some .any
  else if name = "comparable" then some .comparable
  else (Kind.ofName? name).map .basic

/-- The predeclared type of a name. -/
def type? (name : String) : Option Ty :=
  (meaning? name).map Meaning.type

/-- The predeclared names of constants and functions. -/
def values : List String :=
  ["true", "false", "iota", "nil", "append", "cap", "clear", "close", "complex", "copy", "delete",
    "imag", "len", "make", "max", "min", "new", "panic", "print", "println", "real", "recover"]

/-- Whether a name is that of a predeclared constant or function. -/
def isValue (name : String) : Bool :=
  values.contains name

end GoSignatures.Universe

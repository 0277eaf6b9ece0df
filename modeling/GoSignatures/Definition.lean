import GoSignatures.Position
import GoSignatures.Ty.Table

/-!
# Definitions of a file

What the declarations of one file define, each with the place of its name. A function is either
declared at file level or an element of an interface; only the former can be selected.
-/

namespace GoSignatures

/-- Where a function is defined. -/
inductive FuncScope where
  /-- A function or method declared at file level. -/
  | package
  /-- A method element of an interface. -/
  | interface
deriving DecidableEq, Repr

/-- The definition of a function or method. -/
structure FuncDef where
  name : String
  signature : Signature
  position : Position
  scope : FuncScope

/-- The definition of a variable or constant. -/
structure ValueDef where
  name : String
  position : Position
deriving DecidableEq, Repr

/-- The definition of a type name. -/
structure TypeDef where
  name : String
  type : Ty
  /-- Whether the name is another name of an existing type. -/
  isAlias : Bool
  position : Position

/-- A definition. -/
inductive Definition where
  | func (d : FuncDef)
  | var (d : ValueDef)
  | const (d : ValueDef)
  | type (d : TypeDef)

/-- Whether a function is declared at file level. -/
def FuncDef.isTopLevel (d : FuncDef) : Bool :=
  d.scope == .package

/-- The function that a definition defines, if it defines one. -/
def Definition.func? : Definition → Option FuncDef
  | .func d => some d
  | _ => none

/-- What is known about a file once its declarations are resolved. -/
structure ResolvedFile where
  path : String
  packageName : String
  definitions : List Definition
  table : Table

/-- The functions declared at file level, in definition order. -/
def ResolvedFile.functions (file : ResolvedFile) : List FuncDef :=
  (file.definitions.filterMap Definition.func?).filter FuncDef.isTopLevel

end GoSignatures

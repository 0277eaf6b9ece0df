import GoSignatures.Position
import GoSignatures.Ty.Basic

/-!
# Declarations as they are written

The part of a source text that matters for signatures: its declarations at file level with the
type expressions in them. Statements and function bodies are not kept. Names stand with the place
where they are written whenever a diagnostic may have to show it.
-/

namespace GoSignatures

/-- A name for a type: a plain identifier or one qualified by a package. -/
inductive TypeName where
  | plain (name : Piece)
  | qualified (package name : Piece)
deriving Repr

namespace TypeName

/-- Where the name starts. -/
def position : TypeName → Position
  | plain name => name.position
  | qualified package _ => package.position

/-- The offset behind the name. -/
def endOffset : TypeName → Nat
  | plain name => name.position.offset + name.text.utf8ByteSize
  | qualified _ name => name.position.offset + name.text.utf8ByteSize

/-- The name without its qualifier. -/
def unqualified : TypeName → String
  | plain name => name.text
  | qualified _ name => name.text

end TypeName

/-- What is kept of an expression. -/
inductive Expr where
  /-- An integer literal. -/
  | int (text : String)
  /-- An identifier. -/
  | name (text : String)
  /-- An expression in parentheses. -/
  | group (inner : Expr)
  /-- Any other expression, as written. -/
  | other (text : String)
deriving Repr

mutual

/-- A type expression. -/
inductive TypeExpr where
  /-- A named type, with type arguments if it is generic. -/
  | named (name : TypeName) (args : List TypeArg)
  | pointer (elem : TypeExpr)
  | slice (elem : TypeExpr)
  | array (length : Expr) (elem : TypeExpr)
  | map (key value : TypeExpr)
  | chan (dir : ChanDir) (elem : TypeExpr)
  | func (sig : SignatureExpr)
  | struct (fields : List FieldDecl)
  | interface (elems : List InterfaceElem)
  /-- A type in parentheses. -/
  | group (inner : TypeExpr)
  /-- A type with a tilde in front. -/
  | tilde (inner : TypeExpr)

/-- A type argument: the terms of a union, mostly one. -/
structure TypeArg where
  /-- The first term as written. In a receiver it names a type parameter. -/
  text : String
  terms : List TypeExpr

/-- Parameters and results. -/
structure SignatureExpr where
  params : List ParamDecl
  results : ResultExpr

/-- The results of a function: a list of its own, or one type. -/
inductive ResultExpr where
  | list (results : List ParamDecl)
  | single (type : TypeExpr)

/-- Parameters that share a type. No names means one parameter without a name. -/
structure ParamDecl where
  names : List String
  type : TypeExpr
  variadic : Bool

/-- Fields of a struct that share a type, or an embedded field. The tag is a string literal. -/
inductive FieldDecl where
  | named (names : List String) (type : TypeExpr) (tag : Option String)
  | embedded (pointer : Bool) (name : TypeName) (args : List TypeArg) (tag : Option String)

/-- An element of an interface: a method, or the terms of a union. -/
inductive InterfaceElem where
  | method (name : Piece) (sig : SignatureExpr)
  | union (terms : List TypeExpr)

end

instance : Inhabited TypeExpr := ⟨.struct []⟩

/-- Type parameters that share a constraint, which is a union of terms. -/
structure TypeParamDecl where
  names : List String
  constraint : List TypeExpr

/-- A receiver as its declaration writes it. -/
structure ReceiverExpr where
  /-- Empty if none is written. -/
  name : String
  type : TypeExpr
  /-- The type without pointers, parentheses and type arguments. -/
  base : Piece
  /-- The type parameters that the type arguments declare. -/
  typeParams : List String

/-- An import. -/
structure ImportSpec where
  position : Position
  givenName : Option String
  /-- The path as a string literal. -/
  path : String

/-- A declaration of a type or of another name for one. -/
structure TypeSpec where
  name : Piece
  isAlias : Bool
  typeParams : List TypeParamDecl
  type : TypeExpr

/-- A declaration of variables or constants. -/
structure ValueSpec where
  constant : Bool
  /-- In a declaration of constants the commas between the names count as names. -/
  names : List Piece
  type : Option TypeExpr
  values : List Expr

/-- A function declaration. -/
structure FuncDecl where
  name : Piece
  typeParams : List TypeParamDecl
  signature : SignatureExpr

/-- A method declaration. -/
structure MethodDecl where
  /-- The whole receiver list as written. -/
  receiverList : Piece
  /-- The first receiver that is not variadic. -/
  receiver : Option ReceiverExpr
  name : Piece
  signature : SignatureExpr

/-- A declaration at file level. -/
inductive Declaration where
  | imported (spec : ImportSpec)
  | type (spec : TypeSpec)
  | value (spec : ValueSpec)
  | func (decl : FuncDecl)
  | method (decl : MethodDecl)

/-- A source file: its package and its declarations in order. -/
structure SourceFile where
  path : String
  packageName : String
  declarations : List Declaration

end GoSignatures

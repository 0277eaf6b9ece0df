import GoSignatures.Ty.Kind

/-!
# Types

Types are plain values. A declared type is entered into a table (`GoSignatures.Ty.Table`) and
referred to by its place there, which keeps a recursive declaration finite.

The family is mutual: a type may contain signatures, fields, methods and interface elements, and
each of these contains types.
-/

namespace GoSignatures

/-- Which way values travel through a channel. -/
inductive ChanDir where
  | both
  | send
  | recv
deriving DecidableEq, Repr

/-- The length of an array type. -/
inductive ArrayLen where
  /-- A length that was evaluated. -/
  | known (n : Nat)
  /-- A length expression that was not evaluated, as it stands in the source. -/
  | expr (text : String)
deriving DecidableEq, Repr

mutual

/-- A type. -/
inductive Ty where
  | basic (kind : Kind)
  /-- A use of the declared type at place `id`, with type arguments when it is generic. -/
  | named (id : Nat) (args : List Ty)
  /-- A type of an imported package; `underlying` is absent when nothing is known about it. -/
  | imported (path name : String) (underlying : Option Ty)
  /-- A use of a type parameter. -/
  | param (name : String)
  | pointer (elem : Ty)
  | slice (elem : Ty)
  | array (len : ArrayLen) (elem : Ty)
  | map (key value : Ty)
  | chan (dir : ChanDir) (elem : Ty)
  | func (sig : Signature)
  | struct (fields : List Field)
  | interface (iface : Interface)
  /-- Stands for the underlying type of a declared type that has none yet. -/
  | invalid

/-- A parameter, result or receiver. The name is empty when none is written. -/
structure Var where
  name : String
  type : Ty

/-- A type parameter and its constraint. -/
structure TypeParam where
  name : String
  constraint : Ty

/-- The signature of a function. In a variadic one the last parameter holds a slice. -/
structure Signature where
  receiver : Option Var
  typeParams : List TypeParam
  params : List Var
  results : List Var
  variadic : Bool

/-- A field of a struct. -/
structure Field where
  name : String
  type : Ty
  embedded : Bool
  tag : Option String

/-- A method declared by an interface. -/
structure Method where
  name : String
  signature : Signature

/-- One term of a union; with a tilde it stands for all types of that underlying type. -/
structure Term where
  tilde : Bool
  type : Ty

/-- An element embedded in an interface: a type, or a union of terms. -/
inductive Embedded where
  | type (type : Ty)
  | union (terms : List Term)

/-- An interface: its own methods, its embedded elements, and whether it is the predeclared
`comparable`. -/
structure Interface where
  methods : List Method
  embeddeds : List Embedded
  comparable : Bool

end

instance : Inhabited Ty := ⟨.invalid⟩

/-- The signature without receiver, type parameters, parameters or results. -/
def Signature.empty : Signature := ⟨none, [], [], [], false⟩

/-- The interface without methods or elements. -/
def Interface.empty : Interface := ⟨[], [], false⟩

instance : Inhabited Signature := ⟨.empty⟩

instance : Inhabited Interface := ⟨.empty⟩

namespace Ty

/-- The interface type that every type satisfies. -/
def any : Ty := .interface .empty

/-- The interface type with a single embedded union. -/
def union (terms : List Term) : Ty := .interface ⟨[], [.union terms], false⟩

end Ty

end GoSignatures

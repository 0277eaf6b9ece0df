import GoSignatures.Classification.MethodSet
import GoSignatures.Ty.Printer

/-!
# Representable types

A type can be represented when its underlying type is basic; as a result, the error contract is
allowed as well: an interface whose whole method set is `Error() string`.

* `Table.hasErrorContract` — the error contract
* `Table.simplify` — how a type is described in a report
* `Table.represents` — whether a type can be represented at a place of a signature
-/

namespace GoSignatures

/-- Whether a method is `Error() string`, up to the name of its result. -/
def Method.isError (m : Method) : Bool :=
  m.name == "Error" && m.signature.params.isEmpty && !m.signature.variadic &&
    match m.signature.results with
    | [⟨_, .basic kind⟩] => kind.identical .string
    | _ => false

/-- Whether the underlying type is an interface whose method set is `Error() string` alone. -/
def Table.hasErrorContract (t : Table) (type : Ty) : Bool :=
  match t.underlying type with
  | .interface iface =>
    match t.methodSet? iface with
    | some [m] => m.isError
    | _ => false
  | _ => false

/-- How a type is described in a report. -/
structure SimplifiedType where
  name : String
  implementsError : Bool
deriving DecidableEq, Repr

/-- The description of a type: `error` for the error contract, else the canonical text of its
underlying type. -/
def Table.simplify (t : Table) (type : Ty) : SimplifiedType :=
  if t.hasErrorContract type then ⟨"error", true⟩
  else ⟨(t.underlying type).render t, false⟩

/-- Where in a signature a type stands. -/
inductive Place where
  | parameter
  | result
deriving DecidableEq, Repr

/-- Whether a type is a basic kind. -/
def Ty.isBasic : Ty → Bool
  | .basic _ => true
  | _ => false

/-- Whether a type can be represented: a basic type anywhere, the error contract as a result. -/
def Table.represents (t : Table) (place : Place) (type : Ty) : Bool :=
  (t.underlying type).isBasic || (place == .result && t.hasErrorContract type)

end GoSignatures

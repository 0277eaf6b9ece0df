import GoSignatures.Ty.Basic

/-!
# Substitution of type arguments

A binding says which type, if any, a type parameter stands for. `Ty.subst` replaces every bound
parameter; imported types keep their known underlying type as it is, and a signature keeps its
own type parameters.

* `TypeParam.argument?` — the argument that stands at the place of a parameter
* `Ty.subst` — replacement under a binding
* `Ty.instantiate` — replacement of a parameter list by an argument list
-/

namespace GoSignatures

/-- What the type parameters stand for. -/
abbrev Binding := String → Option Ty

/-- The argument at the place of the first parameter called `name`. -/
def TypeParam.argument? : List TypeParam → List Ty → Binding
  | p :: ps, a :: as, name => if p.name = name then some a else argument? ps as name
  | _, _, _ => none

mutual

/-- The type with every bound parameter replaced. -/
def Ty.subst (bind : Binding) : Ty → Ty
  | .basic k => .basic k
  | .named id args => .named id (Ty.substs bind args)
  | .imported path name underlying => .imported path name underlying
  | .param name => (bind name).getD (.param name)
  | .pointer elem => .pointer (elem.subst bind)
  | .slice elem => .slice (elem.subst bind)
  | .array len elem => .array len (elem.subst bind)
  | .map key value => .map (key.subst bind) (value.subst bind)
  | .chan dir elem => .chan dir (elem.subst bind)
  | .func sig => .func (sig.subst bind)
  | .struct fields => .struct (Field.substs bind fields)
  | .interface iface => .interface (iface.subst bind)
  | .invalid => .invalid

/-- Replacement in each type of a list. -/
def Ty.substs (bind : Binding) : List Ty → List Ty
  | [] => []
  | t :: ts => t.subst bind :: Ty.substs bind ts

/-- Replacement in a variable. -/
def Var.subst (bind : Binding) : Var → Var
  | ⟨name, type⟩ => ⟨name, type.subst bind⟩

/-- Replacement in each variable of a list. -/
def Var.substs (bind : Binding) : List Var → List Var
  | [] => []
  | v :: vs => v.subst bind :: Var.substs bind vs

/-- Replacement in an optional variable. -/
def Var.substOpt (bind : Binding) : Option Var → Option Var
  | none => none
  | some v => some (v.subst bind)

/-- Replacement in a signature. Its own type parameters stay. -/
def Signature.subst (bind : Binding) : Signature → Signature
  | ⟨receiver, typeParams, params, results, variadic⟩ =>
    ⟨Var.substOpt bind receiver, typeParams, Var.substs bind params, Var.substs bind results,
      variadic⟩

/-- Replacement in each field of a list. -/
def Field.substs (bind : Binding) : List Field → List Field
  | [] => []
  | ⟨name, type, embedded, tag⟩ :: fs =>
    ⟨name, type.subst bind, embedded, tag⟩ :: Field.substs bind fs

/-- Replacement in each method of a list. -/
def Method.substs (bind : Binding) : List Method → List Method
  | [] => []
  | ⟨name, sig⟩ :: ms => ⟨name, sig.subst bind⟩ :: Method.substs bind ms

/-- Replacement in each term of a list. -/
def Term.substs (bind : Binding) : List Term → List Term
  | [] => []
  | ⟨tilde, type⟩ :: ts => ⟨tilde, type.subst bind⟩ :: Term.substs bind ts

/-- Replacement in each embedded element of a list. -/
def Embedded.substs (bind : Binding) : List Embedded → List Embedded
  | [] => []
  | .type t :: es => .type (t.subst bind) :: Embedded.substs bind es
  | .union ts :: es => .union (Term.substs bind ts) :: Embedded.substs bind es

/-- Replacement in an interface. -/
def Interface.subst (bind : Binding) : Interface → Interface
  | ⟨methods, embeddeds, comparable⟩ =>
    ⟨Method.substs bind methods, Embedded.substs bind embeddeds, comparable⟩

end

/-- The type with the parameters `ps` replaced by the arguments `as`. -/
def Ty.instantiate (ps : List TypeParam) (as : List Ty) (t : Ty) : Ty :=
  t.subst (TypeParam.argument? ps as)

/-! ## Views on lists -/

theorem Ty.substs_eq_map (bind : Binding) (ts : List Ty) :
    Ty.substs bind ts = ts.map (Ty.subst bind) := by
  induction ts with
  | nil => rfl
  | cons t ts ih => simp [Ty.substs, ih]

theorem Var.substs_eq_map (bind : Binding) (vs : List Var) :
    Var.substs bind vs = vs.map (Var.subst bind) := by
  induction vs with
  | nil => rfl
  | cons v vs ih => simp [Var.substs, ih]

theorem TypeParam.argument?_nil_right (ps : List TypeParam) (name : String) :
    TypeParam.argument? ps [] name = none := by
  cases ps <;> rfl

end GoSignatures

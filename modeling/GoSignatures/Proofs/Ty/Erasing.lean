import GoSignatures.Proofs.Ty.Copying
import GoSignatures.Proofs.Ty.Viewing

/-!
# Types without lengths and foreign names

The length of an array may be an expression that was not evaluated, and the name of an imported
type may hold its type arguments as text. Neither decides how a type is classified. Whatever is
computed from types and the table, except their text, is computed from what is left when both are
erased.

* `Ty.erase`, `Table.erase` — types and tables without lengths and foreign names
* `Ty.erase_subst` — type parameters may be replaced before or afterwards
* `Table.underlying_erase` — the underlying type of what is left
-/

namespace GoSignatures

mutual

/-- The type without the lengths of arrays, and without the paths and names of imported types. -/
def Ty.erase : Ty → Ty
  | .basic k => .basic k
  | .named id args => .named id (Ty.erases args)
  | .imported _ _ underlying => .imported "" "" (Ty.eraseOpt underlying)
  | .param name => .param name
  | .pointer elem => .pointer elem.erase
  | .slice elem => .slice elem.erase
  | .array _ elem => .array (.known 0) elem.erase
  | .map key value => .map key.erase value.erase
  | .chan dir elem => .chan dir elem.erase
  | .func sig => .func sig.erase
  | .struct fields => .struct (Field.erases fields)
  | .interface iface => .interface iface.erase
  | .invalid => .invalid

/-- The same in each type of a list. -/
def Ty.erases : List Ty → List Ty
  | [] => []
  | t :: ts => t.erase :: Ty.erases ts

/-- The same in an optional type. -/
def Ty.eraseOpt : Option Ty → Option Ty
  | none => none
  | some t => some t.erase

/-- The same in each variable of a list. -/
def Var.erases : List Var → List Var
  | [] => []
  | ⟨name, type⟩ :: vs => ⟨name, type.erase⟩ :: Var.erases vs

/-- The same in the receiver of a signature. -/
def Var.eraseOpt : Option Var → Option Var
  | none => none
  | some ⟨name, type⟩ => some ⟨name, type.erase⟩

/-- The same in each type parameter of a list. -/
def TypeParam.erases : List TypeParam → List TypeParam
  | [] => []
  | ⟨name, constraint⟩ :: ps => ⟨name, constraint.erase⟩ :: TypeParam.erases ps

/-- The same in a signature. -/
def Signature.erase : Signature → Signature
  | ⟨receiver, typeParams, params, results, variadic⟩ =>
    ⟨Var.eraseOpt receiver, TypeParam.erases typeParams, Var.erases params, Var.erases results,
      variadic⟩

/-- The same in each field of a list. -/
def Field.erases : List Field → List Field
  | [] => []
  | ⟨name, type, embedded, tag⟩ :: fs => ⟨name, type.erase, embedded, tag⟩ :: Field.erases fs

/-- The same in each method of a list. -/
def Method.erases : List Method → List Method
  | [] => []
  | ⟨name, sig⟩ :: ms => ⟨name, sig.erase⟩ :: Method.erases ms

/-- The same in each term of a list. -/
def Term.erases : List Term → List Term
  | [] => []
  | ⟨tilde, type⟩ :: ts => ⟨tilde, type.erase⟩ :: Term.erases ts

/-- The same in each embedded element of a list. -/
def Embedded.erases : List Embedded → List Embedded
  | [] => []
  | .type t :: es => .type t.erase :: Embedded.erases es
  | .union ts :: es => .union (Term.erases ts) :: Embedded.erases es

/-- The same in an interface. -/
def Interface.erase : Interface → Interface
  | ⟨methods, embeddeds, comparable⟩ =>
    ⟨Method.erases methods, Embedded.erases embeddeds, comparable⟩

end

/-! ## Single parts -/

/-- The variable with its type erased. -/
def Var.erase (v : Var) : Var :=
  ⟨v.name, v.type.erase⟩

/-- The type parameter with its constraint erased. -/
def TypeParam.erase (p : TypeParam) : TypeParam :=
  ⟨p.name, p.constraint.erase⟩

/-- The field with its type erased. -/
def Field.erase (field : Field) : Field :=
  { field with type := field.type.erase }

/-- The method with its signature erased. -/
def Method.erase (m : Method) : Method :=
  ⟨m.name, m.signature.erase⟩

/-- The embedded element with its types erased. -/
def Embedded.erase : Embedded → Embedded
  | .type t => .type t.erase
  | .union ts => .union (Term.erases ts)

/-- The entry with its types erased. -/
def NamedType.erase (entry : NamedType) : NamedType :=
  { entry with
    typeParams := TypeParam.erases entry.typeParams
    underlying := Ty.eraseOpt entry.underlying }

/-- The functions on lists apply those on single parts to each part. -/
theorem Ty.erases_eq_map (ts : List Ty) : Ty.erases ts = ts.map Ty.erase := by
  induction ts with
  | nil => rfl
  | cons t ts ih => rw [Ty.erases, ih, List.map_cons]

theorem Ty.eraseOpt_eq_map (o : Option Ty) : Ty.eraseOpt o = o.map Ty.erase := by
  cases o <;> rfl

theorem Var.erases_eq_map (vs : List Var) : Var.erases vs = vs.map Var.erase := by
  induction vs with
  | nil => rfl
  | cons v vs ih =>
    cases v
    rw [Var.erases, ih, List.map_cons, Var.erase]

theorem TypeParam.erases_eq_map (ps : List TypeParam) :
    TypeParam.erases ps = ps.map TypeParam.erase := by
  induction ps with
  | nil => rfl
  | cons p ps ih =>
    cases p
    rw [TypeParam.erases, ih, List.map_cons, TypeParam.erase]

theorem Field.erases_eq_map (fs : List Field) : Field.erases fs = fs.map Field.erase := by
  induction fs with
  | nil => rfl
  | cons field fs ih =>
    cases field
    rw [Field.erases, ih, List.map_cons, Field.erase]

theorem Method.erases_eq_map (ms : List Method) : Method.erases ms = ms.map Method.erase := by
  induction ms with
  | nil => rfl
  | cons m ms ih =>
    cases m
    rw [Method.erases, ih, List.map_cons, Method.erase]

theorem Embedded.erases_eq_map (es : List Embedded) :
    Embedded.erases es = es.map Embedded.erase := by
  induction es with
  | nil => rfl
  | cons e es ih =>
    cases e <;> rw [Embedded.erases, ih, List.map_cons, Embedded.erase]

/-! ## Replacing type parameters -/

/-- What the type parameters stand for, erased. -/
def Binding.erase (bind : Binding) : Binding :=
  fun name => (bind name).map Ty.erase

section

variable (bind : Binding)

mutual

/-- Type parameters may be replaced before lengths and names are erased or afterwards. -/
theorem Ty.erase_subst : ∀ t : Ty, (t.subst bind).erase = t.erase.subst bind.erase
  | .basic _ | .imported .. | .invalid => rfl
  | .named id args => by rw [Ty.subst, Ty.erase, Ty.erase, Ty.subst, Ty.erases_substs args]
  | .param name => by
    rw [Ty.subst, Ty.erase, Ty.subst, Binding.erase]
    cases bind name <;> rfl
  | .pointer elem => by rw [Ty.subst, Ty.erase, Ty.erase, Ty.subst, Ty.erase_subst elem]
  | .slice elem => by rw [Ty.subst, Ty.erase, Ty.erase, Ty.subst, Ty.erase_subst elem]
  | .array _ elem => by rw [Ty.subst, Ty.erase, Ty.erase, Ty.subst, Ty.erase_subst elem]
  | .map key value => by
    rw [Ty.subst, Ty.erase, Ty.erase, Ty.subst, Ty.erase_subst key, Ty.erase_subst value]
  | .chan _ elem => by rw [Ty.subst, Ty.erase, Ty.erase, Ty.subst, Ty.erase_subst elem]
  | .func sig => by rw [Ty.subst, Ty.erase, Ty.erase, Ty.subst, Signature.erase_subst sig]
  | .struct fields => by rw [Ty.subst, Ty.erase, Ty.erase, Ty.subst, Field.erases_substs fields]
  | .interface iface => by
    rw [Ty.subst, Ty.erase, Ty.erase, Ty.subst, Interface.erase_subst iface]
termination_by structural t => t

theorem Ty.erases_substs : ∀ ts : List Ty,
    Ty.erases (Ty.substs bind ts) = Ty.substs bind.erase (Ty.erases ts)
  | [] => rfl
  | t :: ts => by
    rw [Ty.substs, Ty.erases, Ty.erases, Ty.substs, Ty.erase_subst t, Ty.erases_substs ts]
termination_by structural ts => ts

theorem Var.erases_substs : ∀ vs : List Var,
    Var.erases (Var.substs bind vs) = Var.substs bind.erase (Var.erases vs)
  | [] => rfl
  | ⟨_, type⟩ :: vs => by
    simp only [Var.substs, Var.subst, Var.erases, Ty.erase_subst type, Var.erases_substs vs]
termination_by structural vs => vs

theorem Var.eraseOpt_substOpt : ∀ v : Option Var,
    Var.eraseOpt (Var.substOpt bind v) = Var.substOpt bind.erase (Var.eraseOpt v)
  | none => rfl
  | some ⟨_, type⟩ => by
    simp only [Var.substOpt, Var.subst, Var.eraseOpt, Ty.erase_subst type]
termination_by structural v => v

theorem Signature.erase_subst : ∀ sig : Signature,
    (sig.subst bind).erase = sig.erase.subst bind.erase
  | ⟨receiver, _, params, results, _⟩ => by
    simp only [Signature.subst, Signature.erase, Var.eraseOpt_substOpt receiver,
      Var.erases_substs params, Var.erases_substs results]
termination_by structural sig => sig

theorem Field.erases_substs : ∀ fs : List Field,
    Field.erases (Field.substs bind fs) = Field.substs bind.erase (Field.erases fs)
  | [] => rfl
  | ⟨_, type, _, _⟩ :: fs => by
    simp only [Field.substs, Field.erases, Ty.erase_subst type, Field.erases_substs fs]
termination_by structural fs => fs

theorem Method.erases_substs : ∀ ms : List Method,
    Method.erases (Method.substs bind ms) = Method.substs bind.erase (Method.erases ms)
  | [] => rfl
  | ⟨_, sig⟩ :: ms => by
    simp only [Method.substs, Method.erases, Signature.erase_subst sig, Method.erases_substs ms]
termination_by structural ms => ms

theorem Term.erases_substs : ∀ ts : List Term,
    Term.erases (Term.substs bind ts) = Term.substs bind.erase (Term.erases ts)
  | [] => rfl
  | ⟨_, type⟩ :: ts => by
    simp only [Term.substs, Term.erases, Ty.erase_subst type, Term.erases_substs ts]
termination_by structural ts => ts

theorem Embedded.erases_substs : ∀ es : List Embedded,
    Embedded.erases (Embedded.substs bind es) = Embedded.substs bind.erase (Embedded.erases es)
  | [] => rfl
  | .type t :: es => by
    simp only [Embedded.substs, Embedded.erases, Ty.erase_subst t, Embedded.erases_substs es]
  | .union ts :: es => by
    simp only [Embedded.substs, Embedded.erases, Term.erases_substs ts, Embedded.erases_substs es]
termination_by structural es => es

theorem Interface.erase_subst : ∀ i : Interface,
    (i.subst bind).erase = i.erase.subst bind.erase
  | ⟨methods, embeddeds, _⟩ => by
    simp only [Interface.subst, Interface.erase, Method.erases_substs methods,
      Embedded.erases_substs embeddeds]
termination_by structural i => i

end

end

/-- A type parameter keeps its argument, erased. -/
theorem TypeParam.argument?_erases (ps : List TypeParam) (ts : List Ty) (name : String) :
    TypeParam.argument? (TypeParam.erases ps) (Ty.erases ts) name =
      (TypeParam.argument? ps ts name).map Ty.erase := by
  induction ps generalizing ts with
  | nil => rfl
  | cons p ps ih =>
    cases p
    cases ts with
    | nil => rfl
    | cons t ts =>
      simp only [TypeParam.erases, Ty.erases, TypeParam.argument?, ih]
      split <;> rfl

theorem Ty.erase_instantiate (ps : List TypeParam) (ts : List Ty) (type : Ty) :
    (type.instantiate ps ts).erase =
      type.erase.instantiate (TypeParam.erases ps) (Ty.erases ts) := by
  rw [Ty.instantiate, Ty.erase_subst, Ty.instantiate]
  congr 1
  funext name
  exact (TypeParam.argument?_erases ps ts name).symm

/-! ## Parts of what expressions mean -/

theorem Ty.isEmpty_erases (ts : List Ty) : (Ty.erases ts).isEmpty = ts.isEmpty := by
  cases ts <;> rfl

/-- The arguments of an imported type are text in its name, so nothing is left of them. -/
theorem Ty.erase_withArguments (t : Table) (args : List Ty) (type : Ty) :
    (type.withArguments t args).erase = type.erase := by
  cases type with
  | imported path name underlying =>
    rw [Ty.withArguments]
    split <;> rfl
  | _ => rfl

/-! ## Erasing as looking -/

/-- Erasing a compound is erasing the types in it. -/
theorem Signature.erase_eq_view (sig : Signature) : sig.erase = sig.view Ty.erase := by
  obtain ⟨receiver, typeParams, params, results, variadic⟩ := sig
  rw [Signature.erase, Signature.view, TypeParam.erases_eq_map, Var.erases_eq_map,
    Var.erases_eq_map]
  rcases receiver with _ | ⟨name, type⟩ <;> rfl

theorem Method.erase_eq_view : Method.erase = Method.view Ty.erase := by
  funext m
  rw [Method.erase, Method.view, Signature.erase_eq_view]

theorem Term.erases_eq_map (terms : List Term) :
    Term.erases terms = terms.map (Term.view Ty.erase) := by
  induction terms with
  | nil => rfl
  | cons term terms ih =>
    cases term
    rw [Term.erases, ih, List.map_cons, Term.view]

theorem Embedded.erase_eq_view : Embedded.erase = Embedded.view Ty.erase := by
  funext e
  cases e with
  | type t => rfl
  | union terms => rw [Embedded.erase, Embedded.view, Term.erases_eq_map]

theorem Interface.erase_eq_view (iface : Interface) : iface.erase = iface.view Ty.erase := by
  obtain ⟨methods, embeddeds, comparable⟩ := iface
  rw [Interface.erase, Interface.view, Method.erases_eq_map, Embedded.erases_eq_map,
    Method.erase_eq_view, Embedded.erase_eq_view]

theorem NamedType.erase_eq_view : NamedType.erase = NamedType.view Ty.erase := by
  funext entry
  rw [NamedType.erase, NamedType.view, TypeParam.erases_eq_map, Ty.eraseOpt_eq_map]
  rfl

/-! ## Tables -/

namespace Table

/-- The table with the types of its entries erased. -/
def erase (t : Table) : Table :=
  ⟨t.entries.map NamedType.erase⟩

theorem erase_eq_view : erase = view Ty.erase := by
  funext t
  rw [erase, view, NamedType.erase_eq_view]

@[simp] theorem size_erase (t : Table) : t.erase.size = t.size := by
  rw [erase_eq_view, size_view]

theorem typeParams_erase (t : Table) (id : Nat) :
    t.erase.typeParams id = TypeParam.erases (t.typeParams id) := by
  rw [erase_eq_view, typeParams_view, TypeParam.erases_eq_map]
  rfl

/-- Entries keep their places, and each its type parameters and its underlying type, erased. -/
theorem underlying?_erase (t : Table) (id : Nat) :
    t.erase.underlying? id = (t.underlying? id).map Ty.erase := by
  rw [erase_eq_view, underlying?_view]

theorem instance?_erase (t : Table) (id : Nat) (args : List Ty) :
    t.erase.instance? id (Ty.erases args) = (t.instance? id args).map Ty.erase := by
  simp only [instance?, underlying?_erase, Option.map_map, Ty.isEmpty_erases, typeParams_erase]
  congr 1
  funext type
  simp only [Function.comp]
  split
  · rfl
  · exact (Ty.erase_instantiate _ args type).symm

/-- The underlying type of what is left of a type is what is left of the underlying type. -/
theorem underlying_erase (t : Table) : ∀ type : Ty,
    t.erase.underlying type.erase = (t.underlying type).erase
  | .named id args => by
    rw [Ty.erase, underlying, underlying, t.instance?_erase id args]
    cases t.instance? id args <;> rfl
  | .imported _ _ none => rfl
  | .imported _ _ (some type) => t.underlying_erase type
  | .basic _ | .param _ | .pointer _ | .slice _ | .array .. | .map .. | .chan .. | .func _
  | .struct _ | .interface _ | .invalid => rfl
termination_by structural type => type

end Table

end GoSignatures

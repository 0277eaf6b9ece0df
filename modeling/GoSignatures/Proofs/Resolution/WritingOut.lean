import GoSignatures.Proofs.Resolution.Meaning
import GoSignatures.Proofs.Ty.Composing

/-!
# Writing out type parameters

In the right-hand side of a generic declaration the type parameters can be written out: type
expressions take their places. What is written out means what the right-hand side means under the
types that these expressions mean, as long as every type parameter can be seen in that meaning. One
that has become part of the name of an imported type is not seen, nor one that names an embedded
field.

* `TypeExpr.writeOut?` — a type expression with its type parameters written out
* `TypeExpr.Exposes` — all type parameters can be seen in what a type expression means
* `TypeExpr.meaning?_writeOut?` — what is written out means what the type expression means under
  the arguments
-/

namespace GoSignatures

/-- What type parameters are written out as. -/
abbrev Writing := String → Option TypeExpr

/-- A type argument as a type expression: a union with a tilde, or of several terms, stands in an
interface of its own. -/
def TypeArg.toExpr : TypeArg → TypeExpr
  | ⟨_, [.tilde inner]⟩ => .interface [.union [.tilde inner]]
  | ⟨_, [term]⟩ => term
  | ⟨_, terms⟩ => .interface [.union terms]

/-- The argument at the place of the first parameter called `name`, as a type expression. -/
def TypeArg.argument? : List String → List TypeArg → Writing
  | p :: ps, a :: as, name => if p = name then some a.toExpr else argument? ps as name
  | _, _, _ => none

section

variable (w : Writing)

/-- What a name is written out as, if it is a type parameter. -/
def TypeName.written? : TypeName → Option TypeExpr
  | plain name => w name.text
  | qualified _ _ => none

mutual

/-- A type expression with the type parameters written out. A type parameter cannot be written out
where it has type arguments itself, nor in an embedded field unless it stands for a name. -/
def TypeExpr.writeOut? : TypeExpr → Option TypeExpr
  | .named name args =>
    match name.written? w with
    | some expr => if args.isEmpty then some expr else none
    | none => return .named name (← TypeArg.writeOutAll? args)
  | .pointer elem => return .pointer (← elem.writeOut?)
  | .slice elem => return .slice (← elem.writeOut?)
  | .array length elem => return .array length (← elem.writeOut?)
  | .map key value => return .map (← key.writeOut?) (← value.writeOut?)
  | .chan dir elem => return .chan dir (← elem.writeOut?)
  | .func sig => return .func (← sig.writeOut?)
  | .struct fields => return .struct (← FieldDecl.writeOutAll? fields)
  | .interface elems => return .interface (← InterfaceElem.writeOutAll? elems)
  | .group inner => return .group (← inner.writeOut?)
  | .tilde inner => return .tilde (← inner.writeOut?)

/-- The terms of a union with the type parameters written out. -/
def TypeExpr.writeOutAll? : List TypeExpr → Option (List TypeExpr)
  | [] => return []
  | term :: terms => return (← term.writeOut?) :: (← TypeExpr.writeOutAll? terms)

/-- Type arguments with the type parameters written out. -/
def TypeArg.writeOutAll? : List TypeArg → Option (List TypeArg)
  | [] => return []
  | ⟨text, terms⟩ :: args =>
    return ⟨text, ← TypeExpr.writeOutAll? terms⟩ :: (← TypeArg.writeOutAll? args)

/-- Parameters and results with the type parameters written out. -/
def SignatureExpr.writeOut? : SignatureExpr → Option SignatureExpr
  | ⟨params, results⟩ => return ⟨← ParamDecl.writeOutAll? params, ← results.writeOut?⟩

/-- Results with the type parameters written out. -/
def ResultExpr.writeOut? : ResultExpr → Option ResultExpr
  | .list results => return .list (← ParamDecl.writeOutAll? results)
  | .single type => return .single (← type.writeOut?)

/-- The declarations of a parameter list with the type parameters written out. -/
def ParamDecl.writeOutAll? : List ParamDecl → Option (List ParamDecl)
  | [] => return []
  | ⟨names, type, variadic⟩ :: decls =>
    return ⟨names, ← type.writeOut?, variadic⟩ :: (← ParamDecl.writeOutAll? decls)

/-- The declarations of fields with the type parameters written out. -/
def FieldDecl.writeOutAll? : List FieldDecl → Option (List FieldDecl)
  | [] => return []
  | .named names type tag :: decls =>
    return .named names (← type.writeOut?) tag :: (← FieldDecl.writeOutAll? decls)
  | .embedded pointer name args tag :: decls =>
    match name.written? w with
    | some (.named other others) =>
      if args.isEmpty then
        return .embedded pointer other others tag :: (← FieldDecl.writeOutAll? decls)
      else none
    | some _ => none
    | none =>
      return .embedded pointer name (← TypeArg.writeOutAll? args) tag ::
        (← FieldDecl.writeOutAll? decls)

/-- The elements of an interface with the type parameters written out. -/
def InterfaceElem.writeOutAll? : List InterfaceElem → Option (List InterfaceElem)
  | [] => return []
  | .method name sig :: elems =>
    return .method name (← sig.writeOut?) :: (← InterfaceElem.writeOutAll? elems)
  | .union terms :: elems =>
    return .union (← TypeExpr.writeOutAll? terms) :: (← InterfaceElem.writeOutAll? elems)

end

end

/-! ## Where type parameters can be seen -/

section

variable (env : Env) (t : Table) (m : Meanings) (params : List String)

/-- Whether a name is a type parameter. -/
def TypeName.isParam : TypeName → Bool
  | plain name => params.contains name.text
  | qualified _ _ => false

/-- No type parameter occurs in the type arguments of an imported type, which become part of its
name. -/
def TypeName.Exposes (args : List TypeArg) : TypeName → Prop
  | plain _ => True
  | qualified _ _ =>
    ∀ types, TypeArg.meanings? env t m params args = some types →
      Ty.AllProper (.paramsIn []) types

mutual

/-- All type parameters can be seen in what a type expression means. -/
def TypeExpr.Exposes : TypeExpr → Prop
  | .named name args => name.Exposes env t m params args ∧ TypeArg.AllExpose args
  | .pointer elem => elem.Exposes
  | .slice elem => elem.Exposes
  | .array _ elem => elem.Exposes
  | .map key value => key.Exposes ∧ value.Exposes
  | .chan _ elem => elem.Exposes
  | .func sig => sig.Exposes
  | .struct fields => FieldDecl.AllExpose fields
  | .interface elems => InterfaceElem.AllExpose elems
  | .group inner => inner.Exposes
  | .tilde inner => inner.Exposes

/-- The same for each term of a union. -/
def TypeExpr.AllExpose : List TypeExpr → Prop
  | [] => True
  | term :: terms => term.Exposes ∧ TypeExpr.AllExpose terms

/-- The same for each type argument. -/
def TypeArg.AllExpose : List TypeArg → Prop
  | [] => True
  | ⟨_, terms⟩ :: args => TypeExpr.AllExpose terms ∧ TypeArg.AllExpose args

/-- The same for parameters and results. -/
def SignatureExpr.Exposes : SignatureExpr → Prop
  | ⟨params, results⟩ => ParamDecl.AllExpose params ∧ results.Exposes

/-- The same for results. -/
def ResultExpr.Exposes : ResultExpr → Prop
  | .list results => ParamDecl.AllExpose results
  | .single type => type.Exposes

/-- The same for each declaration of a parameter list. -/
def ParamDecl.AllExpose : List ParamDecl → Prop
  | [] => True
  | ⟨_, type, _⟩ :: decls => type.Exposes ∧ ParamDecl.AllExpose decls

/-- The same for each declaration of fields. An embedded field is called like its type, which may
not be a type parameter. -/
def FieldDecl.AllExpose : List FieldDecl → Prop
  | [] => True
  | .named _ type _ :: decls => type.Exposes ∧ FieldDecl.AllExpose decls
  | .embedded _ name args _ :: decls =>
    name.isParam params = false ∧ name.Exposes env t m params args ∧ TypeArg.AllExpose args ∧
      FieldDecl.AllExpose decls

/-- The same for each element of an interface. -/
def InterfaceElem.AllExpose : List InterfaceElem → Prop
  | [] => True
  | .method _ sig :: elems => sig.Exposes ∧ InterfaceElem.AllExpose elems
  | .union terms :: elems => TypeExpr.AllExpose terms ∧ InterfaceElem.AllExpose elems

end

end

/-! ## Replacing parameters in what is put together -/

section

variable (bind : Binding)

/-- Replacement in a method. -/
def Method.subst (m : Method) : Method :=
  { m with signature := m.signature.subst bind }

/-- Replacement in an embedded element. -/
def Embedded.subst : Embedded → Embedded
  | .type t => .type (t.subst bind)
  | .union ts => .union (Term.substs bind ts)

/-- Replacement in an element of an interface. -/
def ResolvedElem.subst : ResolvedElem → ResolvedElem :=
  Sum.map (Method.subst bind) (Embedded.subst bind)

theorem Method.substs_eq_map (ms : List Method) :
    Method.substs bind ms = ms.map (Method.subst bind) := by
  induction ms with
  | nil => rfl
  | cons m ms ih =>
    cases m
    simp [Method.substs, Method.subst, ih]

theorem Embedded.substs_eq_map (es : List Embedded) :
    Embedded.substs bind es = es.map (Embedded.subst bind) := by
  induction es with
  | nil => rfl
  | cons e es ih => cases e <;> simp [Embedded.substs, Embedded.subst, ih]

theorem Field.substs_eq_map (fs : List Field) :
    Field.substs bind fs = fs.map fun f => { f with type := f.type.subst bind } := by
  induction fs with
  | nil => rfl
  | cons f fs ih =>
    cases f
    simp [Field.substs, ih]

theorem Var.substs_ofNames (names : List String) (type : Ty) :
    Var.substs bind (Var.ofNames names type) = Var.ofNames names (type.subst bind) := by
  rw [Var.substs_eq_map, Var.ofNames, Var.ofNames]
  split
  · rfl
  · simp [Var.subst]

theorem Field.substs_ofNames (names : List String) (type : Ty) (tag : Option String) :
    Field.substs bind (Field.ofNames names type tag) =
      Field.ofNames names (type.subst bind) tag := by
  simp [Field.substs_eq_map, Field.ofNames]

/-- A union is replaced term by term; a single term stands for itself. -/
theorem Ty.subst_ofTerms : ∀ terms : List Term,
    (Ty.ofTerms terms).subst bind = Ty.ofTerms (Term.substs bind terms)
  | [] | [⟨false, _⟩] | ⟨false, _⟩ :: ⟨_, _⟩ :: _ | ⟨true, _⟩ :: _ => rfl

theorem Embedded.subst_ofTerms : ∀ terms : List Term,
    (Embedded.ofTerms terms).subst bind = Embedded.ofTerms (Term.substs bind terms)
  | [] | [⟨false, _⟩] | ⟨false, _⟩ :: ⟨_, _⟩ :: _ | ⟨true, _⟩ :: _ => rfl

/-- Replacing parameters keeps methods and embedded types apart. -/
theorem Interface.subst_ofElems (found : List ResolvedElem) :
    (Interface.ofElems (found.filterMap Sum.getLeft?) (found.filterMap Sum.getRight?)).subst bind =
      Interface.ofElems ((found.map (ResolvedElem.subst bind)).filterMap Sum.getLeft?)
        ((found.map (ResolvedElem.subst bind)).filterMap Sum.getRight?) := by
  rw [ResolvedElem.subst,
    Interface.ofElems_map (Method.subst bind) (Embedded.subst bind) fun _ => rfl, Interface.ofElems,
    Interface.subst, Method.substs_eq_map, Embedded.substs_eq_map]
  rfl

end

/-! ## What is written out means -/

/-- Type parameters, and no other names, are written out as type expressions that mean what they
stand for. -/
structure Writing.Means (env : Env) (t : Table) (m : Meanings) (params : List String) (w : Writing)
    (bind : Binding) : Prop where
  other : ∀ name, params.contains name = false → w name = none
  param : ∀ name, params.contains name = true → ∃ expr type, w name = some expr ∧
    (∀ inner, expr ≠ .tilde inner) ∧ expr.meaning? env t m [] = some type ∧ bind name = some type

variable {env : Env} {t : Table} {m : Meanings} {params : List String} {w : Writing}
  {bind : Binding}

/-- Only a type parameter has something written out for it. -/
theorem TypeName.written?_of_isParam_eq_false
    (hother : ∀ name, params.contains name = false → w name = none) {name : TypeName}
    (hname : name.isParam params = false) : name.written? w = none := by
  cases name with
  | plain name => exact hother name.text hname
  | qualified package name => rfl

theorem TypeExpr.termMeanings?_cons {term : TypeExpr} (hterm : ∀ inner, term ≠ .tilde inner)
    (terms : List TypeExpr) :
    TypeExpr.termMeanings? env t m params (term :: terms) =
      do return ⟨false, ← term.meaning? env t m params⟩ ::
        (← TypeExpr.termMeanings? env t m params terms) := by
  cases term with
  | tilde inner => exact absurd rfl (hterm inner)
  | _ => rfl

/-- A type parameter is written out where it has no type arguments. -/
theorem TypeExpr.of_writeOut?_of_isParam (hw : w.Means env t m params bind) {name : TypeName}
    {args : List TypeArg} {e : TypeExpr} (hname : name.isParam params = true)
    (hwrites : (TypeExpr.named name args).writeOut? w = some e) :
    ∃ param : Piece, name = .plain param ∧ args = [] ∧ params.contains param.text = true ∧
      w param.text = some e := by
  cases name with
  | qualified package name => cases hname
  | plain name =>
    obtain ⟨expr, -, hexpr, -⟩ := hw.param name.text hname
    simp only [TypeExpr.writeOut?, TypeName.written?, hexpr] at hwrites
    obtain ⟨hempty, hwrites⟩ := Option.ite_none_right_eq_some.mp hwrites
    exact ⟨name, rfl, List.isEmpty_iff.mp hempty, hname, hexpr.trans hwrites⟩

/-- What is written out has no tilde in front, unless there was one. -/
theorem TypeExpr.ne_tilde_of_writeOut? (hw : w.Means env t m params bind) {e e' : TypeExpr}
    (hwrites : e.writeOut? w = some e') (he : ∀ inner, e ≠ .tilde inner) (inner : TypeExpr) :
    e' ≠ .tilde inner := by
  cases e with
  | named name args =>
    cases hname : name.isParam params with
    | false =>
      rw [TypeExpr.writeOut?, TypeName.written?_of_isParam_eq_false hw.other hname] at hwrites
      obtain ⟨_, -, rfl⟩ := Option.of_return_eq_some hwrites
      nofun
    | true =>
      obtain ⟨param, -, -, hparam, hwritten⟩ := TypeExpr.of_writeOut?_of_isParam hw hname hwrites
      obtain ⟨expr, -, hexpr, htilde, -⟩ := hw.param param.text hparam
      cases hwritten.symm.trans hexpr
      exact htilde inner
  | tilde inner => exact absurd rfl (he inner)
  | map key value =>
    obtain ⟨_, _, -, -, rfl⟩ := Option.of_return₂_eq_some hwrites
    nofun
  | _ =>
    obtain ⟨_, -, rfl⟩ := Option.of_return_eq_some hwrites
    nofun

theorem ParamDecl.any_variadic_writeOutAll? {decls decls' : List ParamDecl}
    (hwrites : ParamDecl.writeOutAll? w decls = some decls') :
    decls'.any ParamDecl.variadic = decls.any ParamDecl.variadic := by
  induction decls generalizing decls' with
  | nil =>
    cases hwrites
    rfl
  | cons decl decls ih =>
    cases decl
    obtain ⟨_, _, -, hdecls, rfl⟩ := Option.of_return₂_eq_some hwrites
    rw [List.any_cons, List.any_cons, ih hdecls]

/-- A type is given as many arguments as before. -/
theorem TypeArg.length_writeOutAll? {args args' : List TypeArg}
    (hwrites : TypeArg.writeOutAll? w args = some args') : args'.length = args.length := by
  induction args generalizing args' with
  | nil =>
    cases hwrites
    rfl
  | cons arg args ih =>
    cases arg
    obtain ⟨_, _, -, hargs, rfl⟩ := Option.of_return₂_eq_some hwrites
    rw [List.length_cons, List.length_cons, ih hargs]

section

variable (hm : ∀ name type, m name = some type → type.Proper (.paramsIn []))
  (hw : w.Means env t m params bind)
include hm

/-- Where no type parameters are in force, no type parameter occurs in what a name means. -/
theorem Ty.closed_of_ofName? {name : String} {type : Ty}
    (h : Ty.ofName? env m [] name = some type) : type.Proper (.paramsIn []) := by
  have hparams : ∀ name ∈ ([] : List String), (Ty.Allowed.paramsIn []).param name := fun _ h => h
  rcases Ty.proper_of_ofName? trivial trivial hparams
    (fun _ type htype => Or.inr (hm name type htype)) h with ⟨id, rfl, -, -⟩ | hproper
  · exact ⟨trivial, trivial⟩
  · exact hproper

/-- A name that is not a type parameter means the same with its type arguments replaced, under the
replaced arguments. -/
theorem TypeName.meaning?_substs {name : TypeName} {args : List TypeArg} {types : List Ty}
    {type : Ty} (hname : name.isParam params = false) (hexposes : name.Exposes env t m params args)
    (htypes : TypeArg.meanings? env t m params args = some types)
    (h : name.meaning? env t m params types = some type) :
    name.meaning? env t m [] (Ty.substs bind types) = some (type.subst bind) := by
  cases name with
  | qualified package name =>
    obtain ⟨entry, hentry, rfl⟩ := Option.map_eq_some_iff.mp h
    have hclosed : ((env.importedType entry.path name.text).withArguments t types).Proper
        (.paramsIn []) := (env.proper_importedType entry.path name.text).withArguments t types
    rw [meaning?, hentry, Ty.substs_closed (hexposes types htypes), Ty.subst_closed hclosed]
    rfl
  | plain name =>
    have hparam : ¬ params.contains name.text = true := Bool.not_eq_true _ ▸ hname
    have hofName : Ty.ofName? env m params name.text = Ty.ofName? env m [] name.text := by
      simp only [Ty.ofName?, if_neg hparam, List.contains_nil, Bool.false_eq_true, if_false]
    simp only [meaning?, Ty.ofGenericName?, hofName] at h
    simp only [meaning?, Ty.ofGenericName?, Ty.substs_eq_map, List.isEmpty_map]
    split at h
    · next hempty => rw [if_pos hempty, h, Ty.subst_closed (Ty.closed_of_ofName? hm h)]
    · next hempty =>
      rw [if_neg hempty]
      obtain ⟨head, hhead, h⟩ := Option.bind_eq_some_iff.mp h
      rw [hhead, Option.bind_some]
      split at h
      · next id =>
        obtain ⟨htype, h⟩ := Option.ite_none_right_eq_some.mp h
        cases h
        rw [if_pos htype, Ty.subst, Ty.substs_eq_map]
      · next hnot =>
        obtain ⟨halias, h⟩ := Option.ite_none_right_eq_some.mp h
        cases h
        rw [Ty.subst_closed (Ty.closed_of_ofName? hm hhead)]
        cases type with
        | named id as =>
          cases as with
          | nil => exact absurd rfl (hnot id)
          | cons a as => exact if_pos halias
        | _ => exact if_pos halias

include hw

-- each lemma of the block has the assumptions for the others, which the linter does not see
set_option linter.unusedSectionVars false in
mutual

/-- What a type expression is written out as means what the expression means, with its type
parameters replaced. -/
theorem TypeExpr.meaning?_writeOut? : ∀ (e : TypeExpr) {e' : TypeExpr} {type : Ty},
    e.Exposes env t m params → e.meaning? env t m params = some type → e.writeOut? w = some e' →
      e'.meaning? env t m [] = some (type.subst bind)
  | .named name args, e', type, hexposes, hmeans, hwrites => by
    obtain ⟨types, htypes, hmeans⟩ := Option.bind_eq_some_iff.mp hmeans
    cases hname : name.isParam params with
    | false =>
      rw [TypeExpr.writeOut?, TypeName.written?_of_isParam_eq_false hw.other hname] at hwrites
      obtain ⟨args', hargs', rfl⟩ := Option.of_return_eq_some hwrites
      have hargs := TypeArg.meanings?_writeOutAll? args hexposes.2 htypes hargs'
      rw [TypeExpr.meaning?, hargs]
      exact TypeName.meaning?_substs hm hname hexposes.1 htypes hmeans
    | true =>
      obtain ⟨param, rfl, rfl, hparam, hwritten⟩ :=
        TypeExpr.of_writeOut?_of_isParam hw hname hwrites
      obtain ⟨expr, meant, hexpr, -, hmeant, hbind⟩ := hw.param param.text hparam
      cases hwritten.symm.trans hexpr
      cases htypes
      rw [TypeName.meaning?, if_pos List.isEmpty_nil, Ty.ofName?, if_pos hparam] at hmeans
      cases hmeans
      rw [hmeant, Ty.subst, hbind]
      rfl
  | .pointer elem, e', type, hexposes, hmeans, hwrites => by
    obtain ⟨_, helem, rfl⟩ := Option.of_return_eq_some hmeans
    obtain ⟨_, helem', rfl⟩ := Option.of_return_eq_some hwrites
    exact Option.return_eq_some (TypeExpr.meaning?_writeOut? elem hexposes helem helem')
  | .slice elem, e', type, hexposes, hmeans, hwrites => by
    obtain ⟨_, helem, rfl⟩ := Option.of_return_eq_some hmeans
    obtain ⟨_, helem', rfl⟩ := Option.of_return_eq_some hwrites
    exact Option.return_eq_some (TypeExpr.meaning?_writeOut? elem hexposes helem helem')
  | .array _ elem, e', type, hexposes, hmeans, hwrites => by
    obtain ⟨_, helem, rfl⟩ := Option.of_return_eq_some hmeans
    obtain ⟨_, helem', rfl⟩ := Option.of_return_eq_some hwrites
    exact Option.return_eq_some (TypeExpr.meaning?_writeOut? elem hexposes helem helem')
  | .map key value, e', type, hexposes, hmeans, hwrites => by
    obtain ⟨_, _, hkey, hvalue, rfl⟩ := Option.of_return₂_eq_some hmeans
    obtain ⟨_, _, hkey', hvalue', rfl⟩ := Option.of_return₂_eq_some hwrites
    exact Option.return₂_eq_some (TypeExpr.meaning?_writeOut? key hexposes.1 hkey hkey')
      (TypeExpr.meaning?_writeOut? value hexposes.2 hvalue hvalue')
  | .chan _ elem, e', type, hexposes, hmeans, hwrites => by
    obtain ⟨_, helem, rfl⟩ := Option.of_return_eq_some hmeans
    obtain ⟨_, helem', rfl⟩ := Option.of_return_eq_some hwrites
    exact Option.return_eq_some (TypeExpr.meaning?_writeOut? elem hexposes helem helem')
  | .func sig, e', type, hexposes, hmeans, hwrites => by
    obtain ⟨_, hsig, rfl⟩ := Option.of_return_eq_some hmeans
    obtain ⟨_, hsig', rfl⟩ := Option.of_return_eq_some hwrites
    exact Option.return_eq_some (SignatureExpr.meaning?_writeOut? sig hexposes hsig hsig')
  | .struct fields, e', type, hexposes, hmeans, hwrites => by
    obtain ⟨_, hfields, rfl⟩ := Option.of_return_eq_some hmeans
    obtain ⟨_, hfields', rfl⟩ := Option.of_return_eq_some hwrites
    exact Option.return_eq_some
      (FieldDecl.meanings?_writeOutAll? fields hexposes hfields hfields')
  | .interface elems, e', type, hexposes, hmeans, hwrites => by
    obtain ⟨found, helems, rfl⟩ := Option.of_return_eq_some hmeans
    obtain ⟨_, helems', rfl⟩ := Option.of_return_eq_some hwrites
    rw [Ty.subst, Interface.subst_ofElems]
    exact Option.return_eq_some
      (InterfaceElem.meanings?_writeOutAll? elems hexposes helems helems')
  | .group inner, e', type, hexposes, hmeans, hwrites => by
    obtain ⟨inner', hinner', rfl⟩ := Option.of_return_eq_some hwrites
    have hinner := TypeExpr.meaning?_writeOut? inner hexposes hmeans hinner'
    exact hinner
  | .tilde inner, e', type, hexposes, hmeans, hwrites => by
    obtain ⟨_, hinner, rfl⟩ := Option.of_return_eq_some hmeans
    obtain ⟨_, hinner', rfl⟩ := Option.of_return_eq_some hwrites
    exact Option.return_eq_some (TypeExpr.meaning?_writeOut? inner hexposes hinner hinner')
termination_by structural e => e

theorem TypeExpr.termMeanings?_writeOutAll? :
    ∀ (terms : List TypeExpr) {terms' : List TypeExpr} {found : List Term},
      TypeExpr.AllExpose env t m params terms →
        TypeExpr.termMeanings? env t m params terms = some found →
          TypeExpr.writeOutAll? w terms = some terms' →
            TypeExpr.termMeanings? env t m [] terms' = some (Term.substs bind found)
  | [], terms', found, _, hmeans, hwrites => by
    cases hmeans
    cases hwrites
    rfl
  | term :: terms, terms', found, hexposes, hmeans, hwrites => by
    obtain ⟨term', others', hterm', hothers', rfl⟩ := Option.of_return₂_eq_some hwrites
    have hterm : ∀ {type}, term.meaning? env t m params = some type →
        term'.meaning? env t m [] = some (type.subst bind) :=
      fun h => TypeExpr.meaning?_writeOut? term hexposes.1 h hterm'
    have hothers : ∀ {found}, TypeExpr.termMeanings? env t m params terms = some found →
        TypeExpr.termMeanings? env t m [] others' = some (Term.substs bind found) :=
      fun h => TypeExpr.termMeanings?_writeOutAll? terms hexposes.2 h hothers'
    cases term
    case tilde inner =>
      obtain ⟨_, _, hinner, hrest, rfl⟩ := Option.of_return₂_eq_some hmeans
      obtain ⟨_, hinner', rfl⟩ := Option.of_return_eq_some hterm'
      exact Option.return₂_eq_some
        (TypeExpr.meaning?_writeOut? inner hexposes.1 hinner hinner') (hothers hrest)
    all_goals
      obtain ⟨_, _, hfirst, hrest, rfl⟩ := Option.of_return₂_eq_some hmeans
      rw [TypeExpr.termMeanings?_cons (TypeExpr.ne_tilde_of_writeOut? hw hterm' (by simp))]
      exact Option.return₂_eq_some (hterm hfirst) (hothers hrest)
termination_by structural terms => terms

theorem TypeArg.meanings?_writeOutAll? :
    ∀ (args : List TypeArg) {args' : List TypeArg} {types : List Ty},
      TypeArg.AllExpose env t m params args → TypeArg.meanings? env t m params args = some types →
        TypeArg.writeOutAll? w args = some args' →
          TypeArg.meanings? env t m [] args' = some (Ty.substs bind types)
  | [], args', types, _, hmeans, hwrites => by
    cases hmeans
    cases hwrites
    rfl
  | ⟨_, terms⟩ :: args, args', types, hexposes, hmeans, hwrites => by
    obtain ⟨_, _, hterms, hargs, rfl⟩ := Option.of_return₂_eq_some hmeans
    obtain ⟨_, _, hterms', hargs', rfl⟩ := Option.of_return₂_eq_some hwrites
    rw [Ty.substs, Ty.subst_ofTerms]
    exact Option.return₂_eq_some
      (TypeExpr.termMeanings?_writeOutAll? terms hexposes.1 hterms hterms')
      (TypeArg.meanings?_writeOutAll? args hexposes.2 hargs hargs')
termination_by structural args => args

theorem SignatureExpr.meaning?_writeOut? :
    ∀ (sig : SignatureExpr) {sig' : SignatureExpr} {signature : Signature},
      sig.Exposes env t m params → sig.meaning? env t m params = some signature →
        sig.writeOut? w = some sig' →
          sig'.meaning? env t m [] = some (signature.subst bind)
  | ⟨decls, results⟩, sig', signature, hexposes, hmeans, hwrites => by
    obtain ⟨_, _, hdecls, hresults, rfl⟩ := Option.of_return₂_eq_some hmeans
    obtain ⟨_, _, hdecls', hresults', rfl⟩ := Option.of_return₂_eq_some hwrites
    rw [Signature.subst, ← ParamDecl.any_variadic_writeOutAll? hdecls']
    exact Option.return₂_eq_some
      (ParamDecl.meanings?_writeOutAll? decls hexposes.1 hdecls hdecls')
      (ResultExpr.meaning?_writeOut? results hexposes.2 hresults hresults')
termination_by structural sig => sig

theorem ResultExpr.meaning?_writeOut? :
    ∀ (results : ResultExpr) {results' : ResultExpr} {vars : List Var},
      results.Exposes env t m params → results.meaning? env t m params = some vars →
        results.writeOut? w = some results' →
          results'.meaning? env t m [] = some (Var.substs bind vars)
  | .list decls, results', vars, hexposes, hmeans, hwrites => by
    obtain ⟨_, hdecls', rfl⟩ := Option.of_return_eq_some hwrites
    exact ParamDecl.meanings?_writeOutAll? decls hexposes hmeans hdecls'
  | .single type, results', vars, hexposes, hmeans, hwrites => by
    obtain ⟨_, htype, rfl⟩ := Option.of_return_eq_some hmeans
    obtain ⟨_, htype', rfl⟩ := Option.of_return_eq_some hwrites
    exact Option.return_eq_some (TypeExpr.meaning?_writeOut? type hexposes htype htype')
termination_by structural results => results

theorem ParamDecl.meanings?_writeOutAll? :
    ∀ (decls : List ParamDecl) {decls' : List ParamDecl} {vars : List Var},
      ParamDecl.AllExpose env t m params decls →
        ParamDecl.meanings? env t m params decls = some vars →
          ParamDecl.writeOutAll? w decls = some decls' →
            ParamDecl.meanings? env t m [] decls' = some (Var.substs bind vars)
  | [], decls', vars, _, hmeans, hwrites => by
    cases hmeans
    cases hwrites
    rfl
  | ⟨names, type, variadic⟩ :: decls, decls', vars, hexposes, hmeans, hwrites => by
    obtain ⟨found, rest, htype, hdecls, rfl⟩ := Option.of_return₂_eq_some hmeans
    obtain ⟨_, _, htype', hdecls', rfl⟩ := Option.of_return₂_eq_some hwrites
    have hvars : Var.substs bind (Var.ofNames names (if variadic then .slice found else found)
          ++ rest) =
        Var.ofNames names (if variadic then .slice (found.subst bind) else found.subst bind) ++
          Var.substs bind rest := by
      rw [Var.substs_eq_map, List.map_append, ← Var.substs_eq_map, ← Var.substs_eq_map,
        Var.substs_ofNames]
      cases variadic <;> rfl
    rw [hvars]
    exact Option.return₂_eq_some
      (TypeExpr.meaning?_writeOut? type hexposes.1 htype htype')
      (ParamDecl.meanings?_writeOutAll? decls hexposes.2 hdecls hdecls')
termination_by structural decls => decls

theorem FieldDecl.meanings?_writeOutAll? :
    ∀ (decls : List FieldDecl) {decls' : List FieldDecl} {fields : List Field},
      FieldDecl.AllExpose env t m params decls →
        FieldDecl.meanings? env t m params decls = some fields →
          FieldDecl.writeOutAll? w decls = some decls' →
            FieldDecl.meanings? env t m [] decls' = some (Field.substs bind fields)
  | [], decls', fields, _, hmeans, hwrites => by
    cases hmeans
    cases hwrites
    rfl
  | .named names type tag :: decls, decls', fields, hexposes, hmeans, hwrites => by
    obtain ⟨_, _, htype, hdecls, rfl⟩ := Option.of_return₂_eq_some hmeans
    obtain ⟨_, _, htype', hdecls', rfl⟩ := Option.of_return₂_eq_some hwrites
    rw [Field.substs_eq_map, List.map_append, ← Field.substs_eq_map, ← Field.substs_eq_map,
      Field.substs_ofNames]
    exact Option.return₂_eq_some
      (TypeExpr.meaning?_writeOut? type hexposes.1 htype htype')
      (FieldDecl.meanings?_writeOutAll? decls hexposes.2 hdecls hdecls')
  | .embedded pointer name args tag :: decls, decls', fields, hexposes, hmeans, hwrites => by
    obtain ⟨hname, hexposesName, hexposesArgs, hexposesDecls⟩ := hexposes
    obtain ⟨types, htypes, hmeans⟩ := Option.bind_eq_some_iff.mp hmeans
    obtain ⟨found, _, htype, hdecls, rfl⟩ := Option.of_return₂_eq_some hmeans
    rw [FieldDecl.writeOutAll?, TypeName.written?_of_isParam_eq_false hw.other hname] at hwrites
    obtain ⟨args', _, hargs', hdecls', rfl⟩ := Option.of_return₂_eq_some hwrites
    have hargs := TypeArg.meanings?_writeOutAll? args hexposesArgs htypes hargs'
    have htype' : name.meaning? env t m [] (Ty.substs bind types) = some (found.subst bind) :=
      TypeName.meaning?_substs hm hname hexposesName htypes htype
    have hfield : (if pointer then Ty.pointer found else found).subst bind =
        if pointer then .pointer (found.subst bind) else found.subst bind := by
      cases pointer <;> rfl
    rw [FieldDecl.meanings?, hargs, Field.substs, hfield]
    exact Option.return₂_eq_some htype'
      (FieldDecl.meanings?_writeOutAll? decls hexposesDecls hdecls hdecls')
termination_by structural decls => decls

theorem InterfaceElem.meanings?_writeOutAll? :
    ∀ (elems : List InterfaceElem) {elems' : List InterfaceElem} {found : List ResolvedElem},
      InterfaceElem.AllExpose env t m params elems →
        InterfaceElem.meanings? env t m params elems = some found →
          InterfaceElem.writeOutAll? w elems = some elems' →
            InterfaceElem.meanings? env t m [] elems' = some (found.map (ResolvedElem.subst bind))
  | [], elems', found, _, hmeans, hwrites => by
    cases hmeans
    cases hwrites
    rfl
  | .method name sig :: elems, elems', found, hexposes, hmeans, hwrites => by
    obtain ⟨_, _, hsig, helems, rfl⟩ := Option.of_return₂_eq_some hmeans
    obtain ⟨_, _, hsig', helems', rfl⟩ := Option.of_return₂_eq_some hwrites
    exact Option.return₂_eq_some
      (SignatureExpr.meaning?_writeOut? sig hexposes.1 hsig hsig')
      (InterfaceElem.meanings?_writeOutAll? elems hexposes.2 helems helems')
  | .union terms :: elems, elems', found, hexposes, hmeans, hwrites => by
    obtain ⟨_, _, hterms, helems, rfl⟩ := Option.of_return₂_eq_some hmeans
    obtain ⟨_, _, hterms', helems', rfl⟩ := Option.of_return₂_eq_some hwrites
    rw [List.map_cons, ResolvedElem.subst, Sum.map_inr, Embedded.subst_ofTerms]
    exact Option.return₂_eq_some
      (TypeExpr.termMeanings?_writeOutAll? terms hexposes.1 hterms hterms')
      (InterfaceElem.meanings?_writeOutAll? elems hexposes.2 helems helems')
termination_by structural elems => elems

end

end

/-! ## The names that are used -/

/-- A name that is no type parameter is used whether or not parameters are in scope. -/
theorem TypeName.uses_of_isParam_eq_false {name : TypeName} (hname : name.isParam params = false)
    (count : Nat) : name.uses [] count = name.uses params count := by
  cases name with
  | qualified package name => rfl
  | plain name =>
    have hparam : ¬ params.contains name.text = true := Bool.not_eq_true _ ▸ hname
    rw [uses, uses, if_neg hparam, if_neg (by simp)]

section

variable {P : TypeUse → Prop} (hw : w.Means env t m params bind)
  (hwritten : ∀ name expr, w name = some expr → ∀ u ∈ expr.uses [], P u)
include hw hwritten

-- each lemma of the block has the assumptions for the others, which the linter does not see
set_option linter.unusedSectionVars false in
mutual

/-- What is written out uses the names that the type expression uses, and those that are used in
what takes the places of the type parameters. -/
theorem TypeExpr.uses_writeOut? : ∀ (e : TypeExpr) {e' : TypeExpr},
    (∀ u ∈ e.uses params, P u) → e.writeOut? w = some e' → ∀ u ∈ e'.uses [], P u
  | .named name args, e', huses, hwrites => by
    obtain ⟨hargs, hname⟩ := List.forall_mem_append.mp huses
    cases hparam : name.isParam params with
    | false =>
      rw [TypeExpr.writeOut?, TypeName.written?_of_isParam_eq_false hw.other hparam] at hwrites
      obtain ⟨args', hargs', rfl⟩ := Option.of_return_eq_some hwrites
      rw [TypeExpr.uses, TypeArg.length_writeOutAll? hargs',
        TypeName.uses_of_isParam_eq_false hparam]
      exact List.forall_mem_append.mpr ⟨TypeArg.allUses_writeOutAll? args hargs hargs', hname⟩
    | true =>
      obtain ⟨param, -, -, -, hexpr⟩ := TypeExpr.of_writeOut?_of_isParam hw hparam hwrites
      exact hwritten param.text e' hexpr
  | .pointer elem, e', huses, hwrites => by
    obtain ⟨_, helem', rfl⟩ := Option.of_return_eq_some hwrites
    exact (TypeExpr.uses_writeOut? elem huses helem' :)
  | .slice elem, e', huses, hwrites => by
    obtain ⟨_, helem', rfl⟩ := Option.of_return_eq_some hwrites
    exact (TypeExpr.uses_writeOut? elem huses helem' :)
  | .array _ elem, e', huses, hwrites => by
    obtain ⟨_, helem', rfl⟩ := Option.of_return_eq_some hwrites
    exact (TypeExpr.uses_writeOut? elem huses helem' :)
  | .map key value, e', huses, hwrites => by
    obtain ⟨hkey, hvalue⟩ := List.forall_mem_append.mp huses
    obtain ⟨_, _, hkey', hvalue', rfl⟩ := Option.of_return₂_eq_some hwrites
    exact List.forall_mem_append.mpr
      ⟨TypeExpr.uses_writeOut? key hkey hkey', TypeExpr.uses_writeOut? value hvalue hvalue'⟩
  | .chan _ elem, e', huses, hwrites => by
    obtain ⟨_, helem', rfl⟩ := Option.of_return_eq_some hwrites
    exact (TypeExpr.uses_writeOut? elem huses helem' :)
  | .func sig, e', huses, hwrites => by
    obtain ⟨_, hsig', rfl⟩ := Option.of_return_eq_some hwrites
    exact SignatureExpr.uses_writeOut? sig huses hsig'
  | .struct fields, e', huses, hwrites => by
    obtain ⟨_, hfields', rfl⟩ := Option.of_return_eq_some hwrites
    exact FieldDecl.allUses_writeOutAll? fields huses hfields'
  | .interface elems, e', huses, hwrites => by
    obtain ⟨_, helems', rfl⟩ := Option.of_return_eq_some hwrites
    exact InterfaceElem.allUses_writeOutAll? elems huses helems'
  | .group inner, e', huses, hwrites => by
    obtain ⟨_, hinner', rfl⟩ := Option.of_return_eq_some hwrites
    exact (TypeExpr.uses_writeOut? inner huses hinner' :)
  | .tilde inner, e', huses, hwrites => by
    obtain ⟨_, hinner', rfl⟩ := Option.of_return_eq_some hwrites
    exact (TypeExpr.uses_writeOut? inner huses hinner' :)
termination_by structural e => e

theorem TypeExpr.allUses_writeOutAll? : ∀ (terms : List TypeExpr) {terms' : List TypeExpr},
    (∀ u ∈ TypeExpr.allUses params terms, P u) → TypeExpr.writeOutAll? w terms = some terms' →
      ∀ u ∈ TypeExpr.allUses [] terms', P u
  | [], terms', _, hwrites => by
    cases hwrites
    exact List.forall_mem_nil _
  | term :: terms, terms', huses, hwrites => by
    obtain ⟨hfirst, hrest⟩ := List.forall_mem_append.mp huses
    obtain ⟨_, _, hterm', hterms', rfl⟩ := Option.of_return₂_eq_some hwrites
    exact List.forall_mem_append.mpr ⟨TypeExpr.uses_writeOut? term hfirst hterm',
      TypeExpr.allUses_writeOutAll? terms hrest hterms'⟩
termination_by structural terms => terms

theorem TypeArg.allUses_writeOutAll? : ∀ (args : List TypeArg) {args' : List TypeArg},
    (∀ u ∈ TypeArg.allUses params args, P u) → TypeArg.writeOutAll? w args = some args' →
      ∀ u ∈ TypeArg.allUses [] args', P u
  | [], args', _, hwrites => by
    cases hwrites
    exact List.forall_mem_nil _
  | ⟨_, terms⟩ :: args, args', huses, hwrites => by
    obtain ⟨hfirst, hrest⟩ := List.forall_mem_append.mp huses
    obtain ⟨_, _, hterms', hargs', rfl⟩ := Option.of_return₂_eq_some hwrites
    exact List.forall_mem_append.mpr ⟨TypeExpr.allUses_writeOutAll? terms hfirst hterms',
      TypeArg.allUses_writeOutAll? args hrest hargs'⟩
termination_by structural args => args

theorem SignatureExpr.uses_writeOut? : ∀ (sig : SignatureExpr) {sig' : SignatureExpr},
    (∀ u ∈ sig.uses params, P u) → sig.writeOut? w = some sig' → ∀ u ∈ sig'.uses [], P u
  | ⟨decls, results⟩, sig', huses, hwrites => by
    obtain ⟨hfirst, hrest⟩ := List.forall_mem_append.mp huses
    obtain ⟨_, _, hdecls', hresults', rfl⟩ := Option.of_return₂_eq_some hwrites
    exact List.forall_mem_append.mpr ⟨ParamDecl.allUses_writeOutAll? decls hfirst hdecls',
      ResultExpr.uses_writeOut? results hrest hresults'⟩
termination_by structural sig => sig

theorem ResultExpr.uses_writeOut? : ∀ (results : ResultExpr) {results' : ResultExpr},
    (∀ u ∈ results.uses params, P u) → results.writeOut? w = some results' →
      ∀ u ∈ results'.uses [], P u
  | .list decls, results', huses, hwrites => by
    obtain ⟨_, hdecls', rfl⟩ := Option.of_return_eq_some hwrites
    exact ParamDecl.allUses_writeOutAll? decls huses hdecls'
  | .single type, results', huses, hwrites => by
    obtain ⟨_, htype', rfl⟩ := Option.of_return_eq_some hwrites
    exact TypeExpr.uses_writeOut? type huses htype'
termination_by structural results => results

theorem ParamDecl.allUses_writeOutAll? : ∀ (decls : List ParamDecl) {decls' : List ParamDecl},
    (∀ u ∈ ParamDecl.allUses params decls, P u) → ParamDecl.writeOutAll? w decls = some decls' →
      ∀ u ∈ ParamDecl.allUses [] decls', P u
  | [], decls', _, hwrites => by
    cases hwrites
    exact List.forall_mem_nil _
  | ⟨_, type, _⟩ :: decls, decls', huses, hwrites => by
    obtain ⟨hfirst, hrest⟩ := List.forall_mem_append.mp huses
    obtain ⟨_, _, htype', hdecls', rfl⟩ := Option.of_return₂_eq_some hwrites
    exact List.forall_mem_append.mpr ⟨TypeExpr.uses_writeOut? type hfirst htype',
      ParamDecl.allUses_writeOutAll? decls hrest hdecls'⟩
termination_by structural decls => decls

theorem FieldDecl.allUses_writeOutAll? : ∀ (decls : List FieldDecl) {decls' : List FieldDecl},
    (∀ u ∈ FieldDecl.allUses params decls, P u) → FieldDecl.writeOutAll? w decls = some decls' →
      ∀ u ∈ FieldDecl.allUses [] decls', P u
  | [], decls', _, hwrites => by
    cases hwrites
    exact List.forall_mem_nil _
  | .named _ type _ :: decls, decls', huses, hwrites => by
    obtain ⟨hfirst, hrest⟩ := List.forall_mem_append.mp huses
    obtain ⟨_, _, htype', hdecls', rfl⟩ := Option.of_return₂_eq_some hwrites
    exact List.forall_mem_append.mpr ⟨TypeExpr.uses_writeOut? type hfirst htype',
      FieldDecl.allUses_writeOutAll? decls hrest hdecls'⟩
  | .embedded pointer name args tag :: decls, decls', huses, hwrites => by
    obtain ⟨hfield, hrest⟩ := List.forall_mem_append.mp huses
    obtain ⟨hargs, hname⟩ := List.forall_mem_append.mp hfield
    cases hparam : name.isParam params with
    | false =>
      rw [FieldDecl.writeOutAll?, TypeName.written?_of_isParam_eq_false hw.other hparam] at hwrites
      obtain ⟨args', _, hargs', hdecls', rfl⟩ := Option.of_return₂_eq_some hwrites
      rw [FieldDecl.allUses, TypeArg.length_writeOutAll? hargs',
        TypeName.uses_of_isParam_eq_false hparam]
      exact List.forall_mem_append.mpr
        ⟨List.forall_mem_append.mpr ⟨TypeArg.allUses_writeOutAll? args hargs hargs', hname⟩,
          FieldDecl.allUses_writeOutAll? decls hrest hdecls'⟩
    | true =>
      cases name with
      | qualified package name => cases hparam
      | plain name =>
        obtain ⟨expr, -, hexpr, -⟩ := hw.param name.text hparam
        simp only [FieldDecl.writeOutAll?, TypeName.written?, hexpr] at hwrites
        split at hwrites
        · next other others heq =>
          cases heq
          obtain ⟨-, hwrites⟩ := Option.ite_none_right_eq_some.mp hwrites
          obtain ⟨_, hdecls', rfl⟩ := Option.of_return_eq_some hwrites
          exact List.forall_mem_append.mpr ⟨hwritten name.text _ hexpr,
            FieldDecl.allUses_writeOutAll? decls hrest hdecls'⟩
        · cases hwrites
        · next heq => cases heq
termination_by structural decls => decls

theorem InterfaceElem.allUses_writeOutAll? :
    ∀ (elems : List InterfaceElem) {elems' : List InterfaceElem},
      (∀ u ∈ InterfaceElem.allUses params elems, P u) →
        InterfaceElem.writeOutAll? w elems = some elems' →
          ∀ u ∈ InterfaceElem.allUses [] elems', P u
  | [], elems', _, hwrites => by
    cases hwrites
    exact List.forall_mem_nil _
  | .method _ sig :: elems, elems', huses, hwrites => by
    obtain ⟨hfirst, hrest⟩ := List.forall_mem_append.mp huses
    obtain ⟨_, _, hsig', helems', rfl⟩ := Option.of_return₂_eq_some hwrites
    exact List.forall_mem_append.mpr ⟨SignatureExpr.uses_writeOut? sig hfirst hsig',
      InterfaceElem.allUses_writeOutAll? elems hrest helems'⟩
  | .union terms :: elems, elems', huses, hwrites => by
    obtain ⟨hfirst, hrest⟩ := List.forall_mem_append.mp huses
    obtain ⟨_, _, hterms', helems', rfl⟩ := Option.of_return₂_eq_some hwrites
    exact List.forall_mem_append.mpr ⟨TypeExpr.allUses_writeOutAll? terms hfirst hterms',
      InterfaceElem.allUses_writeOutAll? elems hrest helems'⟩
termination_by structural elems => elems

end

end

end GoSignatures

import GoSignatures.Proofs.Resolution.Entering

/-!
# What is recorded on the way

The methods of an interface are defined when the interface literal is resolved, so a step of
resolving records those of the expressions that it goes through, and those of the declarations that
it finds on the way. The account of a run is kept as a balance: what was recorded is what stands in
the expressions that were resolved, and in the declarations that were found meanwhile.

* `Outline` — a definition, as far as its declaration alone determines it
* `TypeExpr.elements` — the method elements of the interface literals in a type expression
* `Env.found` — the method elements of the declarations that have been found
* `Resolve.Records` — a step records what it should, the declarations found meanwhile included
* `TypeExpr.records`, `Env.enterType_records` — expressions and names
-/

namespace GoSignatures

open Resolve

/-! ## Outlines -/

/-- What kind of definition there is. -/
inductive Outline.Kind where
  /-- A function or method declared at file level. -/
  | function
  /-- A method element of an interface. -/
  | element
  | type
  | var
  | const
deriving DecidableEq, Repr

/-- A definition as far as its declaration alone determines it: its kind, and its name where it is
written. -/
structure Outline where
  kind : Outline.Kind
  name : Piece
deriving DecidableEq, Repr

/-- The outline of a definition. -/
def Definition.outline : Definition → Outline
  | .func f => ⟨if f.scope = .package then .function else .element, ⟨f.name, f.position⟩⟩
  | .type d => ⟨.type, ⟨d.name, d.position⟩⟩
  | .var d => ⟨.var, ⟨d.name, d.position⟩⟩
  | .const d => ⟨.const, ⟨d.name, d.position⟩⟩

/-- The outline of a method element. -/
def Outline.ofElement (name : Piece) : Outline :=
  ⟨.element, name⟩

/-- The outlines of what is defined so far. -/
def Progress.outlines (p : Progress) : List Outline :=
  p.definitions.map Definition.outline

/-! ## Method elements -/

mutual

/-- The method elements of the interface literals in a type expression, those in the signatures of
other method elements included. -/
def TypeExpr.elements : TypeExpr → List Piece
  | .named _ args => TypeArg.allElements args
  | .pointer elem => elem.elements
  | .slice elem => elem.elements
  | .array _ elem => elem.elements
  | .map key value => key.elements ++ value.elements
  | .chan _ elem => elem.elements
  | .func sig => sig.elements
  | .struct fields => FieldDecl.allElements fields
  | .interface elems => InterfaceElem.allElements elems
  | .group inner => inner.elements
  | .tilde inner => inner.elements

/-- The method elements in the terms of a union. -/
def TypeExpr.allElements : List TypeExpr → List Piece
  | [] => []
  | term :: terms => term.elements ++ TypeExpr.allElements terms

/-- The method elements in type arguments. -/
def TypeArg.allElements : List TypeArg → List Piece
  | [] => []
  | ⟨_, terms⟩ :: args => TypeExpr.allElements terms ++ TypeArg.allElements args

/-- The method elements in parameters and results. -/
def SignatureExpr.elements : SignatureExpr → List Piece
  | ⟨decls, results⟩ => ParamDecl.allElements decls ++ results.elements

/-- The method elements in results. -/
def ResultExpr.elements : ResultExpr → List Piece
  | .list results => ParamDecl.allElements results
  | .single type => type.elements

/-- The method elements in the declarations of a parameter list. -/
def ParamDecl.allElements : List ParamDecl → List Piece
  | [] => []
  | ⟨_, type, _⟩ :: decls => type.elements ++ ParamDecl.allElements decls

/-- The method elements in the declarations of fields. -/
def FieldDecl.allElements : List FieldDecl → List Piece
  | [] => []
  | .named _ type _ :: decls => type.elements ++ FieldDecl.allElements decls
  | .embedded _ _ args _ :: decls => TypeArg.allElements args ++ FieldDecl.allElements decls

/-- The method elements in the elements of an interface, and these elements themselves. -/
def InterfaceElem.allElements : List InterfaceElem → List Piece
  | [] => []
  | .method name sig :: elems =>
    sig.elements ++ name :: InterfaceElem.allElements elems
  | .union terms :: elems => TypeExpr.allElements terms ++ InterfaceElem.allElements elems

end

/-- The method elements in the constraints of type parameters. -/
def TypeParamDecl.allElements (decls : List TypeParamDecl) : List Piece :=
  decls.flatMap fun decl => TypeExpr.allElements decl.constraint

/-- The method elements in a type declaration that its resolution goes through. The type parameters
of another name for a type are passed over. -/
def TypeSpec.elements (spec : TypeSpec) : List Piece :=
  (if spec.isAlias then [] else TypeParamDecl.allElements spec.typeParams) ++ spec.type.elements

/-- The method elements in the declaration of a type name. -/
def FileScope.elementsOf (scope : FileScope) (name : String) : List Piece :=
  ((scope.spec? name).map TypeSpec.elements).getD []

theorem FileScope.elementsOf_eq {scope : FileScope} {name : String} {spec : TypeSpec}
    (h : scope.lookup name = some (.type spec)) : scope.elementsOf name = spec.elements := by
  rw [elementsOf, spec?_eq h, Option.map_some, Option.getD_some]

/-! ## The balance of a step -/

/-- The names that have been found: those of the entered types, and the other names for types, each
as often as its declaration was resolved. -/
def Progress.foundNames (p : Progress) : List String :=
  p.entered.map (fun e => e.name.text) ++ p.aliases.map Prod.fst

/-- The method elements of the declarations that have been found. -/
def Env.found (env : Env) (p : Progress) : List Outline :=
  (p.foundNames.flatMap env.scope.elementsOf).map .ofElement

/-- Between two moments of a run the expected outlines are recorded, and with them those of the
declarations that are found meanwhile. -/
def Env.Balanced (env : Env) (expected : List Outline) (p q : Progress) : Prop :=
  ∀ o, q.outlines.count o + (env.found p).count o =
    p.outlines.count o + expected.count o + (env.found q).count o

/-- A step that succeeds keeps `I`, and it records the expected outlines, besides those of the
declarations that it finds. -/
def Resolve.Records {α : Type} (env : Env) (I : Progress → Prop) (expected : List Outline)
    (x : Resolve α) : Prop :=
  ∀ p a q, I p → x p = .ok (a, q) → I q ∧ env.Balanced expected p q

variable {env : Env} {I : Progress → Prop} {α β γ : Type} {os os' : List Outline}

namespace Env.Balanced

variable {p q r : Progress}

theorem of_same (hdefinitions : q.definitions = p.definitions)
    (hnames : q.foundNames = p.foundNames) : env.Balanced [] p q := by
  intro o
  simp only [Progress.outlines, Env.found, hdefinitions, hnames, List.count_nil]
  omega

theorem trans (h : env.Balanced os p q) (h' : env.Balanced os' q r) :
    env.Balanced (os ++ os') p r := by
  intro o
  have hfirst := h o
  have hsecond := h' o
  rw [List.count_append]
  omega

theorem define (p : Progress) (d : Definition) : env.Balanced [d.outline] p (p.define d) := by
  intro o
  have houtlines : (p.define d).outlines = p.outlines ++ [d.outline] := by
    simp [Progress.outlines, Progress.define]
  have hfound : env.found (p.define d) = env.found p := rfl
  rw [houtlines, hfound, List.count_append]

end Env.Balanced

namespace Resolve.Records

theorem pure {a : α} : Records env I [] (Pure.pure a : Resolve α) := by
  intro p b q hp hrun
  obtain ⟨-, rfl⟩ := pure_eq_ok_iff.mp hrun
  exact ⟨hp, .of_same rfl rfl⟩

theorem fail {place : Position} {cause : ResolveCause} :
    Records env I os (env.fail place cause : Resolve α) := by
  intro p a q hp hrun
  exact absurd hrun fail_ne_ok

theorem bind {x : Resolve α} {f : α → Resolve β} (hx : Records env I os x)
    (hf : ∀ a, Records env I os' (f a)) : Records env I (os ++ os') (x >>= f) := by
  intro p b q hp hrun
  obtain ⟨a, p₁, hfirst, hrest⟩ := bind_eq_ok_iff.mp hrun
  obtain ⟨hp₁, hbalance⟩ := hx p a p₁ hp hfirst
  obtain ⟨hq, hbalance'⟩ := hf a p₁ b q hp₁ hrest
  exact ⟨hq, hbalance.trans hbalance'⟩

theorem map (f : α → β) {x : Resolve α} (hx : Records env I os x) :
    Records env I os (do return f (← x)) := by
  rw [← List.append_nil os]
  exact hx.bind fun _ => .pure

theorem map₂ (f : α → β → γ) {x : Resolve α} {y : Resolve β} {ms ms' : List Piece}
    (hx : Records env I (ms.map .ofElement) x) (hy : Records env I (ms'.map .ofElement) y) :
    Records env I ((ms ++ ms').map .ofElement) (do return f (← x) (← y)) := by
  rw [List.map_append]
  exact hx.bind fun _ => hy.map _

/-- A step may look at the progress. -/
theorem get {f : Progress → Resolve α} (hf : ∀ p, Records env I os (f p)) :
    Records env I os ((MonadState.get : Resolve Progress) >>= f) := by
  intro p a q hp hrun
  exact hf p p a q hp hrun

/-- A check that ends the run or leaves the result as it is records nothing. -/
theorem check {x : Resolve α} {f : α → Resolve β} (hx : Records env I os x)
    (hf : ∀ a, Records env I [] (f a)) : Records env I os (x >>= f) := by
  rw [← List.append_nil os]
  exact hx.bind hf

end Resolve.Records

/-! ## Expressions -/

section

variable {enter : EnterType} {params : List String} {Q : String → Prop}
  (hdefine : ∀ p f, I p → I (p.define (.func f)))
  (henter : ∀ name : Piece, Q name.text → Records env I [] (enter name))
include henter

theorem Ty.ofName_records {name : Piece} (hname : params.contains name.text = false → Q name.text) :
    Records env I [] (Ty.ofName env enter params name) := by
  unfold Ty.ofName
  split
  · exact .pure
  · next hparam =>
    split
    · exact henter name (hname (by simpa using hparam))
    · exact .fail
    · split
      · exact .pure
      · split
        · exact .fail
        · split
          · exact .pure
          · exact .fail

theorem TypeName.resolve_records (name : TypeName) {count : Nat}
    (hname : ∀ u ∈ name.uses params count, Q u.1) (args : List Ty) :
    Records env I [] (name.resolve env enter params args) := by
  cases name with
  | qualified package name =>
    simp only [resolve, Ty.ofQualifiedName]
    split
    · exact .get fun _ => .pure
    · exact .fail
  | plain name =>
    have huse : params.contains name.text = false → Q name.text := fun hparam =>
      hname (name.text, count) (by simpa [uses] using hparam)
    simp only [resolve]
    split
    · refine .check (Ty.ofName_records henter huse) fun type => ?_
      split
      · refine .get fun p => ?_
        dsimp only
        split
        · exact .fail
        · exact .pure
      · exact .pure
    · refine .check (Ty.ofName_records henter huse) fun type => ?_
      split
      · refine .get fun p => ?_
        dsimp only
        split
        · exact .pure
        · exact .fail
      · split
        · exact .pure
        · exact .fail

include hdefine

-- each lemma of the block has the assumptions for the others, which the linter does not see
set_option linter.unusedSectionVars false in
mutual

/-- A type expression that is resolved records its method elements. -/
theorem TypeExpr.records : ∀ e : TypeExpr, (∀ u ∈ e.uses params, Q u.1) →
    Records env I (e.elements.map .ofElement) (e.resolve env enter params)
  | .named name args, hQ => by
    obtain ⟨hargs, hname⟩ := List.forall_mem_append.mp hQ
    exact .check (TypeArg.records args hargs) (TypeName.resolve_records henter name hname)
  | .pointer elem, hQ => (TypeExpr.records elem hQ).map Ty.pointer
  | .slice elem, hQ => (TypeExpr.records elem hQ).map Ty.slice
  | .array length elem, hQ => (TypeExpr.records elem hQ).map (Ty.array (length.arrayLen env.scope))
  | .map key value, hQ => by
    obtain ⟨hkey, hvalue⟩ := List.forall_mem_append.mp hQ
    exact (TypeExpr.records key hkey).map₂ Ty.map (TypeExpr.records value hvalue)
  | .chan dir elem, hQ => (TypeExpr.records elem hQ).map (Ty.chan dir)
  | .func sig, hQ => (SignatureExpr.records sig hQ).map Ty.func
  | .struct fields, hQ => (FieldDecl.records fields hQ).map Ty.struct
  | .interface elems, hQ =>
    (InterfaceElem.records elems hQ).map fun found : List ResolvedElem => Ty.interface
      (.ofElems (found.filterMap Sum.getLeft?) (found.filterMap Sum.getRight?))
  | .group inner, hQ => TypeExpr.records inner hQ
  | .tilde inner, hQ => (TypeExpr.records inner hQ).map fun type => Ty.union [⟨true, type⟩]
termination_by structural e => e

theorem TypeExpr.terms_records : ∀ terms : List TypeExpr,
    (∀ u ∈ TypeExpr.allUses params terms, Q u.1) →
      Records env I ((TypeExpr.allElements terms).map .ofElement)
        (TypeExpr.resolveTerms env enter params terms)
  | [], _ => .pure
  | term :: terms, hQ => by
    obtain ⟨hfirst, hrest⟩ := List.forall_mem_append.mp hQ
    have hterm : Records env I (term.elements.map .ofElement)
        (term.resolve env enter params) :=
      TypeExpr.records term hfirst
    have hterms := TypeExpr.terms_records terms hrest
    cases term
    case tilde inner =>
      -- as a type of its own the term is a union, and it records the same
      have hinner : Records env I (inner.elements.map .ofElement)
          (inner.resolve env enter params) := by
        intro p type q hp hrun
        exact hterm p (.union [⟨true, type⟩]) q hp
          (bind_eq_ok_iff.mpr ⟨type, q, hrun, pure_eq_ok_iff.mpr ⟨rfl, rfl⟩⟩)
      exact hinner.map₂ (fun type terms => (⟨true, type⟩ : Term) :: terms) hterms
    all_goals exact hterm.map₂ (fun type terms => (⟨false, type⟩ : Term) :: terms) hterms
termination_by structural terms => terms

theorem TypeArg.records : ∀ args : List TypeArg, (∀ u ∈ TypeArg.allUses params args, Q u.1) →
    Records env I ((TypeArg.allElements args).map .ofElement)
      (TypeArg.resolveAll env enter params args)
  | [], _ => .pure
  | ⟨_, terms⟩ :: args, hQ => by
    obtain ⟨hterms, hargs⟩ := List.forall_mem_append.mp hQ
    exact (TypeExpr.terms_records terms hterms).map₂
      (fun terms types => Ty.ofTerms terms :: types) (TypeArg.records args hargs)
termination_by structural args => args

theorem SignatureExpr.records : ∀ sig : SignatureExpr, (∀ u ∈ sig.uses params, Q u.1) →
    Records env I (sig.elements.map .ofElement) (sig.resolve env enter params)
  | ⟨decls, results⟩, hQ => by
    obtain ⟨hdecls, hresults⟩ := List.forall_mem_append.mp hQ
    exact (ParamDecl.records decls hdecls).map₂
      (fun vars results => (⟨none, [], vars, results, decls.any ParamDecl.variadic⟩ : Signature))
      (ResultExpr.records results hresults)
termination_by structural sig => sig

theorem ResultExpr.records : ∀ results : ResultExpr, (∀ u ∈ results.uses params, Q u.1) →
    Records env I (results.elements.map .ofElement) (results.resolve env enter params)
  | .list decls, hQ => ParamDecl.records decls hQ
  | .single type, hQ => (TypeExpr.records type hQ).map fun type => [(⟨"", type⟩ : Var)]
termination_by structural results => results

theorem ParamDecl.records : ∀ decls : List ParamDecl,
    (∀ u ∈ ParamDecl.allUses params decls, Q u.1) →
      Records env I ((ParamDecl.allElements decls).map .ofElement)
        (ParamDecl.resolveAll env enter params decls)
  | [], _ => .pure
  | ⟨names, type, variadic⟩ :: decls, hQ => by
    obtain ⟨htype, hdecls⟩ := List.forall_mem_append.mp hQ
    exact (TypeExpr.records type htype).map₂
      (fun type vars => Var.ofNames names (if variadic then .slice type else type) ++ vars)
      (ParamDecl.records decls hdecls)
termination_by structural decls => decls

theorem FieldDecl.records : ∀ decls : List FieldDecl,
    (∀ u ∈ FieldDecl.allUses params decls, Q u.1) →
      Records env I ((FieldDecl.allElements decls).map .ofElement)
        (FieldDecl.resolveAll env enter params decls)
  | [], _ => .pure
  | .named names type tag :: decls, hQ => by
    obtain ⟨htype, hdecls⟩ := List.forall_mem_append.mp hQ
    exact (TypeExpr.records type htype).map₂
      (fun type fields =>
        Field.ofNames names type (tag.map Text.StringLiteral.unquote) ++ fields)
      (FieldDecl.records decls hdecls)
  | .embedded pointer name args tag :: decls, hQ => by
    obtain ⟨hfirst, hdecls⟩ := List.forall_mem_append.mp hQ
    obtain ⟨hargs, hname⟩ := List.forall_mem_append.mp hfirst
    have htype : Records env I ((TypeArg.allElements args).map .ofElement)
        (do name.resolve env enter params (← TypeArg.resolveAll env enter params args)) :=
      .check (TypeArg.records args hargs) (TypeName.resolve_records henter name hname)
    have hfield := htype.map₂ (fun type fields => (⟨name.unqualified,
      if pointer then .pointer type else type, true, tag.map Text.StringLiteral.unquote⟩ : Field) ::
        fields) (FieldDecl.records decls hdecls)
    rw [bind_assoc] at hfield
    exact hfield
termination_by structural decls => decls

theorem InterfaceElem.records : ∀ elems : List InterfaceElem,
    (∀ u ∈ InterfaceElem.allUses params elems, Q u.1) →
      Records env I ((InterfaceElem.allElements elems).map .ofElement)
        (InterfaceElem.resolveAll env enter params elems)
  | [], _ => .pure
  | .method name sig :: elems, hQ => by
    obtain ⟨hsig, helems⟩ := List.forall_mem_append.mp hQ
    rw [InterfaceElem.allElements, List.map_append]
    refine (SignatureExpr.records sig hsig).bind fun signature => ?_
    have hrest := (InterfaceElem.records elems helems).map
      fun found => (.inl ⟨name.text, signature⟩ : ResolvedElem) :: found
    intro p found q hp hrun
    rw [modify_bind] at hrun
    obtain ⟨hq, hbalance⟩ := hrest _ found q (hdefine p _ hp) hrun
    exact ⟨hq, (Env.Balanced.define p
      (.func ⟨name.text, signature, name.position, .interface⟩)).trans hbalance⟩
  | .union terms :: elems, hQ => by
    obtain ⟨hterms, helems⟩ := List.forall_mem_append.mp hQ
    exact (TypeExpr.terms_records terms hterms).map₂
      (fun terms found => (.inr (.ofTerms terms) : ResolvedElem) :: found)
      (InterfaceElem.records elems helems)
termination_by structural elems => elems

end

/-- Type parameters that are resolved record the method elements of their constraints. -/
theorem TypeParamDecl.records (decls : List TypeParamDecl)
    (hQ : ∀ u ∈ TypeParamDecl.allUses params decls, Q u.1) :
    Records env I ((TypeParamDecl.allElements decls).map .ofElement)
      (TypeParamDecl.resolveAll env enter params decls) := by
  induction decls with
  | nil => exact .pure
  | cons decl decls ih =>
    obtain ⟨names, constraint⟩ := decl
    obtain ⟨hconstraint, hdecls⟩ := List.forall_mem_append.mp hQ
    exact (TypeExpr.terms_records hdefine henter constraint hconstraint).map₂
      (fun terms found => names.map (⟨·, Ty.ofTerms terms⟩) ++ found) (ih hdecls)

end

/-! ## Names -/

namespace Env.Balanced

variable {p q : Progress}

/-- Another name for a type is found once its right-hand side is resolved. -/
theorem addAlias {name : String}
    (h : env.Balanced ((env.scope.elementsOf name).map .ofElement) p q) (type : Ty) :
    env.Balanced [] p { q with aliases := q.aliases ++ [(name, type)] } := by
  intro o
  have hbalance := h o
  have hfound : (env.found { q with aliases := q.aliases ++ [(name, type)] }).count o =
      (env.found q).count o + ((env.scope.elementsOf name).map .ofElement).count o := by
    simp only [Env.found, Progress.foundNames, List.map_append, List.map_cons, List.map_nil,
      List.flatMap_append, List.flatMap_cons, List.flatMap_nil, List.append_nil, List.count_append]
    omega
  have houtlines : Progress.outlines { q with aliases := q.aliases ++ [(name, type)] } =
      q.outlines := rfl
  rw [hfound, houtlines, List.count_nil]
  omega

/-- A defined type is found before its declaration is resolved. -/
theorem of_enter {name : Piece} {package : String}
    (h : env.Balanced ((env.scope.elementsOf name.text).map .ofElement) (p.enter name package) q) :
    env.Balanced [] p q := by
  intro o
  have hbalance := h o
  have hfound : (env.found (p.enter name package)).count o =
      (env.found p).count o + ((env.scope.elementsOf name.text).map .ofElement).count o := by
    simp only [Env.found, Progress.foundNames, Progress.enter, List.map_append, List.map_cons,
      List.map_nil, List.flatMap_append, List.flatMap_cons, List.flatMap_nil, List.append_nil,
      List.count_append]
    omega
  have houtlines : (p.enter name package).outlines = p.outlines := rfl
  rw [hfound, houtlines] at hbalance
  rw [List.count_nil]
  omega

end Env.Balanced

theorem Progress.exists_finish_eq (p : Progress) (id : Nat) (type : Ty) :
    ∃ t pending, p.finish id type = { p with table := t, pending := pending } := by
  rcases p.finish_eq id type with ⟨target, _, -, -, hfinish⟩ | ⟨-, hfinish⟩
  · exact ⟨p.table, _, hfinish⟩
  · exact ⟨_, p.pending, hfinish⟩

section

variable {enter : EnterType} {Q : String → Prop} (hdefine : ∀ p f, I p → I (p.define (.func f)))
  (htable : ∀ p t pending, I p → I { p with table := t, pending := pending })
  (henter : ∀ name : Piece, Q name.text → Records env I [] (enter name))
include hdefine htable henter

theorem TypeSpec.resolveParams_records (id : Nat) (spec : TypeSpec)
    (hQ : ∀ u ∈ TypeParamDecl.allUses (TypeParamDecl.allNames spec.typeParams) spec.typeParams,
      Q u.1) :
    Records env I ((TypeParamDecl.allElements spec.typeParams).map .ofElement)
      (spec.resolveParams env enter id) := by
  unfold resolveParams
  by_cases hempty : spec.typeParams.isEmpty = true
  · rw [if_pos hempty, List.isEmpty_iff.mp hempty]
    exact .pure
  · rw [if_neg hempty]
    refine .check (TypeParamDecl.records hdefine henter spec.typeParams hQ) fun params => ?_
    intro p a q hp hrun
    rw [modify_eq_ok_iff] at hrun
    subst hrun
    exact ⟨htable p _ p.pending hp, .of_same rfl rfl⟩

/-- The declaration of a defined type that is resolved records its method elements. -/
theorem TypeSpec.resolveDefined_records {spec : TypeSpec} (halias : spec.isAlias = false)
    (hQ : ∀ u ∈ spec.uses, Q u.1) (id : Nat) :
    Records env I (spec.elements.map .ofElement) (spec.resolveDefined env enter id) := by
  have hparams : spec.params = TypeParamDecl.allNames spec.typeParams := by
    simp [TypeSpec.params, halias]
  obtain ⟨hconstraints, hright⟩ := List.forall_mem_append.mp hQ
  rw [TypeSpec.constraintUses, halias, if_neg (by simp), hparams] at hconstraints
  rw [TypeSpec.rightUses, hparams] at hright
  rw [TypeSpec.resolveDefined_eq, TypeSpec.elements, halias, if_neg (by simp), List.map_append]
  refine .bind (TypeSpec.resolveParams_records hdefine htable henter id spec hconstraints)
    fun _ => ?_
  refine .check (TypeExpr.records hdefine henter spec.type hright) fun type => ?_
  intro p a q hp hrun
  rw [modify_eq_ok_iff] at hrun
  subst hrun
  obtain ⟨t, pending, hfinish⟩ := p.exists_finish_eq id type
  rw [hfinish]
  exact ⟨htable p t pending hp, .of_same rfl rfl⟩

end

/-- A name of a type is known, or its declaration is resolved: that of another name for a type
before the name is found, that of a defined type after it is entered. -/
theorem Env.enterType_cases {depth : Nat} {resolving : List String} {name : Piece} {type : Ty}
    {p q : Progress} (hrun : env.enterType (depth + 1) resolving name p = .ok (type, q)) :
    q = p ∨ ∃ spec, env.scope.lookup name.text = some (.type spec) ∧
      (spec.isAlias = true ∧ p.aliases.lookup name.text = none ∧
          (∃ p₁, spec.type.resolve env (env.enterType depth (name.text :: resolving)) [] p =
              .ok (type, p₁) ∧
            q = { p₁ with aliases := p₁.aliases ++ [(name.text, type)] }) ∨
        spec.isAlias = false ∧
          spec.resolveDefined env (env.enterType depth []) p.table.size
            (p.enter spec.name env.packageName) = .ok ((), q)) := by
  obtain ⟨spec, hlookup⟩ := lookup_of_enterType hrun
  by_cases halias : spec.isAlias = true
  · cases hknown : p.aliases.lookup name.text with
    | some known =>
      rw [enterType_alias_known hlookup halias hknown] at hrun
      cases hrun
      exact .inl rfl
    | none =>
      rw [enterType_alias_new hlookup halias hknown] at hrun
      split at hrun
      · cases hrun
      · obtain ⟨found, p₁, hresolve, hrun⟩ := bind_eq_ok_iff.mp hrun
        rw [modify_bind, pure_eq_ok_iff] at hrun
        obtain ⟨rfl, rfl⟩ := hrun
        exact .inr ⟨spec, hlookup, .inl ⟨halias, rfl, p₁, hresolve, rfl⟩⟩
  · rw [Bool.not_eq_true] at halias
    cases hknown : p.enteredType? name.text with
    | some e =>
      rw [enterType_entered hlookup halias hknown] at hrun
      cases hrun
      exact .inl rfl
    | none =>
      rw [enterType_new hlookup halias hknown] at hrun
      obtain ⟨_, p₁, hresolve, hrun⟩ := bind_eq_ok_iff.mp hrun
      rw [pure_eq_ok_iff] at hrun
      obtain ⟨rfl, rfl⟩ := hrun
      exact .inr ⟨spec, hlookup, .inr ⟨halias, hresolve⟩⟩

/-- A name that is entered records what its declaration has to record. -/
theorem Env.enterType_records (hnamed : env.scope.Named) (depth : Nat) (resolving : List String)
    (name : Piece) : Records env (fun _ => True) [] (env.enterType depth resolving name) := by
  induction depth generalizing resolving name with
  | zero => exact .fail
  | succ depth ih =>
    intro p type q _ hrun
    refine ⟨trivial, ?_⟩
    rcases enterType_cases hrun with
      rfl | ⟨spec, hlookup, ⟨halias, -, p₁, hresolve, rfl⟩ | ⟨halias, hresolve⟩⟩
    · exact .of_same rfl rfl
    · have hrecords : Records env (fun _ => True) (spec.type.elements.map .ofElement)
          (spec.type.resolve env (env.enterType depth (name.text :: resolving)) []) :=
        TypeExpr.records (Q := fun _ => True) (fun _ _ h => h)
          (fun other _ => ih (name.text :: resolving) other) spec.type fun _ _ => trivial
      refine Env.Balanced.addAlias ?_ type
      rw [FileScope.elementsOf_eq hlookup, TypeSpec.elements, if_pos halias, List.nil_append]
      exact (hrecords p type p₁ trivial hresolve).2
    · have hrecords := TypeSpec.resolveDefined_records (Q := fun _ => True) (fun _ _ h => h)
        (fun _ _ _ h => h) (fun other _ => ih [] other) halias (fun _ _ => trivial) p.table.size
      have hbalance : env.Balanced ((env.scope.elementsOf spec.name.text).map .ofElement)
          (p.enter spec.name env.packageName) q := by
        rw [hnamed _ _ hlookup, FileScope.elementsOf_eq hlookup]
        exact (hrecords _ () q trivial hresolve).2
      exact hbalance.of_enter

/-! ## How often another name for a type is found -/

/-- How often another name for a type was found. -/
def Progress.timesFound (p : Progress) (name : String) : Nat :=
  (p.aliases.map Prod.fst).count name

theorem Progress.timesFound_addAlias (p : Progress) (name other : String) (type : Ty) :
    Progress.timesFound { p with aliases := p.aliases ++ [(other, type)] } name =
      p.timesFound name + if other = name then 1 else 0 := by
  simp [timesFound, List.count_append, List.count_singleton, beq_iff_eq]

theorem Progress.timesFound_eq_zero {p : Progress} {name : String}
    (h : p.aliases.lookup name = none) : p.timesFound name = 0 := by
  rw [timesFound, List.count_eq_zero]
  intro hmem
  obtain ⟨a, ha, hname⟩ := List.mem_map.mp hmem
  exact absurd hname.symm (by simpa using List.lookup_eq_none_iff.mp h a ha)

/-- A name and the declarations that are reached from it do not use another name. -/
def FileScope.Misses (scope : FileScope) (target name : String) : Prop :=
  ¬ Relation.ReflTransGen scope.Uses name target

namespace Env

variable {a : String}

/-- Names through which another name for a type is not reached do not find it. If that name does not
lead back to itself, it is found at most once. -/
theorem enterType_timesFound (hnamed : env.scope.Named)
    (ha : ¬ Relation.TransGen env.scope.Uses a a) (depth : Nat) (resolving : List String)
    (name : Piece) {p q : Progress} {type : Ty}
    (hrun : env.enterType depth resolving name p = .ok (type, q)) :
    (env.scope.Misses a name.text → q.timesFound a = p.timesFound a) ∧
      (p.timesFound a ≤ 1 → q.timesFound a ≤ 1) := by
  induction depth generalizing resolving name p q type with
  | zero => exact absurd hrun fail_ne_ok
  | succ depth ih =>
    -- what is kept by the names that a declaration uses
    have hsame : ∀ resolving count, ∀ other : Piece, env.scope.Misses a other.text →
        Records env (fun p => p.timesFound a = count) [] (env.enterType depth resolving other) := by
      intro resolving count other hother p type q hp hrun
      obtain ⟨-, hbalance⟩ := enterType_records hnamed depth resolving other p type q trivial hrun
      exact ⟨((ih _ _ hrun).1 hother).trans hp, hbalance⟩
    have honce : ∀ resolving, ∀ other : Piece, True →
        Records env (fun p => p.timesFound a ≤ 1) [] (env.enterType depth resolving other) := by
      intro resolving other _ p type q hp hrun
      obtain ⟨-, hbalance⟩ := enterType_records hnamed depth resolving other p type q trivial hrun
      exact ⟨(ih _ _ hrun).2 hp, hbalance⟩
    rcases enterType_cases hrun with
      rfl | ⟨spec, hlookup, ⟨halias, hnew, p₁, hresolve, rfl⟩ | ⟨halias, hresolve⟩⟩
    · exact ⟨fun _ => rfl, id⟩
    · have huses : ∀ u ∈ spec.type.uses [], env.scope.Uses name.text u.1 := by
        intro u hu
        have hright : spec.rightUses = spec.type.uses [] := by
          rw [TypeSpec.rightUses, TypeSpec.params, if_pos halias]
        exact ⟨u, FileScope.mem_usesOf_right hlookup (hright.symm ▸ hu), rfl⟩
      have hmissed : (∀ u ∈ spec.type.uses [], env.scope.Misses a u.1) →
          p₁.timesFound a = p.timesFound a := by
        intro hnot
        have hrecords := TypeExpr.records (Q := env.scope.Misses a) (fun _ _ h => h)
          (hsame (name.text :: resolving) (p.timesFound a)) spec.type hnot
        exact (hrecords p type p₁ rfl hresolve).1
      rw [Progress.timesFound_addAlias]
      constructor
      · intro hnot
        have hne : name.text ≠ a := by
          rintro rfl
          exact hnot .refl
        rw [if_neg hne]
        exact hmissed fun u hu hreach => hnot (.head (huses u hu) hreach)
      · intro hle
        by_cases hname : name.text = a
        · -- it was not found before, and its own declaration does not reach it
          subst hname
          have hzero := Progress.timesFound_eq_zero hnew
          have hcount := hmissed fun u hu hreach => ha (.head' (huses u hu) hreach)
          rw [if_pos rfl]
          omega
        · rw [if_neg hname]
          have hrecords : Records env (fun p => p.timesFound a ≤ 1)
              (spec.type.elements.map .ofElement)
              (spec.type.resolve env (env.enterType depth (name.text :: resolving)) []) :=
            TypeExpr.records (Q := fun _ => True) (fun _ _ h => h)
              (honce (name.text :: resolving)) spec.type fun _ _ => trivial
          exact (hrecords p type p₁ hle hresolve).1
    · have huses : ∀ u ∈ spec.uses, env.scope.Uses name.text u.1 := by
        intro u hu
        exact ⟨u, (FileScope.usesOf_eq hlookup).symm ▸ hu, rfl⟩
      constructor
      · intro hnot
        have hrecords := TypeSpec.resolveDefined_records (Q := env.scope.Misses a) (fun _ _ h => h)
          (fun _ _ _ h => h) (hsame [] (p.timesFound a)) halias
          (fun u hu hreach => hnot (.head (huses u hu) hreach)) p.table.size
        exact (hrecords (p.enter spec.name env.packageName) () q rfl hresolve).1
      · intro hle
        have hrecords := TypeSpec.resolveDefined_records (Q := fun _ => True) (fun _ _ h => h)
          (fun _ _ _ h => h) (honce []) halias (fun _ _ => trivial) p.table.size
        exact (hrecords (p.enter spec.name env.packageName) () q hle hresolve).1

end Env

end GoSignatures

import GoSignatures.Proofs.Resolution.Functions

/-!
# Why resolving fails

An error of resolving is the error of one of its steps. While types, values and functions are
resolved only types are at fault; that a method is declared twice is found with methods only. And
what an error says of a name, as far as it cannot be said of a type parameter, it says of a name
that is used where no type parameter hides it.

* `Resolve.FailsOnly` — all errors of a step are of one sort
* `Env.IsTypeError` — errors that are about a type
* `Env.IsTypeErrorOver` — and that deny a name to be a type parameter only if it is one of a list
* `TypeExpr.resolve_fails`, `Env.enterType_fails` — resolving types fails for types only
-/

namespace GoSignatures

/-! ## Steps and their errors -/

namespace Resolve

variable {α β : Type} {C : ResolveError → Prop}

/-- All errors of a step are of the sort `C`. -/
def FailsOnly (C : ResolveError → Prop) (x : Resolve α) : Prop :=
  ∀ p e, x p = .error e → C e

namespace FailsOnly

theorem pure (a : α) : FailsOnly C (Pure.pure a : Resolve α) :=
  fun _ _ h => by cases h

theorem modify (f : Progress → Progress) : FailsOnly C (modify f : Resolve PUnit) :=
  fun _ _ h => by cases h

theorem get : FailsOnly C (get : Resolve Progress) :=
  fun _ _ h => by cases h

theorem set (p : Progress) : FailsOnly C (set p : Resolve PUnit) :=
  fun _ _ h => by cases h

theorem fail {env : Env} {place : Position} {cause : ResolveCause}
    (h : C (env.errorAt place cause)) : FailsOnly C (env.fail place cause : Resolve α) := by
  intro p e herror
  cases herror
  exact h

/-- The errors of two steps are those of the first one and those of the second one. -/
theorem bind {x : Resolve α} {f : α → Resolve β} (hx : FailsOnly C x)
    (hf : ∀ a, FailsOnly C (f a)) : FailsOnly C (x >>= f) := by
  intro p e h
  rcases bind_eq_error_iff.mp h with h | ⟨a, p', -, h⟩
  · exact hx p e h
  · exact hf a p' e h

theorem map {x : Resolve α} (hx : FailsOnly C x) (f : α → β) :
    FailsOnly C (do return f (← x)) :=
  hx.bind fun _ => pure _

theorem map₂ {γ : Type} {x : Resolve α} {y : Resolve β} (hx : FailsOnly C x) (hy : FailsOnly C y)
    (f : α → β → γ) : FailsOnly C (do return f (← x) (← y)) :=
  hx.bind fun _ => hy.map _

theorem ite {x y : Resolve α} {b : Prop} [Decidable b] (hx : FailsOnly C x) (hy : FailsOnly C y) :
    FailsOnly C (if b then x else y) := by
  split
  · exact hx
  · exact hy

theorem forM {f : α → Resolve PUnit} :
    ∀ {l : List α}, (∀ a ∈ l, FailsOnly C (f a)) → FailsOnly C (l.forM f)
  | [], _ => pure _
  | _ :: _, hf => by
    obtain ⟨hfirst, hrest⟩ := List.forall_mem_cons.mp hf
    exact hfirst.bind fun _ => forM hrest

end FailsOnly

end Resolve

open Resolve

/-! ## Types -/

/-- Causes that are about a type. -/
def ResolveCause.IsOfType : ResolveCause → Prop
  | .redeclared _ | .duplicateMethod _ _ => False
  | _ => True

/-- A cause says of a name what cannot be said of a type parameter: that it is not declared, that it
is no type, or that it is generic. -/
def ResolveCause.Denies (name : String) : ResolveCause → Prop
  | .undefinedType other | .notAType other => other = name
  | .typeArgumentCount other expected _ => other = name ∧ 0 < expected
  | _ => False

/-- Errors that are about a type, at a place of the file. -/
def Env.IsTypeError (env : Env) (e : ResolveError) : Prop :=
  ∃ place cause, e = env.errorAt place cause ∧ cause.IsOfType

/-- Errors that are about a type, and that deny of certain names only that they are type
parameters. -/
structure Env.IsTypeErrorOver (env : Env) (N : String → Prop) (e : ResolveError) : Prop where
  ofType : env.IsTypeError e
  names : ∀ name, e.cause.Denies name → N name

variable {env : Env} {N : String → Prop}

/-- An error about a type is of this sort if it denies no name that is not in `N`. -/
theorem Env.fail_fails {α : Type} {place : Position} {cause : ResolveCause} (h : cause.IsOfType)
    (hN : ∀ name, cause.Denies name → N name) :
    FailsOnly (env.IsTypeErrorOver N) (env.fail place cause : Resolve α) :=
  .fail ⟨⟨place, cause, rfl, h⟩, hN⟩

section

variable {enter : EnterType} {params : List String}
  (henter : ∀ name : Piece, env.scope.isType name.text = true →
    FailsOnly (env.IsTypeErrorOver N) (enter name))
include henter

/-- A name that is not a type parameter may be denied to be one. -/
theorem Ty.ofName_fails (name : Piece) (hN : params.contains name.text = false → N name.text) :
    FailsOnly (env.IsTypeErrorOver N) (Ty.ofName env enter params name) := by
  unfold Ty.ofName
  split
  · exact .pure _
  · next hparam =>
    have hdenied : ∀ other, name.text = other → N other :=
      fun other hother => hother ▸ hN (by simpa using hparam)
    cases hlookup : env.scope.lookup name.text with
    | some entry =>
      cases entry with
      | type spec => exact henter name (FileScope.isType_iff.mpr ⟨spec, hlookup⟩)
      | _ => exact Env.fail_fails trivial hdenied
    | none =>
      cases Universe.type? name.text with
      | some type => exact .pure _
      | none =>
        refine .ite (Env.fail_fails trivial hdenied) ?_
        cases env.scope.imports.dotImport? with
        | some path => exact .pure _
        | none => exact Env.fail_fails trivial hdenied

/-- A name is denied to be a type only where it is used as one. -/
theorem TypeName.resolve_fails (args : List Ty) (name : TypeName) {count : Nat}
    (hN : ∀ u ∈ name.uses params count, N u.1) :
    FailsOnly (env.IsTypeErrorOver N) (name.resolve env enter params args) := by
  cases name with
  | qualified package name =>
    show FailsOnly _ (Ty.ofQualifiedName env package name args)
    unfold Ty.ofQualifiedName
    split
    · exact FailsOnly.get.bind fun _ => .pure _
    · exact Env.fail_fails trivial nofun
  | plain name =>
    by_cases hparam : params.contains name.text = true
    · -- a type parameter is told to be one, or to have too many arguments
      have hname : Ty.ofName env enter params name = pure (.param name.text) := if_pos hparam
      refine .ite ?_ ?_
      · rw [Ty.ofBareName, hname, pure_bind]
        exact .pure _
      · rw [Ty.ofGenericName, hname, pure_bind]
        exact .ite (.pure _) (Env.fail_fails trivial fun _ h => absurd h.2 (Nat.lt_irrefl _))
    · have hname : N name.text := hN (name.text, count) (by simpa [TypeName.uses] using hparam)
      have hdenied : ∀ other, name.text = other → N other := fun other hother => hother ▸ hname
      have hfirst : FailsOnly (env.IsTypeErrorOver N) (Ty.ofName env enter params name) :=
        Ty.ofName_fails henter name fun _ => hname
      refine .ite (hfirst.bind fun type => ?_) (hfirst.bind fun type => ?_)
      · cases type with
        | named id args =>
          exact FailsOnly.get.bind fun _ =>
            .ite (Env.fail_fails trivial fun _ h => hdenied _ h.1) (.pure _)
        | _ => exact .pure _
      · split
        · exact FailsOnly.get.bind fun _ =>
            .ite (.pure _) (Env.fail_fails trivial fun _ h => hdenied _ h.1)
        · exact .ite (.pure _) (Env.fail_fails trivial fun _ h => hdenied _ h.1)

-- each lemma of the block has the assumptions for the others, which the linter does not see
set_option linter.unusedSectionVars false in
mutual

/-- Resolving a type expression fails for a type only, and denies only names that it uses. -/
theorem TypeExpr.resolve_fails : ∀ e : TypeExpr, (∀ u ∈ e.uses params, N u.1) →
    FailsOnly (env.IsTypeErrorOver N) (e.resolve env enter params)
  | .named name args, hN => by
    obtain ⟨hargs, hname⟩ := List.forall_mem_append.mp hN
    exact (TypeArg.resolveAll_fails args hargs).bind fun _ =>
      TypeName.resolve_fails henter _ name hname
  | .pointer elem, hN => (TypeExpr.resolve_fails elem hN).map _
  | .slice elem, hN => (TypeExpr.resolve_fails elem hN).map _
  | .array _ elem, hN => (TypeExpr.resolve_fails elem hN).map _
  | .map key value, hN => by
    obtain ⟨hkey, hvalue⟩ := List.forall_mem_append.mp hN
    exact (TypeExpr.resolve_fails key hkey).map₂ (TypeExpr.resolve_fails value hvalue) _
  | .chan _ elem, hN => (TypeExpr.resolve_fails elem hN).map _
  | .func sig, hN => (SignatureExpr.resolve_fails sig hN).map _
  | .struct fields, hN => (FieldDecl.resolveAll_fails fields hN).map _
  | .interface elems, hN => (InterfaceElem.resolveAll_fails elems hN).map _
  | .group inner, hN => TypeExpr.resolve_fails inner hN
  | .tilde inner, hN => (TypeExpr.resolve_fails inner hN).map _
termination_by structural e => e

theorem TypeExpr.resolveTerms_fails : ∀ terms : List TypeExpr,
    (∀ u ∈ TypeExpr.allUses params terms, N u.1) →
      FailsOnly (env.IsTypeErrorOver N) (TypeExpr.resolveTerms env enter params terms)
  | [], _ => .pure _
  | term :: terms, hN => by
    obtain ⟨hfirst, hrest⟩ := List.forall_mem_append.mp hN
    have hterm := TypeExpr.resolve_fails term hfirst
    have hterms := TypeExpr.resolveTerms_fails terms hrest
    cases term
    case tilde inner =>
      -- an error behind the tilde is one of the expression with the tilde
      refine FailsOnly.bind (fun p e he => hterm p e ?_) fun _ => hterms.map _
      exact bind_eq_error_iff.mpr (.inl he)
    all_goals exact hterm.map₂ hterms _
termination_by structural terms => terms

theorem TypeArg.resolveAll_fails : ∀ args : List TypeArg,
    (∀ u ∈ TypeArg.allUses params args, N u.1) →
      FailsOnly (env.IsTypeErrorOver N) (TypeArg.resolveAll env enter params args)
  | [], _ => .pure _
  | ⟨_, terms⟩ :: args, hN => by
    obtain ⟨hterms, hargs⟩ := List.forall_mem_append.mp hN
    exact (TypeExpr.resolveTerms_fails terms hterms).map₂ (TypeArg.resolveAll_fails args hargs) _
termination_by structural args => args

theorem SignatureExpr.resolve_fails : ∀ sig : SignatureExpr, (∀ u ∈ sig.uses params, N u.1) →
    FailsOnly (env.IsTypeErrorOver N) (sig.resolve env enter params)
  | ⟨decls, results⟩, hN => by
    obtain ⟨hdecls, hresults⟩ := List.forall_mem_append.mp hN
    exact (ParamDecl.resolveAll_fails decls hdecls).map₂
      (ResultExpr.resolve_fails results hresults) _
termination_by structural sig => sig

theorem ResultExpr.resolve_fails : ∀ results : ResultExpr, (∀ u ∈ results.uses params, N u.1) →
    FailsOnly (env.IsTypeErrorOver N) (results.resolve env enter params)
  | .list decls, hN => ParamDecl.resolveAll_fails decls hN
  | .single type, hN => (TypeExpr.resolve_fails type hN).map _
termination_by structural results => results

theorem ParamDecl.resolveAll_fails : ∀ decls : List ParamDecl,
    (∀ u ∈ ParamDecl.allUses params decls, N u.1) →
      FailsOnly (env.IsTypeErrorOver N) (ParamDecl.resolveAll env enter params decls)
  | [], _ => .pure _
  | ⟨_, type, _⟩ :: decls, hN => by
    obtain ⟨htype, hdecls⟩ := List.forall_mem_append.mp hN
    exact (TypeExpr.resolve_fails type htype).map₂ (ParamDecl.resolveAll_fails decls hdecls) _
termination_by structural decls => decls

theorem FieldDecl.resolveAll_fails : ∀ decls : List FieldDecl,
    (∀ u ∈ FieldDecl.allUses params decls, N u.1) →
      FailsOnly (env.IsTypeErrorOver N) (FieldDecl.resolveAll env enter params decls)
  | [], _ => .pure _
  | .named _ type _ :: decls, hN => by
    obtain ⟨htype, hdecls⟩ := List.forall_mem_append.mp hN
    exact (TypeExpr.resolve_fails type htype).map₂ (FieldDecl.resolveAll_fails decls hdecls) _
  | .embedded _ name args _ :: decls, hN => by
    obtain ⟨hfield, hdecls⟩ := List.forall_mem_append.mp hN
    obtain ⟨hargs, hname⟩ := List.forall_mem_append.mp hfield
    exact (TypeArg.resolveAll_fails args hargs).bind fun _ =>
      (TypeName.resolve_fails henter _ name hname).map₂ (FieldDecl.resolveAll_fails decls hdecls) _
termination_by structural decls => decls

theorem InterfaceElem.resolveAll_fails : ∀ elems : List InterfaceElem,
    (∀ u ∈ InterfaceElem.allUses params elems, N u.1) →
      FailsOnly (env.IsTypeErrorOver N) (InterfaceElem.resolveAll env enter params elems)
  | [], _ => .pure _
  | .method _ sig :: elems, hN => by
    obtain ⟨hsig, helems⟩ := List.forall_mem_append.mp hN
    exact (SignatureExpr.resolve_fails sig hsig).bind fun _ =>
      (FailsOnly.modify _).bind fun _ => (InterfaceElem.resolveAll_fails elems helems).map _
  | .union terms :: elems, hN => by
    obtain ⟨hterms, helems⟩ := List.forall_mem_append.mp hN
    exact (TypeExpr.resolveTerms_fails terms hterms).map₂
      (InterfaceElem.resolveAll_fails elems helems) _
termination_by structural elems => elems

end

theorem TypeParamDecl.resolveAll_fails : ∀ decls : List TypeParamDecl,
    (∀ u ∈ TypeParamDecl.allUses params decls, N u.1) →
      FailsOnly (env.IsTypeErrorOver N) (TypeParamDecl.resolveAll env enter params decls)
  | [], _ => .pure _
  | ⟨_, constraint⟩ :: decls, hN => by
    obtain ⟨hconstraint, hdecls⟩ := List.forall_mem_append.mp hN
    exact (TypeExpr.resolveTerms_fails henter constraint hconstraint).map₂
      (TypeParamDecl.resolveAll_fails decls hdecls) _

theorem TypeSpec.resolveDefined_fails (id : Nat) (spec : TypeSpec) (halias : spec.isAlias = false)
    (hN : ∀ u ∈ spec.uses, N u.1) :
    FailsOnly (env.IsTypeErrorOver N) (spec.resolveDefined env enter id) := by
  have hparams : spec.params = TypeParamDecl.allNames spec.typeParams := by
    simp [TypeSpec.params, halias]
  obtain ⟨hconstraints, hright⟩ := List.forall_mem_append.mp hN
  rw [TypeSpec.constraintUses, halias, if_neg (by simp)] at hconstraints
  rw [TypeSpec.rightUses] at hright
  rw [TypeSpec.resolveDefined_eq]
  rw [hparams] at hconstraints hright
  refine FailsOnly.bind ?_ fun _ =>
    (TypeExpr.resolve_fails henter spec.type hright).bind fun _ => .modify _
  unfold TypeSpec.resolveParams
  exact .ite (.pure _)
    ((TypeParamDecl.resolveAll_fails henter _ hconstraints).bind fun _ => .modify _)

end

/-! ## Declarations -/

/-- The base of the receiver of a method as it is written, or the whole receiver list if there is no
receiver in it. -/
def MethodDecl.baseText (decl : MethodDecl) : String :=
  match decl.receiver with
  | some receiver => receiver.base.text
  | none => decl.receiverList.text

/-- The names that the declared types of a file use are among some names. -/
def Env.UsesOnly (env : Env) (N : String → Prop) : Prop :=
  ∀ name spec, env.scope.lookup name = some (.type spec) → ∀ u ∈ spec.uses, N u.1

namespace Env

section

variable (hN : env.UsesOnly N)
include hN

/-- Finding what a declared type name means fails for a type only, however deep declarations
nest. -/
theorem enterType_fails (depth : Nat) (resolving : List String) (name : Piece)
    (hname : env.scope.isType name.text = true) :
    FailsOnly (env.IsTypeErrorOver N) (env.enterType depth resolving name) := by
  induction depth generalizing resolving name with
  | zero => exact fail_fails trivial nofun
  | succ depth ih =>
    obtain ⟨spec, hspec⟩ := FileScope.isType_iff.mp hname
    have huses := hN _ spec hspec
    rw [enterType, hspec]
    dsimp only
    by_cases halias : spec.isAlias = true
    · have hright : ∀ u ∈ spec.type.uses [], N u.1 := by
        have hparams : spec.params = [] := if_pos halias
        have hright := (List.forall_mem_append.mp huses).2
        rwa [TypeSpec.rightUses, hparams] at hright
      rw [if_pos halias]
      refine FailsOnly.get.bind fun p => ?_
      split
      · exact .pure _
      · exact .ite (fail_fails trivial nofun) ((TypeExpr.resolve_fails (ih _) _ hright).bind
          fun _ => (FailsOnly.modify _).bind fun _ => .pure _)
    · rw [if_neg halias]
      refine FailsOnly.get.bind fun p => ?_
      split
      · exact .pure _
      · refine FailsOnly.get.bind fun p => (FailsOnly.modify _).bind fun _ =>
          (TypeSpec.resolveDefined_fails (ih []) _ spec ?_ huses).bind fun _ => .pure _
        simpa using halias

/-- Entering a declared type resolves its declaration, so the errors are about types. -/
theorem enter_fails (name : Piece) (hname : env.scope.isType name.text = true) :
    FailsOnly (env.IsTypeErrorOver N) (env.enter name) :=
  enterType_fails hN _ _ name hname

theorem resolveTypeSpec_fails (spec : TypeSpec)
    (hnamed : spec.name.text ≠ "_" → env.scope.isType spec.name.text = true)
    (hblank : spec.name.text = "_" → ∀ u ∈ spec.type.uses [], N u.1) :
    FailsOnly (env.IsTypeErrorOver N) (env.resolveTypeSpec spec) := by
  rw [resolveTypeSpec_eq]
  refine FailsOnly.bind ?_ fun _ => .modify _
  split
  · next hname => exact TypeExpr.resolve_fails (enter_fails hN) _ (hblank hname)
  · next hname => exact enter_fails hN _ (hnamed hname)

end

theorem failRecursive_fails (id : Nat) :
    FailsOnly (env.IsTypeErrorOver N) (env.failRecursive id) := by
  refine FailsOnly.get.bind fun p => ?_
  split <;> exact fail_fails trivial nofun

/-- Of types that wait for each other the error says that they are recursive. -/
theorem settlePending_fails : FailsOnly (env.IsTypeErrorOver N) env.settlePending := by
  refine FailsOnly.get.bind fun p => ?_
  split
  · exact .set _
  · exact failRecursive_fails _

theorem checkContainment_fails : FailsOnly (env.IsTypeErrorOver N) env.checkContainment := by
  refine FailsOnly.get.bind fun p => ?_
  split
  · exact failRecursive_fails _
  · exact .pure _

end Env

section

variable (hN : env.UsesOnly N)
include hN

theorem ValueSpec.resolveType_fails (spec : ValueSpec)
    (huses : ∀ type, spec.type = some type → ∀ u ∈ type.uses [], N u.1) :
    FailsOnly (env.IsTypeErrorOver N) (spec.resolveType env) := by
  unfold ValueSpec.resolveType
  split
  · next type htype =>
    exact (TypeExpr.resolve_fails (Env.enter_fails hN) _ (huses type htype)).bind fun _ => .pure _
  · exact .pure _

namespace Env

theorem resolveFunc_fails (decl : FuncDecl) (huses : ∀ u ∈ decl.uses, N u.1) :
    FailsOnly (env.IsTypeErrorOver N) (env.resolveFunc decl) := by
  obtain ⟨hconstraints, hsig⟩ := List.forall_mem_append.mp huses
  exact (TypeParamDecl.resolveAll_fails (enter_fails hN) _ hconstraints).bind fun _ =>
    (SignatureExpr.resolve_fails (enter_fails hN) _ hsig).bind fun _ => .modify _

omit hN in
theorem checkReceiverBase_fails (base : Piece) (hbase : N base.text) :
    FailsOnly (env.IsTypeErrorOver N) (env.checkReceiverBase base) := by
  have hdenied : ∀ other, base.text = other → N other := fun other hother => hother ▸ hbase
  unfold checkReceiverBase
  split
  · exact .pure _
  · exact fail_fails trivial hdenied
  · exact fail_fails trivial hdenied

/-- A method may be at fault for its receiver as well. -/
theorem resolveMethod_fails (decl : MethodDecl) (huses : ∀ u ∈ decl.uses, N u.1)
    (hbase : N decl.baseText) :
    FailsOnly (env.IsTypeErrorOver N) (env.resolveMethod decl) := by
  obtain ⟨hreceiver, hsig⟩ := List.forall_mem_append.mp huses
  unfold resolveMethod
  split
  · next hnone =>
    rw [MethodDecl.baseText, hnone] at hbase
    exact fail_fails trivial fun _ hother => hother ▸ hbase
  · next receiver hsome =>
    rw [MethodDecl.params, hsome] at hsig
    rw [hsome] at hreceiver
    rw [MethodDecl.baseText, hsome] at hbase
    exact (checkReceiverBase_fails _ hbase).bind fun _ =>
      (TypeExpr.resolve_fails (enter_fails hN) _ hreceiver).bind fun _ =>
        (SignatureExpr.resolve_fails (enter_fails hN) _ hsig).bind fun _ =>
          (FailsOnly.modify _).bind fun _ => .pure _

end Env

end

/-- What resolving methods denies of names is denied of names that they use. -/
theorem Env.resolveMethods_denies (hN : env.UsesOnly N) {decls : List MethodDecl}
    (huses : ∀ decl ∈ decls, (∀ u ∈ decl.uses, N u.1) ∧ N decl.baseText)
    (seen : List (String × String)) :
    FailsOnly (fun e => ∀ name, e.cause.Denies name → N name) (env.resolveMethods seen decls) := by
  induction decls generalizing seen with
  | nil => exact .pure _
  | cons decl decls ih =>
    obtain ⟨⟨hfirst, hbase⟩, hrest⟩ := List.forall_mem_cons.mp huses
    refine FailsOnly.bind (fun p e he => (resolveMethod_fails hN decl hfirst hbase p e he).names)
      fun base => ?_
    split
    · exact ih hrest _
    · split
      · exact .fail nofun
      · exact ih hrest _

/-! ## Whole files -/

/-- The names that are used in a file are among some names. A blank declaration of a type is read
without type parameters. -/
structure SourceFile.UsesOnly (file : SourceFile) (N : String → Prop) : Prop where
  named : ∀ spec ∈ file.typeSpecs, spec.name.text ≠ "_" → ∀ u ∈ spec.uses, N u.1
  blank : ∀ spec ∈ file.typeSpecs, spec.name.text = "_" → ∀ u ∈ spec.type.uses [], N u.1
  values : ∀ spec ∈ file.valueSpecs, ∀ type, spec.type = some type → ∀ u ∈ type.uses [], N u.1
  functions : ∀ decl ∈ file.funcDecls, ∀ u ∈ decl.uses, N u.1
  methods : ∀ decl ∈ file.methodDecls, (∀ u ∈ decl.uses, N u.1) ∧ N decl.baseText

theorem SourceFile.UsesOnly.mono {file : SourceFile} {N N' : String → Prop}
    (h : file.UsesOnly N) (hN : ∀ name, N name → N' name) : file.UsesOnly N' where
  named spec hspec hname u hu := hN _ (h.named spec hspec hname u hu)
  blank spec hspec hname u hu := hN _ (h.blank spec hspec hname u hu)
  values spec hspec type htype u hu := hN _ (h.values spec hspec type htype u hu)
  functions decl hdecl u hu := hN _ (h.functions decl hdecl u hu)
  methods decl hdecl :=
    ⟨fun u hu => hN _ ((h.methods decl hdecl).1 u hu), hN _ (h.methods decl hdecl).2⟩

theorem SourceFile.UsesOnly.all (file : SourceFile) : file.UsesOnly fun _ => True :=
  ⟨fun _ _ _ _ _ => trivial, fun _ _ _ _ _ => trivial, fun _ _ _ _ _ _ => trivial,
    fun _ _ _ _ => trivial, fun _ _ => ⟨fun _ _ => trivial, trivial⟩⟩

/-- An error about a method that is declared twice. -/
def ResolveError.IsOfMethod (e : ResolveError) : Prop :=
  ∃ receiver name, e.cause = .duplicateMethod receiver name

theorem Env.IsTypeError.not_isOfMethod {e : ResolveError} (h : env.IsTypeError e) :
    ¬ e.IsOfMethod := by
  obtain ⟨place, cause, rfl, hcause⟩ := h
  rintro ⟨receiver, name, hmethod⟩
  rw [show cause = .duplicateMethod receiver name from hmethod] at hcause
  exact hcause

namespace SourceFile

variable {file : SourceFile} {config : Config} {e : ResolveError}

/-- The declarations that are found by name are those of the file. -/
theorem UsesOnly.types (h : file.UsesOnly N)
    (hscope : FileScope.ofDeclarations file.path file.declarations = .ok env.scope) :
    env.UsesOnly N := by
  intro name spec hspec
  obtain ⟨hmem, rfl, hname⟩ := (FileScope.lookup_eq_type_iff hscope).mp hspec
  exact h.named spec (mem_typeSpecs.mpr hmem) hname

/-- The types of a file are at fault, unless a name is declared twice. -/
theorem settleTypes_fails (hN : file.UsesOnly N) (h : file.settleTypes config = .error e) :
    (∃ name, e.cause = .redeclared name) ∨ ∃ env : Env, env.IsTypeErrorOver N e := by
  rcases Except.bind_eq_error_iff.mp h with h | ⟨⟨env, p⟩, -, h⟩
  · rcases Except.bind_eq_error_iff.mp h with h | ⟨scope, hscope, h⟩
    · exact .inl (FileScope.cause_of_ofDeclarations_error h)
    · rcases Except.bind_eq_error_iff.mp h with h | ⟨_, -, h⟩
      · let env : Env := ⟨file.path, file.packageName, config, scope⟩
        have hfails : FailsOnly (env.IsTypeErrorOver N) (file.typeSpecs.forM env.resolveTypeSpec) :=
          FailsOnly.forM fun spec hspec =>
            Env.resolveTypeSpec_fails (hN.types hscope) spec (fun hname =>
              FileScope.isType_iff.mpr ⟨spec, (FileScope.lookup_eq_type_iff hscope).mpr
                ⟨mem_typeSpecs.mp hspec, rfl, hname⟩⟩) (hN.blank spec hspec)
        exact .inr ⟨env, hfails _ e h⟩
      · cases h
  · rcases Except.bind_eq_error_iff.mp h with h | ⟨_, -, h⟩
    · exact .inr ⟨env, Env.settlePending_fails p e h⟩
    · cases h

/-- A file is refused because a name is declared twice, or for a type, or for a method when all else
is resolved. -/
theorem resolve_fails (hN : file.UsesOnly N) (h : file.resolve config = .error e) :
    (∃ name, e.cause = .redeclared name) ∨ (∃ env : Env, env.IsTypeErrorOver N e) ∨
      ∃ env p q, file.settleTypes config = .ok (env, p) ∧ env.SameTypes p q ∧
        env.resolveMethods [] file.methodDecls q = .error e := by
  rw [resolve_eq] at h
  rcases Except.bind_eq_error_iff.mp h with h | ⟨⟨env, p⟩, hsettle, h⟩
  · exact (settleTypes_fails hN h).imp_right .inl
  rcases Except.bind_eq_error_iff.mp h with h | ⟨⟨_, p'⟩, hcheck, h⟩
  · exact .inr (.inl ⟨env, Env.checkContainment_fails p e h⟩)
  obtain ⟨-, rfl⟩ := Env.of_checkContainment_eq_ok hcheck
  have htypes := typesKnown_of_settleTypes hsettle
  obtain ⟨p₀, henter, -⟩ := settleTypes_ok hsettle
  have hnames := hN.types (enterTypes_ok henter).scope
  rcases Except.bind_eq_error_iff.mp h with h | ⟨_, -, h⟩
  · rcases bind_eq_error_iff.mp h with h | ⟨_, q₁, hvalues, h⟩
    · exact .inr (.inl ⟨env, FailsOnly.forM (fun spec hspec =>
        ValueSpec.resolveType_fails hnames spec (hN.values spec hspec)) p e h⟩)
    rcases bind_eq_error_iff.mp h with h | ⟨_, q₂, hdefine, h⟩
    · cases h
    rcases bind_eq_error_iff.mp h with h | ⟨_, q₃, hfunctions, hmethods⟩
    · exact .inr (.inl ⟨env, FailsOnly.forM (fun decl hdecl =>
        Env.resolveFunc_fails hnames decl (hN.functions decl hdecl)) q₂ e h⟩)
    rw [modify_eq_ok_iff] at hdefine
    subst hdefine
    obtain ⟨hq₁, -⟩ := htypes.resolveValues_ok htypes.sameTypes hvalues
    obtain ⟨hq₃, -⟩ := htypes.resolveFuncs_ok (hq₁.defineValues _) hfunctions
    exact .inr (.inr ⟨env, p, q₃, hsettle, hq₃, hmethods⟩)
  · cases h

/-- A file is refused for a method only when all else is resolved. -/
theorem methods_of_resolve_error (h : file.resolve config = .error e) (hmethod : e.IsOfMethod) :
    ∃ env p q, file.settleTypes config = .ok (env, p) ∧ env.SameTypes p q ∧
      env.resolveMethods [] file.methodDecls q = .error e := by
  rcases resolve_fails (.all file) h with ⟨name, hcause⟩ | ⟨env, hfails⟩ | hmethods
  · obtain ⟨receiver, method, hmethod⟩ := hmethod
    rw [hcause] at hmethod
    cases hmethod
  · exact absurd hmethod hfails.ofType.not_isOfMethod
  · exact hmethods

/-- What an error denies of a name, it denies of a name that is used in the file. -/
theorem denies_of_resolve_error (hN : file.UsesOnly N) (h : file.resolve config = .error e)
    {name : String} (hdenies : e.cause.Denies name) : N name := by
  rcases resolve_fails hN h with ⟨other, hcause⟩ | ⟨env, hfails⟩ | ⟨env, p, q, hsettle, -, hmethods⟩
  · rw [hcause] at hdenies
    cases hdenies
  · exact hfails.names name hdenies
  · obtain ⟨p₀, henter, -⟩ := settleTypes_ok hsettle
    exact Env.resolveMethods_denies (hN.types (enterTypes_ok henter).scope) hN.methods []
      q e hmethods name hdenies

end SourceFile

end GoSignatures

import GoSignatures.Proofs.Resolution.Declarations

/-!
# The order of names in a scope

A file scope lists its names in the order of their declarations. Resolving never sees that order: it
looks names up, and it counts the types for the depth to which their declarations may nest. So in a
scope with the same names in another order everything is resolved in the same way.

* `Env.withEntries` — the names of the scope listed in another way
* `TypeExpr.resolve_withEntries` — a type expression is resolved in the same way
* `Env.resolveAll_withEntries` — so are all declarations of a file
-/

namespace GoSignatures

/-- The same surroundings with the names of the scope listed in another way. -/
def Env.withEntries (env : Env) (entries : List (String × ScopeEntry)) : Env :=
  { env with scope := { env.scope with entries } }

section

variable {env : Env} {entries : List (String × ScopeEntry)}
  (h : ∀ name, entries.lookup name = env.scope.lookup name)
include h

/-- Looking a name up gives the same in both scopes, by assumption. -/
theorem FileScope.lookup_withEntries (name : String) :
    (env.withEntries entries).scope.lookup name = env.scope.lookup name :=
  h name

theorem FileScope.isAlias_withEntries (name : String) :
    (env.withEntries entries).scope.isAlias name = env.scope.isAlias name := by
  rw [isAlias, isAlias, lookup_withEntries h]

theorem Expr.arrayLen_withEntries : ∀ e : Expr,
    e.arrayLen (env.withEntries entries).scope = e.arrayLen env.scope
  | .int _ | .other _ => rfl
  | .name text => by rw [Expr.arrayLen, Expr.arrayLen, FileScope.lookup_withEntries h]
  | .group inner => arrayLen_withEntries inner
termination_by structural e => e

/-! ## Type expressions -/

section

variable (enter : EnterType) (params : List String)

/-- A name is resolved by looking it up. -/
theorem Ty.ofName_withEntries (name : Piece) :
    Ty.ofName (env.withEntries entries) enter params name = Ty.ofName env enter params name := by
  unfold Ty.ofName
  rw [FileScope.lookup_withEntries h]
  rfl

theorem TypeName.resolve_withEntries (args : List Ty) (name : TypeName) :
    name.resolve (env.withEntries entries) enter params args =
      name.resolve env enter params args := by
  cases name with
  | plain name =>
    simp only [resolve, Ty.ofBareName, Ty.ofGenericName, Ty.ofName_withEntries h,
      FileScope.isAlias_withEntries h]
    rfl
  | qualified package name => rfl

-- each lemma of the block has the assumptions for the others, which the linter does not see
set_option linter.unusedSectionVars false in
mutual

/-- A type expression does not see in which order the names of the scope are listed. -/
theorem TypeExpr.resolve_withEntries : ∀ e : TypeExpr,
    e.resolve (env.withEntries entries) enter params = e.resolve env enter params
  | .named name args => by
    simp only [TypeExpr.resolve, TypeArg.resolveAll_withEntries args, name.resolve_withEntries h]
  | .pointer elem | .slice elem | .chan _ elem | .group elem | .tilde elem => by
    simp only [TypeExpr.resolve, TypeExpr.resolve_withEntries elem]
  | .array length elem => by
    simp only [TypeExpr.resolve, TypeExpr.resolve_withEntries elem, length.arrayLen_withEntries h]
  | .map key value => by
    simp only [TypeExpr.resolve, TypeExpr.resolve_withEntries key,
      TypeExpr.resolve_withEntries value]
  | .func sig => by simp only [TypeExpr.resolve, SignatureExpr.resolve_withEntries sig]
  | .struct fields => by simp only [TypeExpr.resolve, FieldDecl.resolveAll_withEntries fields]
  | .interface elems => by simp only [TypeExpr.resolve, InterfaceElem.resolveAll_withEntries elems]
termination_by structural e => e

theorem TypeExpr.resolveTerms_withEntries : ∀ terms : List TypeExpr,
    TypeExpr.resolveTerms (env.withEntries entries) enter params terms =
      TypeExpr.resolveTerms env enter params terms
  | [] => rfl
  | term :: terms => by
    have hterm := TypeExpr.resolve_withEntries term
    have hterms := TypeExpr.resolveTerms_withEntries terms
    cases term
    case tilde inner =>
      simp only [TypeExpr.resolveTerms, TypeExpr.resolve_withEntries inner, hterms]
    all_goals simp only [TypeExpr.resolveTerms, hterm, hterms]
termination_by structural terms => terms

theorem TypeArg.resolveAll_withEntries : ∀ args : List TypeArg,
    TypeArg.resolveAll (env.withEntries entries) enter params args =
      TypeArg.resolveAll env enter params args
  | [] => rfl
  | ⟨_, terms⟩ :: args => by
    simp only [TypeArg.resolveAll, TypeExpr.resolveTerms_withEntries terms,
      TypeArg.resolveAll_withEntries args]
termination_by structural args => args

theorem SignatureExpr.resolve_withEntries : ∀ sig : SignatureExpr,
    sig.resolve (env.withEntries entries) enter params = sig.resolve env enter params
  | ⟨decls, results⟩ => by
    simp only [SignatureExpr.resolve, ParamDecl.resolveAll_withEntries decls,
      ResultExpr.resolve_withEntries results]
termination_by structural sig => sig

theorem ResultExpr.resolve_withEntries : ∀ results : ResultExpr,
    results.resolve (env.withEntries entries) enter params = results.resolve env enter params
  | .list decls => by simp only [ResultExpr.resolve, ParamDecl.resolveAll_withEntries decls]
  | .single type => by simp only [ResultExpr.resolve, TypeExpr.resolve_withEntries type]
termination_by structural results => results

theorem ParamDecl.resolveAll_withEntries : ∀ decls : List ParamDecl,
    ParamDecl.resolveAll (env.withEntries entries) enter params decls =
      ParamDecl.resolveAll env enter params decls
  | [] => rfl
  | ⟨_, type, _⟩ :: decls => by
    simp only [ParamDecl.resolveAll, TypeExpr.resolve_withEntries type,
      ParamDecl.resolveAll_withEntries decls]
termination_by structural decls => decls

theorem FieldDecl.resolveAll_withEntries : ∀ decls : List FieldDecl,
    FieldDecl.resolveAll (env.withEntries entries) enter params decls =
      FieldDecl.resolveAll env enter params decls
  | [] => rfl
  | .named _ type _ :: decls => by
    simp only [FieldDecl.resolveAll, TypeExpr.resolve_withEntries type,
      FieldDecl.resolveAll_withEntries decls]
  | .embedded _ name args _ :: decls => by
    simp only [FieldDecl.resolveAll, TypeArg.resolveAll_withEntries args,
      name.resolve_withEntries h, FieldDecl.resolveAll_withEntries decls]
termination_by structural decls => decls

theorem InterfaceElem.resolveAll_withEntries : ∀ elems : List InterfaceElem,
    InterfaceElem.resolveAll (env.withEntries entries) enter params elems =
      InterfaceElem.resolveAll env enter params elems
  | [] => rfl
  | .method _ sig :: elems => by
    simp only [InterfaceElem.resolveAll, SignatureExpr.resolve_withEntries sig,
      InterfaceElem.resolveAll_withEntries elems]
  | .union terms :: elems => by
    simp only [InterfaceElem.resolveAll, TypeExpr.resolveTerms_withEntries terms,
      InterfaceElem.resolveAll_withEntries elems]
termination_by structural elems => elems

end

theorem TypeParamDecl.resolveAll_withEntries (decls : List TypeParamDecl) :
    TypeParamDecl.resolveAll (env.withEntries entries) enter params decls =
      TypeParamDecl.resolveAll env enter params decls := by
  induction decls with
  | nil => rfl
  | cons decl decls ih =>
    cases decl
    simp only [TypeParamDecl.resolveAll, TypeExpr.resolveTerms_withEntries h, ih]

end

/-! ## Declarations -/

theorem TypeSpec.resolveDefined_withEntries (enter : EnterType) (id : Nat) (spec : TypeSpec) :
    spec.resolveDefined (env.withEntries entries) enter id = spec.resolveDefined env enter id := by
  simp only [resolveDefined, TypeParamDecl.resolveAll_withEntries h,
    TypeExpr.resolve_withEntries h]

namespace Env

theorem enterType_withEntries (depth : Nat) (resolving : List String) :
    (env.withEntries entries).enterType depth resolving = env.enterType depth resolving := by
  induction depth generalizing resolving with
  | zero => rfl
  | succ depth ih =>
    funext name
    simp only [enterType, FileScope.lookup_withEntries h, ih, TypeExpr.resolve_withEntries h,
      TypeSpec.resolveDefined_withEntries h]
    rfl

variable (hnesting : (env.withEntries entries).scope.nesting = env.scope.nesting)
include hnesting

/-- The scopes have as many types, so declarations may nest as deep in both. -/
theorem enter_withEntries : (env.withEntries entries).enter = env.enter := by
  rw [enter, enter, hnesting, enterType_withEntries h]

theorem resolveTypeSpec_withEntries :
    (env.withEntries entries).resolveTypeSpec = env.resolveTypeSpec := by
  funext spec
  simp only [resolveTypeSpec, enter_withEntries h hnesting, TypeExpr.resolve_withEntries h]

theorem resolveType_withEntries :
    ValueSpec.resolveType (env.withEntries entries) = ValueSpec.resolveType env := by
  funext spec
  simp only [ValueSpec.resolveType, enter_withEntries h hnesting, TypeExpr.resolve_withEntries h]

theorem resolveFunc_withEntries : (env.withEntries entries).resolveFunc = env.resolveFunc := by
  funext decl
  simp only [resolveFunc, enter_withEntries h hnesting, TypeParamDecl.resolveAll_withEntries h,
    SignatureExpr.resolve_withEntries h]

theorem resolveMethod_withEntries :
    (env.withEntries entries).resolveMethod = env.resolveMethod := by
  funext decl
  have hbase : (env.withEntries entries).checkReceiverBase = env.checkReceiverBase := by
    funext base
    simp only [checkReceiverBase, FileScope.lookup_withEntries h]
    rfl
  simp only [resolveMethod, hbase, enter_withEntries h hnesting, TypeExpr.resolve_withEntries h,
    SignatureExpr.resolve_withEntries h]
  rfl

/-- Methods are told apart by the texts of their receivers, which no scope changes. -/
theorem resolveMethods_withEntries (seen : List (String × String)) (decls : List MethodDecl) :
    (env.withEntries entries).resolveMethods seen decls = env.resolveMethods seen decls := by
  induction decls generalizing seen with
  | nil => rfl
  | cons decl decls ih =>
    simp only [resolveMethods, resolveMethod_withEntries h hnesting, ih]
    rfl

/-- The declarations that follow the types are resolved in the same way. -/
theorem resolveOthers_withEntries (file : SourceFile) :
    (env.withEntries entries).resolveOthers file = env.resolveOthers file := by
  simp only [resolveOthers, resolveType_withEntries h hnesting, resolveFunc_withEntries h hnesting,
    resolveMethods_withEntries h hnesting]

/-- All declarations of a file are resolved in the same way. -/
theorem resolveAll_withEntries (file : SourceFile) :
    (env.withEntries entries).resolveAll file = env.resolveAll file := by
  show (file.typeSpecs.forM (env.withEntries entries).resolveTypeSpec >>= fun _ =>
    env.settlePending >>= fun _ => env.checkContainment >>= fun _ =>
      (env.withEntries entries).resolveOthers file) = _
  rw [resolveTypeSpec_withEntries h hnesting, resolveOthers_withEntries h hnesting]
  rfl

end Env

end

end GoSignatures

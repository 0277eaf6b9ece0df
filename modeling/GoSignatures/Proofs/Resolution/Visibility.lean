import GoSignatures.Proofs.Resolution.Failing
import GoSignatures.Proofs.Resolution.Instances
import GoSignatures.Proofs.Resolution.Lending
import GoSignatures.Proofs.Resolution.Naming

/-!
# Where type parameters are visible

A type parameter belongs to one declaration: there its name means the parameter, in constraints, in
the right-hand side and in the signature, and everywhere else the name means what it means without
the parameter. In a file that is accepted the declarations are to be read in this way, and in a file
that is refused a name is not to be taken for undefined where it names a type parameter. A blank
declaration is no exception, so it may as well have a name that nothing else uses. The resolver does
so, except that it passes over the type parameters of a blank name.

* `Declaration.Read` — what became known from a declaration is what it means under its own type
  parameters
* `Declaration.outerNames` — the names in a declaration that do not name its own type parameters
* `Declaration.NamedAlike` — a blank declaration that may as well have a fresh name
* `SourceFile.ScopesParams` — type parameters are visible in their own declarations, and only there
* `SourceFile.scopesParams_iff` — they are if those of blank names are
-/

namespace GoSignatures

open Resolve

variable {env : Env} {p q r : Progress} {params : List String}

/-! ## What is read -/

/-- What is to be known from a declaration of a type with the given type parameters and the given
right-hand side. A defined type has its own entry in the table. -/
structure TypeSpec.Known (t : Table) (definitions : List Definition) (spec : TypeSpec)
    (typeParams : List TypeParam) (type : Ty) : Prop where
  given : spec.isAlias = true ∨ spec.name.text = "_" →
    .type ⟨spec.name.text, type, spec.isAlias, spec.name.position⟩ ∈ definitions
  own : spec.isAlias = false → spec.name.text ≠ "_" → ∃ id,
    .type ⟨spec.name.text, .named id [], false, spec.name.position⟩ ∈ definitions ∧
      t.typeParams id = typeParams ∧
      ((∀ target args, type ≠ .named target args) → t.underlying? id = some (t.underlying type))

namespace Declaration

/-- What is known from a declaration is what it means where its own type parameters are visible,
and no others. -/
def Read (env : Env) (p : Progress) (definitions : List Definition) : Declaration → Prop
  | .imported _ => True
  | .type spec => ∃ typeParams type,
    TypeParamDecl.meanings? env p.table (env.typeOf? p) (TypeParamDecl.allNames spec.typeParams)
      spec.typeParams = some typeParams ∧
    spec.type.meaning? env p.table (env.typeOf? p) (TypeParamDecl.allNames spec.typeParams)
      = some type ∧
    spec.Known p.table definitions typeParams type
  | .value spec => ∀ type, spec.type = some type →
    ∃ a, type.meaning? env p.table (env.typeOf? p) [] = some a
  | .func decl => ∃ f, decl.meaning? env p.table (env.typeOf? p) = some f ∧ .func f ∈ definitions
  | .method decl => ∃ f, decl.meaning? env p.table (env.typeOf? p) = some f ∧ .func f ∈ definitions

/-- The names that a declaration uses, without those that name its own type parameters. The base of
a receiver stands outside the type parameters that the receiver declares. -/
def outerNames : Declaration → List String
  | .imported _ => []
  | .type spec =>
    let params := TypeParamDecl.allNames spec.typeParams
    (TypeParamDecl.allUses params spec.typeParams ++ spec.type.uses params).map Prod.fst
  | .value spec => ((spec.type.map (TypeExpr.uses [])).getD []).map Prod.fst
  | .func decl => decl.uses.map Prod.fst
  | .method decl => decl.baseText :: decl.uses.map Prod.fst

/-- The names that a declaration introduces, its type parameters, and the other names it uses. -/
def mentioned (d : Declaration) : List String :=
  d.introduced.map Prod.fst ++ d.params ++ d.outerNames

end Declaration

/-- A name that no declaration of a file mentions. -/
structure SourceFile.Fresh (file : SourceFile) (name : String) : Prop where
  notBlank : name ≠ "_"
  unmentioned : ∀ d ∈ file.declarations, name ∉ d.mentioned

namespace Declaration

/-- If the declaration is that of a blank type, it may as well have any fresh name: the file is
accepted or refused as before, and the reports on it are the same. -/
def NamedAlike (file : SourceFile) (config : Config) (d : Declaration) : Prop :=
  ∀ spec before after name, d = .type spec → spec.name.text = "_" →
    file.declarations = before ++ d :: after → file.Fresh name →
      file.AcceptedAlike (file.naming before after spec name) config

/-- The type parameters of a declaration are visible in it, and only there: if the file is accepted,
the declaration is read; if it is refused because a name is something else than a type parameter,
the name is used where it does not name one. A blank declaration may have a fresh name. -/
structure ScopedIn (file : SourceFile) (config : Config) (d : Declaration) : Prop where
  read : ∀ result, file.resolve config = .ok result →
    ∀ env p, file.settleTypes config = .ok (env, p) → d.Read env p result.definitions
  denied : ∀ e, file.resolve config = .error e → ∀ name ∈ d.params, e.cause.Denies name →
    ∃ d' ∈ file.declarations, name ∈ d'.outerNames
  named : d.NamedAlike file config

end Declaration

/-- Type parameters are visible in their own declarations, and only there. In a file that is
accepted all declarations are read so. In a file that is refused because a name is not declared, is
no type or is generic, the name is used somewhere where it does not name a type parameter. A blank
declaration of a type may as well have a fresh name. -/
structure SourceFile.ScopesParams (file : SourceFile) (config : Config) : Prop where
  read : ∀ result, file.resolve config = .ok result →
    ∀ env p, file.settleTypes config = .ok (env, p) →
      ∀ d ∈ file.declarations, d.Read env p result.definitions
  denied : ∀ e, file.resolve config = .error e → ∀ name, e.cause.Denies name →
    ∃ d ∈ file.declarations, name ∈ d.outerNames
  named : ∀ d ∈ file.declarations, d.NamedAlike file config

/-! ## Definitions last -/

/-- Steps over a list that keep an invariant and all definitions keep them together. -/
theorem Resolve.forM_subset {β : Type} {I : Progress → Prop} {f : β → Resolve Unit} {l : List β}
    (hf : ∀ b ∈ l, ∀ q r, I q → f b q = .ok ((), r) → I r ∧ q.definitions ⊆ r.definitions)
    (hp : I p) (hrun : l.forM f p = .ok ((), q)) : I q ∧ p.definitions ⊆ q.definitions := by
  induction l generalizing p with
  | nil =>
    obtain ⟨-, rfl⟩ := pure_eq_ok_iff.mp hrun
    exact ⟨hp, List.Subset.refl _⟩
  | cons b l ih =>
    obtain ⟨hfirst, hrest⟩ := List.forall_mem_cons.mp hf
    obtain ⟨_, p₁, hrun₁, hrun⟩ := bind_eq_ok_iff.mp hrun
    obtain ⟨hp₁, hsub₁⟩ := hfirst p p₁ hp hrun₁
    obtain ⟨hq, hsub⟩ := ih hrest hp₁ hrun
    exact ⟨hq, List.Subset.trans hsub₁ hsub⟩

namespace Env.TypesKnown

theorem definitions_subset_of_yields {α : Type} {x : Resolve α}
    {S : α → Progress → Prop} (hx : Yields (env.SameTypes p) S x) (hq : env.SameTypes p q) {a : α}
    (hrun : x q = .ok (a, r)) : env.SameTypes p r ∧ q.definitions ⊆ r.definitions := by
  obtain ⟨hr, hext, -⟩ := hx q a r hq hrun
  obtain ⟨methods, hdefinitions, -⟩ := hext.definitions
  exact ⟨hr, hdefinitions ▸ List.subset_append_left _ _⟩

theorem definitions_resolveFunc (h : env.TypesKnown p) (hq : env.SameTypes p q) {decl : FuncDecl}
    (hrun : env.resolveFunc decl q = .ok ((), r)) : q.definitions ⊆ r.definitions := by
  obtain ⟨params, q₁, hparams, hrun⟩ := bind_eq_ok_iff.mp hrun
  obtain ⟨sig, q₂, hsig, hdefine⟩ := bind_eq_ok_iff.mp hrun
  rw [modify_eq_ok_iff] at hdefine
  subst hdefine
  obtain ⟨hq₁, hsub₁⟩ := definitions_subset_of_yields
    (h.typeParams_yields _ decl.typeParams) hq hparams
  obtain ⟨-, hsub₂⟩ := definitions_subset_of_yields
    (h.signature_yields _ decl.signature) hq₁ hsig
  exact fun d hd => List.mem_append_left _ (hsub₂ (hsub₁ hd))

theorem definitions_resolveMethod (h : env.TypesKnown p) (hq : env.SameTypes p q)
    {decl : MethodDecl} {base : String} (hrun : env.resolveMethod decl q = .ok (base, r)) :
    q.definitions ⊆ r.definitions := by
  unfold resolveMethod at hrun
  cases hreceiver : decl.receiver with
  | none =>
    rw [hreceiver] at hrun
    exact absurd hrun fail_ne_ok
  | some receiver =>
    rw [hreceiver] at hrun
    obtain ⟨_, q₀, hbase, hrun⟩ := bind_eq_ok_iff.mp hrun
    obtain ⟨type, q₁, htype, hrun⟩ := bind_eq_ok_iff.mp hrun
    obtain ⟨sig, q₂, hsig, hrun⟩ := bind_eq_ok_iff.mp hrun
    obtain ⟨_, _, hdefine, hrun⟩ := bind_eq_ok_iff.mp hrun
    rw [modify_eq_ok_iff] at hdefine
    obtain ⟨-, rfl⟩ := pure_eq_ok_iff.mp hrun
    subst hdefine
    obtain ⟨-, rfl⟩ := env.of_checkReceiverBase_eq_ok hbase
    obtain ⟨hq₁, hsub₁⟩ := definitions_subset_of_yields
      (h.typeExpr_yields _ receiver.type) hq htype
    obtain ⟨-, hsub₂⟩ := definitions_subset_of_yields
      (h.signature_yields _ decl.signature) hq₁ hsig
    exact fun d hd => List.mem_append_left _ (hsub₂ (hsub₁ hd))

theorem definitions_resolveMethods (h : env.TypesKnown p) (hq : env.SameTypes p q)
    {decls : List MethodDecl} {seen : List (String × String)}
    (hrun : env.resolveMethods seen decls q = .ok ((), r)) : q.definitions ⊆ r.definitions := by
  induction decls generalizing q seen with
  | nil =>
    obtain ⟨-, rfl⟩ := pure_eq_ok_iff.mp hrun
    exact List.Subset.refl _
  | cons decl decls ih =>
    obtain ⟨base, q₁, hfirst, hrest⟩ := bind_eq_ok_iff.mp hrun
    have hsub := h.definitions_resolveMethod hq hfirst
    obtain ⟨hq₁, -⟩ := h.resolveMethod_ok hq hfirst
    split at hrest
    · exact List.Subset.trans hsub (ih hq₁ hrest)
    · split at hrest
      · exact absurd hrest fail_ne_ok
      · exact List.Subset.trans hsub (ih hq₁ hrest)

theorem definitions_resolveValue (h : env.TypesKnown p) (hq : env.SameTypes p q)
    {spec : ValueSpec} (hrun : spec.resolveType env q = .ok ((), r)) :
    env.SameTypes p r ∧ q.definitions ⊆ r.definitions := by
  unfold ValueSpec.resolveType at hrun
  cases htype : spec.type with
  | none =>
    rw [htype] at hrun
    obtain ⟨-, rfl⟩ := pure_eq_ok_iff.mp hrun
    exact ⟨hq, List.Subset.refl _⟩
  | some type =>
    rw [htype] at hrun
    obtain ⟨a, q₁, hresolve, hrun⟩ := bind_eq_ok_iff.mp hrun
    obtain ⟨-, rfl⟩ := pure_eq_ok_iff.mp hrun
    exact definitions_subset_of_yields (h.typeExpr_yields [] type) hq hresolve

/-- What is defined when the declarations that follow the types are resolved stays defined. -/
theorem definitions_resolveOthers (h : env.TypesKnown p) {file : SourceFile}
    (hrun : env.resolveOthers file p = .ok ((), r)) : p.definitions ⊆ r.definitions := by
  obtain ⟨_, q₁, hvalues, hrun⟩ := bind_eq_ok_iff.mp hrun
  obtain ⟨_, q₂, hdefine, hrun⟩ := bind_eq_ok_iff.mp hrun
  obtain ⟨_, q₃, hfunctions, hmethods⟩ := bind_eq_ok_iff.mp hrun
  rw [modify_eq_ok_iff] at hdefine
  subst hdefine
  obtain ⟨hq₁, hsub₁⟩ := Resolve.forM_subset
    (fun spec _ q r hq hrun => h.definitions_resolveValue hq hrun) h.sameTypes hvalues
  obtain ⟨hq₃, hsub₃⟩ := Resolve.forM_subset
    (fun decl _ q r hq hrun => ⟨(h.resolveFunc_ok hq hrun).1, h.definitions_resolveFunc hq hrun⟩)
    (hq₁.defineValues _) hfunctions
  exact fun d hd => h.definitions_resolveMethods hq₃ hmethods
    (hsub₃ (List.mem_append_left _ (hsub₁ hd)))

end Env.TypesKnown

/-- A declaration of a type is defined as the type that it gives. -/
def Env.Defines (env : Env) (p : Progress) (spec : TypeSpec) : Prop :=
  ∃ type, .type ⟨spec.name.text, type, spec.isAlias, spec.name.position⟩ ∈ p.definitions ∧
    ∀ r, p.Later r → env.Gives spec type r

theorem Env.Defines.later {spec : TypeSpec} (hlater : p.Later q)
    (hsub : p.definitions ⊆ q.definitions) (h : env.Defines p spec) : env.Defines q spec := by
  obtain ⟨type, hmem, hgives⟩ := h
  exact ⟨type, hsub hmem, fun r hr => hgives r (hlater.trans hr)⟩

theorem Env.resolveTypeSpecs_define (hnamed : env.scope.Named) {specs : List TypeSpec}
    (hspecs : ∀ spec ∈ specs, spec.name.text ≠ "_" →
      env.scope.lookup spec.name.text = some (.type spec))
    (hp : env.Consistent [] [] p) (hrun : specs.forM env.resolveTypeSpec p = .ok ((), q)) :
    p.Later q ∧ p.definitions ⊆ q.definitions ∧ ∀ spec ∈ specs, env.Defines q spec := by
  induction specs generalizing p with
  | nil =>
    obtain ⟨-, rfl⟩ := pure_eq_ok_iff.mp hrun
    exact ⟨.refl p, List.Subset.refl _, List.forall_mem_nil _⟩
  | cons spec specs ih =>
    obtain ⟨hspec, hspecs⟩ := List.forall_mem_cons.mp hspecs
    obtain ⟨_, p₁, hfirst, hrest⟩ := bind_eq_ok_iff.mp hrun
    obtain ⟨hp₁, hlater₁, -, -⟩ := resolveTypeSpec_ok hnamed hspec hp hfirst
    obtain ⟨type, p₀, -, hext, hdefine, hgives⟩ := resolveTypeSpec_eq_ok hnamed hp hfirst
    obtain ⟨hlater, hsub, hdefines⟩ := ih hspecs hp₁ hrest
    obtain ⟨methods, hmethods, -⟩ := hext.definitions
    have hdefinitions : p₁.definitions = p.definitions ++ methods.map .func ++
        [.type ⟨spec.name.text, type, spec.isAlias, spec.name.position⟩] := by
      rw [hdefine, Progress.define, hmethods]
    have hfirst : env.Defines p₁ spec :=
      ⟨type, by simp [hdefinitions], fun r hr =>
        hgives r ((p₀.later_define _).trans (hdefine ▸ hr))⟩
    refine ⟨hlater₁.trans hlater, fun d hd => hsub ?_,
      List.forall_mem_cons.mpr ⟨hfirst.later hlater hsub, hdefines⟩⟩
    rw [hdefinitions]
    exact List.mem_append_left _ (List.mem_append_left _ hd)

/-! ## Accepted files -/

/-- What another name for a type stands for is what its right-hand side means. -/
theorem Env.Consistent.readsRight_of_alias {opened unset : List EnteredType}
    (h : env.Consistent opened unset p) {name : String} {spec : TypeSpec}
    (hspec : env.scope.lookup name = some (.type spec)) (halias : spec.isAlias = true) {type : Ty}
    (htype : env.typeOf? p name = some type) :
    ∀ q, p.Later q → env.ReadsRight name spec type q := by
  rw [typeOf?, if_pos ((FileScope.isAlias_eq hspec).trans halias)] at htype
  obtain ⟨l, r, hlr, -⟩ := List.lookup_eq_some_iff.mp htype
  obtain ⟨-, spec', hspec', -, hreads⟩ := h.aliases (name, type) (by simp [hlr])
  cases hspec.symm.trans hspec'
  exact hreads

namespace SourceFile

variable {file : SourceFile} {config : Config} {result : ResolvedFile}

theorem definitions_subset_of_resolve (h : file.resolve config = .ok result)
    (hsettle : file.settleTypes config = .ok (env, q)) : q.definitions ⊆ result.definitions := by
  rw [resolve_eq, hsettle, Except.ok_bind] at h
  obtain ⟨⟨_, q'⟩, hcheck, h⟩ := Except.bind_eq_ok_iff.mp h
  obtain ⟨⟨_, r⟩, hothers, h⟩ := Except.bind_eq_ok_iff.mp h
  cases h
  obtain ⟨-, rfl⟩ := Env.of_checkContainment_eq_ok hcheck
  exact (typesKnown_of_settleTypes hsettle).definitions_resolveOthers hothers

theorem defines_of_enterTypes (h : file.enterTypes config = .ok (env, p)) {spec : TypeSpec}
    (hspec : spec ∈ file.typeSpecs) : env.Defines p spec := by
  obtain ⟨scope, hscope, h⟩ := Except.bind_eq_ok_iff.mp h
  obtain ⟨⟨_, q⟩, hrun, h⟩ := Except.bind_eq_ok_iff.mp h
  cases h
  exact (Env.resolveTypeSpecs_define (FileScope.named_ofDeclarations hscope)
    (fun spec hspec hname => (FileScope.lookup_eq_type_iff hscope).mpr
      ⟨mem_typeSpecs.mp hspec, rfl, hname⟩) .initial hrun).2.2 spec hspec

/-- A declaration of a blank name or of another name for a type is read if it has no type
parameters. -/
theorem read_given (hsettle : file.settleTypes config = .ok (env, q)) {spec : TypeSpec}
    (hspec : spec ∈ file.typeSpecs) (hnone : spec.typeParams = [])
    (hgiven : spec.isAlias = true ∨ spec.name.text = "_") :
    (Declaration.type spec).Read env q q.definitions := by
  obtain ⟨p, henter, hsettled⟩ := settled_of_settleTypes hsettle
  have hentered := enterTypes_ok henter
  obtain ⟨type, hmem, hgives⟩ := defines_of_enterTypes henter hspec
  have hgives := hgives q hsettled.later
  have hmeaning : spec.type.meaning? env q.table (env.typeOf? q) [] = some type := by
    by_cases hname : spec.name.text = "_"
    · exact ((if_pos hname).mp hgives).meaning
    · have halias := hgiven.resolve_right hname
      have hnil : spec.params = [] := if_pos halias
      have htype : env.typeOf? p spec.name.text = some type := by
        rw [← hsettled.typeOf?]
        exact (if_neg hname).mp hgives
      have hlookup := (FileScope.lookup_eq_type_iff hentered.scope).mpr
        ⟨mem_typeSpecs.mp hspec, rfl, hname⟩
      exact hnil ▸ (hentered.consistent.readsRight_of_alias hlookup halias htype q
        hsettled.later).meaning
  simp only [Declaration.Read, hnone]
  refine ⟨[], type, rfl, hmeaning, fun _ => ?_, fun halias hname =>
    absurd hgiven (by simp [halias, hname])⟩
  rwa [hsettled.same]

/-- A declaration of a defined type is read. -/
theorem read_defined (hsettle : file.settleTypes config = .ok (env, q)) {spec : TypeSpec}
    (hspec : spec ∈ file.typeSpecs) (halias : spec.isAlias = false)
    (hname : spec.name.text ≠ "_") : (Declaration.type spec).Read env q q.definitions := by
  obtain ⟨p, henter, hsettled⟩ := settled_of_settleTypes hsettle
  have hentered := enterTypes_ok henter
  obtain ⟨_, hmem, hgives⟩ := defines_of_enterTypes henter hspec
  have hparams : spec.params = TypeParamDecl.allNames spec.typeParams := by
    simp [TypeSpec.params, halias]
  have hlookup := (FileScope.lookup_eq_type_iff hentered.scope).mpr
    ⟨mem_typeSpecs.mp hspec, rfl, hname⟩
  obtain ⟨e, he, hename, rfl⟩ := Env.entered_of_typeOf?
    ((FileScope.isAlias_eq hlookup).trans halias) ((if_neg hname).mp (hgives q hsettled.later))
  rw [hsettled.entered] at he
  -- both halves of the declaration were read when the type was entered
  obtain ⟨spec', hspec', hconstraints⟩ := hentered.consistent.params e he (by simp)
  rw [hename] at hspec'
  cases hlookup.symm.trans hspec'
  obtain ⟨type, hright, -⟩ := hentered.consistent.right e he (by simp)
  have hmeans := hright
  obtain ⟨spec', hspec', hreads⟩ := hmeans
  rw [hename] at hspec'
  cases hlookup.symm.trans hspec'
  refine ⟨p.table.typeParams e.id, type, hparams ▸ (hconstraints q hsettled.later).meaning,
    hparams ▸ (hreads q hsettled.later).meaning, ?_, fun _ _ => ⟨e.id, ?_,
      hsettled.settles.typeParams e.id, fun hown => ?_⟩⟩
  · exact fun hgiven => absurd hgiven (by simp [halias, hname])
  · rw [hsettled.same]
    exact halias ▸ hmem
  · refine (hentered.consistent.underlying?_of_right hsettled.settles he hright).resolve_right ?_
    rintro ⟨target, args, htype, -⟩
    exact hown target args htype

/-- A declaration of a type is read, unless its type parameters are passed over. -/
theorem read_typeSpec (hsettle : file.settleTypes config = .ok (env, q)) {spec : TypeSpec}
    (hspec : spec ∈ file.typeSpecs) (hparams : (Declaration.type spec).ignoresParams = false) :
    (Declaration.type spec).Read env q q.definitions := by
  by_cases hgiven : spec.isAlias = true ∨ spec.name.text = "_"
  · refine read_given hsettle hspec ?_ hgiven
    rcases hgiven with halias | hblank
    · simpa [Declaration.ignoresParams, halias] using hparams
    · simpa [Declaration.ignoresParams, hblank] using hparams
  · obtain ⟨halias, hname⟩ := not_or.mp hgiven
    exact read_defined hsettle hspec (by simpa using halias) hname

/-- In a file that is accepted every declaration is read, unless its type parameters are passed
over. -/
theorem read_of_resolve (h : file.resolve config = .ok result)
    (hsettle : file.settleTypes config = .ok (env, q)) {d : Declaration}
    (hd : d ∈ file.declarations) (hparams : d.ignoresParams = false) :
    d.Read env q result.definitions := by
  obtain ⟨env', q', functions, methods, hsettle', -, hread, -, -, -, hdeclared⟩ := resolve_ok h
  cases hsettle.symm.trans hsettle'
  have hdefined : ∀ f ∈ functions ++ methods, .func f ∈ result.definitions := by
    intro f hf
    have hmem : .func f ∈ result.definitions.filter Definition.isDeclared := by
      rw [hdeclared]
      exact List.mem_append_right _ (List.mem_map_of_mem hf)
    exact (List.mem_filter.mp hmem).1
  cases d with
  | imported spec => exact trivial
  | type spec =>
    have hsub := definitions_subset_of_resolve h hsettle
    obtain ⟨typeParams, type, hconstraints, hright, hknown⟩ :=
      read_typeSpec hsettle (mem_typeSpecs.mpr hd) hparams
    refine ⟨typeParams, type, hconstraints, hright, fun hgiven => hsub (hknown.given hgiven),
      fun halias hname => ?_⟩
    obtain ⟨id, hmem, hown⟩ := hknown.own halias hname
    exact ⟨id, hsub hmem, hown⟩
  | value spec =>
    exact fun type htype => (hread.values spec (mem_valueSpecs.mpr hd) type htype).1
  | func decl =>
    obtain ⟨f, hf, hmeaning⟩ := exists_of_mapM_of_mem hread.functions (mem_funcDecls.mpr hd)
    exact ⟨f, hmeaning, hdefined f (List.mem_append_left _ hf)⟩
  | method decl =>
    obtain ⟨f, hf, hmeaning⟩ := exists_of_mapM_of_mem hread.methods (mem_methodDecls.mpr hd)
    exact ⟨f, hmeaning, hdefined f (List.mem_append_right _ hf)⟩

/-! ## Refused files -/

/-- Names that are used without regard to type parameters name one of them, or they are not
hidden. -/
theorem mem_params_or_outerNames {spec : TypeSpec} {u : TypeUse}
    (hu : u ∈ spec.type.uses []) :
    u.1 ∈ (Declaration.type spec).params ∨ u.1 ∈ (Declaration.type spec).outerNames := by
  by_cases hparam : u.1 ∈ TypeParamDecl.allNames spec.typeParams
  · exact .inl hparam
  · have hvisible : u ∈ spec.type.uses (TypeParamDecl.allNames spec.typeParams) := by
      rw [TypeExpr.uses_eq_filter]
      exact List.mem_filter.mpr ⟨hu, by simpa using hparam⟩
    exact .inr (List.mem_map_of_mem (List.mem_append_right _ hvisible))

/-- The names that a file uses name no type parameter of the declaration that uses them, or a type
parameter that is passed over. -/
theorem usesOnly_outerNames (file : SourceFile) : file.UsesOnly fun name =>
    (∃ d ∈ file.declarations, name ∈ d.outerNames) ∨
      ∃ d ∈ file.declarations, d.ignoresParams = true ∧ name ∈ d.params := by
  have hright : ∀ spec ∈ file.typeSpecs, spec.isAlias = true ∨ spec.name.text = "_" →
      ∀ u ∈ spec.type.uses [], (∃ d ∈ file.declarations, u.1 ∈ d.outerNames) ∨
        ∃ d ∈ file.declarations, d.ignoresParams = true ∧ u.1 ∈ d.params := by
    intro spec hspec hplain u hu
    have hmem := mem_typeSpecs.mp hspec
    rcases mem_params_or_outerNames hu with hparam | houter
    · refine .inr ⟨_, hmem, ?_, hparam⟩
      have hsome : spec.typeParams ≠ [] := by
        intro hnone
        rw [Declaration.params, hnone] at hparam
        cases hparam
      simpa [Declaration.ignoresParams, hsome] using hplain
    · exact .inl ⟨_, hmem, houter⟩
  constructor
  · intro spec hspec hname u hu
    by_cases halias : spec.isAlias = true
    · have hparams : spec.params = [] := if_pos halias
      rw [TypeSpec.uses, TypeSpec.constraintUses, if_pos halias, List.nil_append,
        TypeSpec.rightUses, hparams] at hu
      exact hright spec hspec (.inl halias) u hu
    · have hparams : spec.params = TypeParamDecl.allNames spec.typeParams := if_neg halias
      rw [TypeSpec.uses, TypeSpec.constraintUses, if_neg halias, TypeSpec.rightUses, hparams] at hu
      exact .inl ⟨_, mem_typeSpecs.mp hspec, List.mem_map_of_mem hu⟩
  · exact fun spec hspec hname => hright spec hspec (.inr hname)
  · intro spec hspec type htype u hu
    refine .inl ⟨_, mem_valueSpecs.mp hspec, ?_⟩
    rw [Declaration.outerNames, htype]
    exact List.mem_map_of_mem hu
  · exact fun decl hdecl u hu => .inl ⟨_, mem_funcDecls.mp hdecl, List.mem_map_of_mem hu⟩
  · intro decl hdecl
    have hmem := mem_methodDecls.mp hdecl
    exact ⟨fun u hu => .inl ⟨_, hmem, List.mem_cons_of_mem _ (List.mem_map_of_mem hu)⟩,
      .inl ⟨_, hmem, List.mem_cons_self⟩⟩

/-! ## Blank declarations -/

/-- What no declaration mentions is not used in the file. -/
theorem Fresh.unused {name : String} (h : file.Fresh name) : file.Unused name := by
  have hother : ∀ d ∈ file.declarations,
      name ∉ d.introduced.map Prod.fst ∧ name ∉ d.params ∧ name ∉ d.outerNames := by
    intro d hd
    have hnot := h.unmentioned d hd
    rwa [Declaration.mentioned, List.mem_append, List.mem_append, or_assoc, not_or, not_or] at hnot
  refine ⟨h.notBlank, fun hmem => ?_, fun d hd => (hother d hd).2.1, ?_⟩
  · obtain ⟨n, hn, rfl⟩ := List.mem_map.mp hmem
    obtain ⟨d, hd, hn⟩ := List.mem_flatMap.mp hn
    exact (hother d hd).1 (List.mem_map_of_mem hn)
  · refine (usesOnly_outerNames file).mono fun other huses => ?_
    rintro rfl
    rcases huses with ⟨d, hd, hmem⟩ | ⟨d, hd, -, hmem⟩
    · exact (hother d hd).2.2 hmem
    · exact (hother d hd).2.1 hmem

/-- A blank declaration of a type may as well have a fresh name, unless its type parameters are
passed over. -/
theorem namedAlike_of_fresh (file : SourceFile) (config : Config) {d : Declaration}
    (hparams : d.ignoresParams = false) : d.NamedAlike file config := by
  rintro spec before after name rfl hblank hdeclarations hfresh
  have hnone : spec.typeParams = [] := by
    simpa [Declaration.ignoresParams, hblank] using hparams
  exact acceptedAlike_naming hdeclarations hblank hnone hfresh.unused

/-! ## The exact condition -/

/-- Type parameters are visible in their own declarations and only there if and only if this is so
for the declarations whose type parameters are passed over. -/
theorem scopesParams_iff (file : SourceFile) (config : Config) :
    file.ScopesParams config ↔
      ∀ d ∈ file.declarations, d.ignoresParams = true → d.ScopedIn file config := by
  constructor
  · exact fun h d hd _ => ⟨fun result hresolve env p hsettle => h.read result hresolve env p
      hsettle d hd, fun e herror name _ hdenies => h.denied e herror name hdenies, h.named d hd⟩
  · intro h
    refine ⟨fun result hresolve env p hsettle d hd => ?_, fun e herror name hdenies => ?_,
      fun d hd => ?_⟩
    · cases hparams : d.ignoresParams with
      | true => exact (h d hd hparams).read result hresolve env p hsettle
      | false => exact read_of_resolve hresolve hsettle hd hparams
    · rcases denies_of_resolve_error (usesOnly_outerNames file) herror hdenies with
        houter | ⟨d, hd, hparams, hname⟩
      · exact houter
      · exact (h d hd hparams).denied e herror name hname hdenies
    · cases hparams : d.ignoresParams with
      | true => exact (h d hd hparams).named
      | false => exact namedAlike_of_fresh file config hparams

/-! ## A blank generic type -/

/-- The declaration `type _[P any] struct { x P }`. -/
def blankGeneric : TypeSpec where
  name := ⟨"_", ⟨16, 3, 6⟩⟩
  isAlias := false
  typeParams := [⟨["P"], [.named (.plain ⟨"any", ⟨20, 3, 10⟩⟩) []]⟩]
  type := .struct [.named ["x"] (.named (.plain ⟨"P", ⟨36, 3, 26⟩⟩) []) none]

/-- The file with this declaration. -/
def ofBlankGeneric : SourceFile where
  path := "a.go"
  packageName := "p"
  declarations := [.type blankGeneric]

/-- The file is refused since `P` is undefined, but `P` is a type parameter wherever it is used.
Under the name `T` the declaration is accepted. -/
theorem not_scopesParams_ofBlankGeneric :
    ¬ ofBlankGeneric.ScopesParams {} ∧
      ofBlankGeneric.resolve {} = .error (.at "a.go" ⟨36, 3, 26⟩ (.undefinedType "P")) ∧
      ∃ result, (ofBlankGeneric.naming [] [] blankGeneric "T").resolve {} = .ok result := by
  have herror : ofBlankGeneric.resolve {} =
      .error (.at "a.go" ⟨36, 3, 26⟩ (.undefinedType "P")) := by
    rfl
  have haccepted : ((ofBlankGeneric.naming [] [] blankGeneric "T").resolve {}).toOption.isSome =
      true := by
    decide +kernel
  obtain ⟨result, hresult⟩ := Option.isSome_iff_exists.mp haccepted
  refine ⟨fun h => ?_, herror, result, Except.toOption_eq_some_iff.mp hresult⟩
  obtain ⟨d, hd, hname⟩ := h.denied _ herror "P" rfl
  obtain rfl := List.mem_singleton.mp hd
  revert hname
  decide

end SourceFile

end GoSignatures

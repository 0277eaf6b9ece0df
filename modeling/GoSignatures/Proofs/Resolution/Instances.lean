import GoSignatures.Proofs.Resolution.Functions

/-!
# Instances that are written

An instance is a use of an unqualified name with type arguments. In an expression that means
something, the name of an instance is declared as a type, and no type parameter hides it; only
other names for types are instantiated whatever they declare.

* `Declaration.uses` — the names that a declaration uses, hidden ones included
* `TypeExpr.instantiates_of_meaning?` — what is known of the instances in an expression
-/

namespace GoSignatures

/-! ## Uses in declarations -/

namespace Declaration

/-- The type parameters in force in a declaration. -/
def params : Declaration → List String
  | .type spec => TypeParamDecl.allNames spec.typeParams
  | .func decl => decl.params
  | .method decl => decl.params
  | .imported _ | .value _ => []

/-- The names that are used as types in a declaration, type parameters included. -/
def uses : Declaration → List TypeUse
  | .imported _ => []
  | .type spec => TypeParamDecl.allUses [] spec.typeParams ++ spec.type.uses []
  | .value spec => (spec.type.map (TypeExpr.uses [])).getD []
  | .func decl => TypeParamDecl.allUses [] decl.typeParams ++ decl.signature.uses []
  | .method decl =>
    (decl.receiver.map fun receiver => receiver.type.uses []).getD [] ++ decl.signature.uses []

/-- Whether the type parameters of a declaration are passed over: those of another name for a type,
or of a blank name. -/
def ignoresParams : Declaration → Bool
  | .type spec => (spec.isAlias || spec.name.text == "_") && !spec.typeParams.isEmpty
  | _ => false

end Declaration

/-- How many type parameters a name declares where it may name a type parameter. -/
def FileScope.arityUnder (scope : FileScope) (params : List String) (name : String) : Nat :=
  if params.contains name then 0 else scope.arityOf name

/-! ## Instances in expressions -/

variable {env : Env} {p q : Progress} {t : Table} {m : Meanings} {params : List String}

/-- The instances among the uses that are written name other names for types, or types that no type
parameter hides; these are among the uses that are counted. -/
def Env.Instantiates (env : Env) (params : List String) (written counted : List TypeUse) : Prop :=
  ∀ u ∈ written, u.2 ≠ 0 → env.scope.isAlias u.1 = true ∨
    env.scope.isType u.1 = true ∧ params.contains u.1 = false ∧ u ∈ counted

theorem Env.Instantiates.nil {counted : List TypeUse} : env.Instantiates params [] counted :=
  List.forall_mem_nil _

theorem Env.Instantiates.append {us vs us' vs' : List TypeUse} (h : env.Instantiates params us us')
    (h' : env.Instantiates params vs vs') : env.Instantiates params (us ++ vs) (us' ++ vs') := by
  refine List.forall_mem_append.mpr ⟨fun u hu hcount => ?_, fun u hu hcount => ?_⟩
  · exact (h u hu hcount).imp_right fun ⟨htype, hparam, hmem⟩ =>
      ⟨htype, hparam, List.mem_append_left _ hmem⟩
  · exact (h' u hu hcount).imp_right fun ⟨htype, hparam, hmem⟩ =>
      ⟨htype, hparam, List.mem_append_right _ hmem⟩

theorem TypeName.instantiates_of_meaning? {name : TypeName} {args : List Ty} {type : Ty}
    (h : name.meaning? env t m params args = some type) :
    env.Instantiates params (name.uses [] args.length) (name.uses params args.length) := by
  cases name with
  | qualified package name => exact .nil
  | plain name =>
    intro u hu hcount
    obtain rfl : u = (name.text, args.length) := by simpa [uses] using hu
    have hargs : ¬ args.isEmpty = true := by
      rw [List.isEmpty_iff_length_eq_zero]
      exact hcount
    rw [meaning?, if_neg hargs, Ty.ofGenericName?] at h
    obtain ⟨head, hhead, h⟩ := Option.bind_eq_some_iff.mp h
    split at h
    · obtain ⟨htype, -⟩ := Option.ite_none_right_eq_some.mp h
      obtain ⟨hparam, -⟩ := Ty.ofName?_of_isType htype hhead
      refine .inr ⟨htype, hparam, ?_⟩
      rw [uses, if_neg (by simpa using hparam)]
      exact List.mem_singleton_self _
    · exact .inl (Option.ite_none_right_eq_some.mp h).1

mutual

/-- The instances in a type expression that means something name types that it uses, or other names
for types. -/
theorem TypeExpr.instantiates_of_meaning? : ∀ (e : TypeExpr) {type : Ty},
    e.meaning? env t m params = some type → env.Instantiates params (e.uses []) (e.uses params)
  | .named name args, type, h => by
    obtain ⟨types, htypes, h⟩ := Option.bind_eq_some_iff.mp h
    have hname := TypeName.instantiates_of_meaning? h
    rw [TypeArg.length_meanings? htypes] at hname
    exact (TypeArg.instantiates_of_meanings? args htypes).append hname
  | .pointer elem, type, h => by
    obtain ⟨_, helem, -⟩ := Option.of_return_eq_some h
    exact TypeExpr.instantiates_of_meaning? elem helem
  | .slice elem, type, h => by
    obtain ⟨_, helem, -⟩ := Option.of_return_eq_some h
    exact TypeExpr.instantiates_of_meaning? elem helem
  | .array _ elem, type, h => by
    obtain ⟨_, helem, -⟩ := Option.of_return_eq_some h
    exact TypeExpr.instantiates_of_meaning? elem helem
  | .map key value, type, h => by
    obtain ⟨_, _, hkey, hvalue, -⟩ := Option.of_return₂_eq_some h
    exact (TypeExpr.instantiates_of_meaning? key hkey).append
      (TypeExpr.instantiates_of_meaning? value hvalue)
  | .chan _ elem, type, h => by
    obtain ⟨_, helem, -⟩ := Option.of_return_eq_some h
    exact TypeExpr.instantiates_of_meaning? elem helem
  | .func sig, type, h => by
    obtain ⟨_, hsig, -⟩ := Option.of_return_eq_some h
    exact SignatureExpr.instantiates_of_meaning? sig hsig
  | .struct fields, type, h => by
    obtain ⟨_, hfields, -⟩ := Option.of_return_eq_some h
    exact FieldDecl.instantiates_of_meanings? fields hfields
  | .interface elems, type, h => by
    obtain ⟨_, helems, -⟩ := Option.of_return_eq_some h
    exact InterfaceElem.instantiates_of_meanings? elems helems
  | .group inner, type, h => TypeExpr.instantiates_of_meaning? inner h
  | .tilde inner, type, h => by
    obtain ⟨_, hinner, -⟩ := Option.of_return_eq_some h
    exact TypeExpr.instantiates_of_meaning? inner hinner
termination_by structural e => e

theorem TypeExpr.instantiates_of_termMeanings? : ∀ (terms : List TypeExpr) {found : List Term},
    TypeExpr.termMeanings? env t m params terms = some found →
      env.Instantiates params (TypeExpr.allUses [] terms) (TypeExpr.allUses params terms)
  | [], _, _ => .nil
  | term :: terms, found, h => by
    have hterm : ∀ {type}, term.meaning? env t m params = some type →
        env.Instantiates params (term.uses []) (term.uses params) :=
      TypeExpr.instantiates_of_meaning? term
    have hterms : ∀ {found}, TypeExpr.termMeanings? env t m params terms = some found →
        env.Instantiates params (TypeExpr.allUses [] terms) (TypeExpr.allUses params terms) :=
      TypeExpr.instantiates_of_termMeanings? terms
    cases term
    case tilde inner =>
      obtain ⟨type, _, hinner, hrest, -⟩ := Option.of_return₂_eq_some h
      have hfirst : TypeExpr.meaning? env t m params (.tilde inner) =
          some (.union [⟨true, type⟩]) := by
        simp [TypeExpr.meaning?, hinner]
      exact (hterm hfirst).append (hterms hrest)
    all_goals
      obtain ⟨_, _, hfirst, hrest, -⟩ := Option.of_return₂_eq_some h
      exact (hterm hfirst).append (hterms hrest)
termination_by structural terms => terms

theorem TypeArg.instantiates_of_meanings? : ∀ (args : List TypeArg) {types : List Ty},
    TypeArg.meanings? env t m params args = some types →
      env.Instantiates params (TypeArg.allUses [] args) (TypeArg.allUses params args)
  | [], _, _ => .nil
  | ⟨_, terms⟩ :: args, types, h => by
    obtain ⟨_, _, hterms, hargs, -⟩ := Option.of_return₂_eq_some h
    exact (TypeExpr.instantiates_of_termMeanings? terms hterms).append
      (TypeArg.instantiates_of_meanings? args hargs)
termination_by structural args => args

theorem SignatureExpr.instantiates_of_meaning? : ∀ (sig : SignatureExpr) {signature : Signature},
    sig.meaning? env t m params = some signature →
      env.Instantiates params (sig.uses []) (sig.uses params)
  | ⟨decls, results⟩, signature, h => by
    obtain ⟨_, _, hdecls, hresults, -⟩ := Option.of_return₂_eq_some h
    exact (ParamDecl.instantiates_of_meanings? decls hdecls).append
      (ResultExpr.instantiates_of_meaning? results hresults)
termination_by structural sig => sig

theorem ResultExpr.instantiates_of_meaning? : ∀ (results : ResultExpr) {vars : List Var},
    results.meaning? env t m params = some vars →
      env.Instantiates params (results.uses []) (results.uses params)
  | .list decls, vars, h => ParamDecl.instantiates_of_meanings? decls h
  | .single type, vars, h => by
    obtain ⟨_, htype, -⟩ := Option.of_return_eq_some h
    exact TypeExpr.instantiates_of_meaning? type htype
termination_by structural results => results

theorem ParamDecl.instantiates_of_meanings? : ∀ (decls : List ParamDecl) {vars : List Var},
    ParamDecl.meanings? env t m params decls = some vars →
      env.Instantiates params (ParamDecl.allUses [] decls) (ParamDecl.allUses params decls)
  | [], _, _ => .nil
  | ⟨_, type, _⟩ :: decls, vars, h => by
    obtain ⟨_, _, htype, hdecls, -⟩ := Option.of_return₂_eq_some h
    exact (TypeExpr.instantiates_of_meaning? type htype).append
      (ParamDecl.instantiates_of_meanings? decls hdecls)
termination_by structural decls => decls

theorem FieldDecl.instantiates_of_meanings? : ∀ (decls : List FieldDecl) {fields : List Field},
    FieldDecl.meanings? env t m params decls = some fields →
      env.Instantiates params (FieldDecl.allUses [] decls) (FieldDecl.allUses params decls)
  | [], _, _ => .nil
  | .named _ type _ :: decls, fields, h => by
    obtain ⟨_, _, htype, hdecls, -⟩ := Option.of_return₂_eq_some h
    exact (TypeExpr.instantiates_of_meaning? type htype).append
      (FieldDecl.instantiates_of_meanings? decls hdecls)
  | .embedded _ name args _ :: decls, fields, h => by
    obtain ⟨types, hargs, h⟩ := Option.bind_eq_some_iff.mp h
    obtain ⟨_, _, htype, hdecls, -⟩ := Option.of_return₂_eq_some h
    have hname := TypeName.instantiates_of_meaning? htype
    rw [TypeArg.length_meanings? hargs] at hname
    exact ((TypeArg.instantiates_of_meanings? args hargs).append hname).append
      (FieldDecl.instantiates_of_meanings? decls hdecls)
termination_by structural decls => decls

theorem InterfaceElem.instantiates_of_meanings? :
    ∀ (elems : List InterfaceElem) {found : List ResolvedElem},
      InterfaceElem.meanings? env t m params elems = some found →
        env.Instantiates params (InterfaceElem.allUses [] elems)
          (InterfaceElem.allUses params elems)
  | [], _, _ => .nil
  | .method _ sig :: elems, found, h => by
    obtain ⟨_, _, hsig, helems, -⟩ := Option.of_return₂_eq_some h
    exact (SignatureExpr.instantiates_of_meaning? sig hsig).append
      (InterfaceElem.instantiates_of_meanings? elems helems)
  | .union terms :: elems, found, h => by
    obtain ⟨_, _, hterms, helems, -⟩ := Option.of_return₂_eq_some h
    exact (TypeExpr.instantiates_of_termMeanings? terms hterms).append
      (InterfaceElem.instantiates_of_meanings? elems helems)
termination_by structural elems => elems

end

theorem TypeParamDecl.instantiates_of_meanings? {decls : List TypeParamDecl}
    {found : List TypeParam} (h : TypeParamDecl.meanings? env t m params decls = some found) :
    env.Instantiates params (TypeParamDecl.allUses [] decls)
      (TypeParamDecl.allUses params decls) := by
  induction decls generalizing found with
  | nil => exact .nil
  | cons decl decls ih =>
    obtain ⟨_, _, hterms, hdecls, -⟩ := Option.of_return₂_eq_some h
    exact (TypeExpr.instantiates_of_termMeanings? decl.constraint hterms).append (ih hdecls)

/-! ## Instances of a file -/

/-- The instances among uses, except for those of other names for types, have as many arguments as
their names declare type parameters. -/
def FileScope.Matches (scope : FileScope) (params : List String) (uses : List TypeUse) : Prop :=
  ∀ u ∈ uses, u.2 ≠ 0 → scope.isAlias u.1 = false → u.2 = scope.arityUnder params u.1

theorem FileScope.Matches.append {scope : FileScope} {params : List String} {us vs : List TypeUse}
    (h : scope.Matches params us) (h' : scope.Matches params vs) :
    scope.Matches params (us ++ vs) :=
  List.forall_mem_append.mpr ⟨h, h'⟩

theorem Env.Fits.counted_of_set {u : TypeUse} (h : env.Fits [] q u) (name : String) :
    env.Counted name q u := by
  intro htype
  obtain ⟨type, hmeans, hcount⟩ := h htype
  exact ⟨type, hmeans, fun id hid => Or.inl ((hcount id hid).2 List.not_mem_nil)⟩

namespace SourceFile

variable {file : SourceFile} {config : Config} {result : ResolvedFile}

/-- Instances that are counted have the right numbers of arguments. -/
theorem matches_of_instantiates (hsettle : file.settleTypes config = .ok (env, q))
    {params : List String} {written counted : List TypeUse}
    (h : env.Instantiates params written counted) {name : String}
    (hcounted : ∀ u ∈ counted, u.2 ≠ 0 → env.Counted name q u) :
    env.scope.Matches params written := by
  intro u hu hcount hdefined
  obtain ⟨htype, hparam, hmem⟩ := (h u hu hcount).resolve_left (by simp [hdefined])
  obtain ⟨type, hmeans, hid⟩ := hcounted u hmem hcount htype
  obtain ⟨e, he, hname, rfl⟩ := Env.entered_of_typeOf? hdefined hmeans
  obtain ⟨p, -, hsettled⟩ := settled_of_settleTypes hsettle
  have hconsistent := hsettled.consistent
  rw [hsettled.entered] at he
  rw [FileScope.arityUnder, if_neg (by simpa using hparam), ← hname, ← hconsistent.arity_entered he,
    ← env.arity_of_later hsettled.later (hconsistent.bounds he).2]
  exact (hid e.id rfl).resolve_right fun hzero => hcount hzero.1

/-- The right-hand side of a type declaration means something. -/
theorem exists_readsRight (henter : file.enterTypes config = .ok (env, p)) (hlater : p.Later q)
    {spec : TypeSpec} (hspec : spec ∈ file.typeSpecs) (hname : spec.name.text ≠ "_") :
    ∃ type, env.ReadsRight spec.name.text spec type q := by
  have hentered := enterTypes_ok henter
  have hlookup : env.scope.lookup spec.name.text = some (.type spec) :=
    (FileScope.lookup_eq_type_iff hentered.scope).mpr ⟨mem_typeSpecs.mp hspec, rfl, hname⟩
  obtain ⟨type, htype⟩ := (hentered.specs spec hspec).named hname
  by_cases halias : env.scope.isAlias spec.name.text = true
  · rw [Env.typeOf?, if_pos halias] at htype
    obtain ⟨l, r, hlr, -⟩ := List.lookup_eq_some_iff.mp htype
    obtain ⟨-, spec', hspec', -, hreads⟩ :=
      hentered.consistent.aliases (spec.name.text, type) (by simp [hlr])
    cases hlookup.symm.trans hspec'
    exact ⟨type, hreads q hlater⟩
  · obtain ⟨e, he, hename, -⟩ := Env.entered_of_typeOf? (by simpa using halias) htype
    obtain ⟨right, ⟨spec', hspec', hreads⟩, -⟩ := hentered.consistent.right e he (by simp)
    rw [hename] at hspec' hreads
    cases hlookup.symm.trans hspec'
    exact ⟨right, hreads q hlater⟩

/-- The constraints of the declaration of a defined type mean something. -/
theorem exists_readsParams (henter : file.enterTypes config = .ok (env, p)) (hlater : p.Later q)
    {spec : TypeSpec} (hspec : spec ∈ file.typeSpecs) (hname : spec.name.text ≠ "_")
    (halias : spec.isAlias = false) :
    ∃ id params, env.ReadsParams spec.name.text id spec params q := by
  have hentered := enterTypes_ok henter
  have hlookup : env.scope.lookup spec.name.text = some (.type spec) :=
    (FileScope.lookup_eq_type_iff hentered.scope).mpr ⟨mem_typeSpecs.mp hspec, rfl, hname⟩
  obtain ⟨type, htype⟩ := (hentered.specs spec hspec).named hname
  obtain ⟨e, he, hename, -⟩ :=
    Env.entered_of_typeOf? ((FileScope.isAlias_eq hlookup).trans halias) htype
  obtain ⟨spec', hspec', hreads⟩ := hentered.consistent.params e he (by simp)
  rw [hename] at hspec' hreads
  cases hlookup.symm.trans hspec'
  exact ⟨e.id, _, hreads q hlater⟩

/-- The instances in type declarations have the right numbers of arguments. -/
theorem matches_typeSpec (hsettle : file.settleTypes config = .ok (env, q)) {spec : TypeSpec}
    (hspec : spec ∈ file.typeSpecs) (hparams : (Declaration.type spec).ignoresParams = false) :
    env.scope.Matches (Declaration.type spec).params (Declaration.type spec).uses := by
  obtain ⟨p, henter, hsettled⟩ := settled_of_settleTypes hsettle
  have hlater := hsettled.later
  by_cases hplain : spec.isAlias = true ∨ spec.name.text = "_"
  · -- there are no type parameters that could be passed over
    have hnone : spec.typeParams = [] := by
      rcases hplain with halias | hblank
      · simpa [Declaration.ignoresParams, halias] using hparams
      · simpa [Declaration.ignoresParams, hblank] using hparams
    simp only [Declaration.params, Declaration.uses, hnone]
    show env.scope.Matches [] (spec.type.uses [])
    by_cases hname : spec.name.text = "_"
    · obtain ⟨type, hreads⟩ := ((enterTypes_ok henter).specs spec hspec).blank hname
      obtain ⟨hmeaning, hfits⟩ := hreads q hlater
      exact matches_of_instantiates hsettle (TypeExpr.instantiates_of_meaning? spec.type hmeaning)
        fun u hu _ => (hfits u hu).counted_of_set "_"
    · obtain ⟨type, hmeaning, hcounted⟩ := exists_readsRight henter hlater hspec hname
      have hnil : spec.params = [] := by simp [TypeSpec.params, hnone, TypeParamDecl.allNames]
      rw [TypeSpec.rightUses, hnil] at hcounted
      rw [hnil] at hmeaning
      exact matches_of_instantiates hsettle (TypeExpr.instantiates_of_meaning? spec.type hmeaning)
        fun u hu _ => hcounted u hu
  · obtain ⟨halias, hname⟩ := not_or.mp hplain
    rw [Bool.not_eq_true] at halias
    have hforce : spec.params = TypeParamDecl.allNames spec.typeParams := by
      simp [TypeSpec.params, halias]
    obtain ⟨type, hmeaning, hcounted⟩ := exists_readsRight henter hlater hspec hname
    obtain ⟨id, params, hconstraints, hown, hcounted'⟩ :=
      exists_readsParams henter hlater hspec hname halias
    refine .append ?_ ?_
    · refine matches_of_instantiates hsettle
        (hforce ▸ TypeParamDecl.instantiates_of_meanings? hconstraints)
        fun u hu hcount => (?_ : env.Counted spec.name.text q u)
      have hu : u ∈ spec.constraintUses := by
        simpa [TypeSpec.constraintUses, halias, hforce] using hu
      -- while its constraints are resolved a type is used without arguments only
      by_cases hself : env.typeOf? q u.1 = some (.named id [])
      · exact fun htype => absurd (hown u hu htype hself) hcount
      · exact hcounted' u hu hself
    · exact matches_of_instantiates hsettle
        (hforce ▸ TypeExpr.instantiates_of_meaning? spec.type hmeaning)
        fun u hu _ => hcounted u (by rwa [TypeSpec.rightUses, hforce])

/-- The instances of a file that is accepted have the right numbers of arguments, except for those
of other names for types and those in declarations whose type parameters are passed over. -/
theorem matches_of_resolve (h : file.resolve config = .ok result) {scope : FileScope}
    (hscope : FileScope.ofDeclarations file.path file.declarations = .ok scope) {d : Declaration}
    (hd : d ∈ file.declarations) (hparams : d.ignoresParams = false) :
    scope.Matches d.params d.uses := by
  obtain ⟨env, q, functions, methods, hsettle, -, hread, -⟩ := resolve_ok h
  obtain ⟨p, henter, -, -⟩ := settleTypes_ok hsettle
  cases hscope.symm.trans (enterTypes_ok henter).scope
  cases d with
  | imported spec => exact List.forall_mem_nil _
  | type spec => exact matches_typeSpec hsettle (mem_typeSpecs.mpr hd) hparams
  | value spec =>
    cases htype : spec.type with
    | none =>
      rw [Declaration.uses, htype]
      exact List.forall_mem_nil _
    | some type =>
      have hspec := mem_valueSpecs.mpr hd
      obtain ⟨⟨a, hmeaning⟩, hfits⟩ := hread.values spec hspec type htype
      rw [Declaration.uses, htype]
      exact matches_of_instantiates hsettle (TypeExpr.instantiates_of_meaning? type hmeaning)
        fun u hu _ => (hfits u hu).counted_of_set ""
  | func decl =>
    have hdecl := mem_funcDecls.mpr hd
    obtain ⟨f, -, hmeaning⟩ := exists_of_mapM_of_mem hread.functions hdecl
    have hfits := hread.functionUses decl hdecl
    simp only [FuncDecl.meaning?, Option.bind_eq_bind, Option.bind_eq_some_iff] at hmeaning
    obtain ⟨_, hconstraints, _, hsig, -⟩ := hmeaning
    exact matches_of_instantiates hsettle
      ((TypeParamDecl.instantiates_of_meanings? hconstraints).append
        (SignatureExpr.instantiates_of_meaning? decl.signature hsig))
      fun u hu _ => (hfits u hu).counted_of_set ""
  | method decl =>
    have hdecl := mem_methodDecls.mpr hd
    obtain ⟨f, -, hmeaning⟩ := exists_of_mapM_of_mem hread.methods hdecl
    have hfits := hread.methodUses decl hdecl
    simp only [MethodDecl.meaning?, Option.bind_eq_bind, Option.bind_eq_some_iff] at hmeaning
    obtain ⟨receiver, hreceiver, _, hbase, _, hsig, -⟩ := hmeaning
    obtain ⟨-, hbase⟩ := Option.ite_none_right_eq_some.mp hbase
    obtain ⟨type, htype, -⟩ := Option.map_eq_some_iff.mp hbase
    rw [MethodDecl.uses, MethodDecl.params, hreceiver] at hfits
    rw [Declaration.uses, Declaration.params, MethodDecl.params, hreceiver]
    rw [MethodDecl.params, hreceiver] at hsig
    exact matches_of_instantiates hsettle
      ((TypeExpr.instantiates_of_meaning? receiver.type htype).append
        (SignatureExpr.instantiates_of_meaning? decl.signature hsig))
      fun u hu _ => (hfits u hu).counted_of_set ""

end SourceFile

end GoSignatures

import GoSignatures.Proofs.Resolution.Entering
import GoSignatures.Proofs.Resolution.Settling
import GoSignatures.Proofs.Scope.Collecting

/-!
# Stages of resolving a file

The declarations of a file are resolved in stages. First its types are entered, then those that are
defined as other types are settled, and only then is it checked that no type contains itself.

* `SourceFile.enterTypes`, `SourceFile.settleTypes` — the first two stages
* `SourceFile.resolve_eq` — all stages together
* `FileScope.Collects` — the types of a scope are those that are declared
* `SourceFile.enterTypes_ok` — after the first stage the invariant holds and all types are known
* `SourceFile.settleTypes_ok` — what the second stage changes
-/

namespace GoSignatures

open Resolve

/-! ## Stages -/

namespace SourceFile

variable (file : SourceFile) (config : Config)

/-- What is found when the type declarations of a file are resolved. -/
def enterTypes : Except ResolveError (Env × Progress) := do
  let scope ← FileScope.ofDeclarations file.path file.declarations
  let env : Env := ⟨file.path, file.packageName, config, scope⟩
  let (_, p) ← (file.typeSpecs.forM env.resolveTypeSpec).run {}
  return (env, p)

/-- What is found when types that are defined as other types have their underlying types. -/
def settleTypes : Except ResolveError (Env × Progress) := do
  let (env, p) ← file.enterTypes config
  let (_, p) ← env.settlePending.run p
  return (env, p)

end SourceFile

/-- Resolves the type that a declaration of variables or constants gives. -/
def ValueSpec.resolveType (env : Env) (spec : ValueSpec) : Resolve Unit := do
  if let some type := spec.type then
    let _ ← type.resolve env env.enter []

/-- Resolves the declarations of a file that are not types. -/
def Env.resolveOthers (env : Env) (file : SourceFile) : Resolve Unit := do
  file.valueSpecs.forM (ValueSpec.resolveType env)
  modify fun p =>
    { p with definitions := p.definitions ++ file.valueSpecs.flatMap ValueSpec.definitions }
  file.funcDecls.forM env.resolveFunc
  env.resolveMethods [] file.methodDecls

theorem SourceFile.resolve_eq (file : SourceFile) (config : Config) :
    file.resolve config = (do
      let (env, p) ← file.settleTypes config
      let (_, p) ← env.checkContainment.run p
      let (_, q) ← (env.resolveOthers file).run p
      return ⟨file.path, file.packageName, q.definitions, q.table⟩) := by
  simp only [resolve, settleTypes, enterTypes, Env.resolveAll, Env.resolveOthers, bind_assoc,
    pure_bind, StateT.run_bind]
  rfl

/-! ## Definitions -/

/-- Whether a definition is that of a variable, a constant or a function at file level. -/
def Definition.isDeclared : Definition → Bool
  | .func f => f.isTopLevel
  | .var _ | .const _ => true
  | .type _ => false

/-- The definitions of variables, constants and functions at file level. -/
def Progress.declared (p : Progress) : List Definition :=
  p.definitions.filter Definition.isDeclared

variable {env : Env} {p q : Progress}

/-- Methods of interfaces are not declared at file level. -/
theorem Progress.Extends.declared (h : p.Extends q) : q.declared = p.declared := by
  obtain ⟨methods, hq, hmethods⟩ := h.definitions
  have hnone : (methods.map Definition.func).filter Definition.isDeclared = [] := by
    refine List.filter_eq_nil_iff.mpr fun d hd => ?_
    obtain ⟨f, hf, rfl⟩ := List.mem_map.mp hd
    simp [Definition.isDeclared, FuncDef.isTopLevel, hmethods f hf]
  rw [Progress.declared, hq, List.filter_append, hnone, List.append_nil, Progress.declared]

/-! ## Entering types -/

namespace Env

/-- Every name that is declared as a type means something. -/
def Complete (env : Env) (p : Progress) : Prop :=
  ∀ name, env.scope.isType name = true → ∃ type, env.typeOf? p name = some type

theorem Consistent.initial : env.Consistent [] [] {} := by
  constructor
  case predeclared => exact List.prefix_rfl
  case grounded =>
    intro id type h
    have hid : id < Table.initial.size := Table.lt_size_of_underlying? h
    exact .predeclared (Nat.le_of_lt_succ hid)
  case ordered =>
    intro l a r h
    simp at h
  all_goals simp [Table.size, Table.initial]

theorem resolveTypeSpec_eq (spec : TypeSpec) :
    env.resolveTypeSpec spec =
      (if spec.name.text = "_" then spec.type.resolve env env.enter [] else env.enter spec.name) >>=
        fun type => modify fun p =>
          p.define (.type ⟨spec.name.text, type, spec.isAlias, spec.name.position⟩) := by
  unfold resolveTypeSpec
  split <;> rfl

/-- A type declaration is known: its name means something, or its right-hand side if the name is
blank. -/
structure SpecFound (env : Env) (p : Progress) (spec : TypeSpec) : Prop where
  named : spec.name.text ≠ "_" → ∃ type, env.typeOf? p spec.name.text = some type
  blank : spec.name.text = "_" → ∃ type, ∀ q, p.Later q →
    env.Reads [] (fun t m => spec.type.meaning? env t m []) (spec.type.uses []) type q

theorem SpecFound.later {spec : TypeSpec} (hlater : p.Later q) (h : env.SpecFound p spec) :
    env.SpecFound q spec where
  named hname := by
    obtain ⟨type, htype⟩ := h.named hname
    exact ⟨type, env.typeOf?_of_later hlater htype⟩
  blank hname := by
    obtain ⟨type, hreads⟩ := h.blank hname
    exact ⟨type, fun r hr => hreads r (hlater.trans hr)⟩

/-- A declaration of a type gives the type that its name means, or its right-hand side if the name
is blank. -/
def Gives (env : Env) (spec : TypeSpec) (type : Ty) (p : Progress) : Prop :=
  if spec.name.text = "_" then
    env.Reads [] (fun t m => spec.type.meaning? env t m []) (spec.type.uses []) type p
  else env.typeOf? p spec.name.text = some type

/-- A declaration of a type that is resolved defines the type that it gives. -/
theorem resolveTypeSpec_eq_ok (hnamed : env.scope.Named) {spec : TypeSpec}
    (hp : env.Consistent [] [] p) (hrun : env.resolveTypeSpec spec p = .ok ((), q)) :
    ∃ type p₁, env.Consistent [] [] p₁ ∧ p.Extends p₁ ∧
      q = p₁.define (.type ⟨spec.name.text, type, spec.isAlias, spec.name.position⟩) ∧
      ∀ r, p₁.Later r → env.Gives spec type r := by
  have henters := enterType_enters hnamed env.scope.nesting []
  rw [resolveTypeSpec_eq] at hrun
  obtain ⟨type, p₁, hresolve, hdefine⟩ := bind_eq_ok_iff.mp hrun
  rw [modify_eq_ok_iff] at hdefine
  refine ⟨type, p₁, ?_⟩
  split at hresolve
  · next hblank =>
    obtain ⟨hp₁, hext, hreads⟩ := TypeExpr.resolve_yields Consistent.keeps (henters [] [])
      spec.type (fun _ _ => .none _) p type p₁ hp hresolve
    exact ⟨hp₁, hext, hdefine.symm, fun r hr => (if_pos hblank).mpr (hreads r hr)⟩
  · next hname =>
    obtain ⟨hp₁, hext, hmeans⟩ :=
      henters [] [] spec.name (.none _) p type p₁ hp hresolve
    exact ⟨hp₁, hext, hdefine.symm, fun r hr => (if_neg hname).mpr (hmeans r hr)⟩

/-- A declaration of types that is resolved keeps the invariant, and it is known. -/
theorem resolveTypeSpec_ok (hnamed : env.scope.Named) {spec : TypeSpec}
    (hspec : spec.name.text ≠ "_" → env.scope.lookup spec.name.text = some (.type spec))
    (hp : env.Consistent [] [] p) (hrun : env.resolveTypeSpec spec p = .ok ((), q)) :
    env.Consistent [] [] q ∧ p.Later q ∧ q.declared = p.declared ∧ env.SpecFound q spec := by
  obtain ⟨type, p₁, hp₁, hext, rfl, hgives⟩ := resolveTypeSpec_eq_ok hnamed hp hrun
  have hlater := p₁.later_define (.type ⟨spec.name.text, type, spec.isAlias, spec.name.position⟩)
  have hdeclared : (p₁.define
      (.type ⟨spec.name.text, type, spec.isAlias, spec.name.position⟩)).declared = p.declared := by
    rw [← hext.declared]
    simp [Progress.declared, Progress.define, List.filter_append, Definition.isDeclared]
  by_cases hname : spec.name.text = "_"
  · have hreads := fun r hr => (if_pos hname).mp (hgives r hr)
    have hproper := Consistent.keeps.counts_meaning hp₁ (fun _ _ => .none _) (hreads p₁ (.refl p₁))
    have hnotOwn : (⟨spec.name.text, type, spec.isAlias, spec.name.position⟩ : TypeDef).isGiven ≠
        false := by
      simp [TypeDef.isGiven, hname]
    exact ⟨hp₁.define ⟨fun _ => hproper, fun hown => absurd hown hnotOwn⟩,
      hext.later.trans hlater, hdeclared, fun hnot => absurd hname hnot,
      fun _ => ⟨type, fun r hr => hreads r (hlater.trans hr)⟩⟩
  · have hmeans := fun r hr => (if_neg hname).mp (hgives r hr)
    have hisAlias := FileScope.isAlias_eq (hspec hname)
    have hproper : (Definition.type ⟨spec.name.text, type, spec.isAlias, spec.name.position⟩).Proper
        (env.counts p₁.table) := by
      constructor
      · intro hgiven
        have halias : env.scope.isAlias spec.name.text = true := by
          rw [hisAlias]
          simpa [TypeDef.isGiven, hname] using hgiven
        exact hp₁.proper_alias halias (hmeans p₁ (.refl p₁))
      · intro hown
        have halias : env.scope.isAlias spec.name.text = false := by
          rw [hisAlias]
          simpa [TypeDef.isGiven, hname] using hown
        obtain ⟨e, he, -, rfl⟩ := entered_of_typeOf? halias (hmeans p₁ (.refl p₁))
        exact ⟨e.id, _, rfl, (hp₁.bounds he).2, Or.inl rfl⟩
    exact ⟨hp₁.define hproper, hext.later.trans hlater, hdeclared,
      fun _ => ⟨type, hmeans _ hlater⟩, fun hblank => absurd hblank hname⟩

/-- Declarations of types that are resolved keep the invariant, and they are known. -/
theorem resolveTypeSpecs_ok (hnamed : env.scope.Named) {specs : List TypeSpec}
    (hspecs : ∀ spec ∈ specs, spec.name.text ≠ "_" →
      env.scope.lookup spec.name.text = some (.type spec))
    (hp : env.Consistent [] [] p) (hrun : specs.forM env.resolveTypeSpec p = .ok ((), q)) :
    env.Consistent [] [] q ∧ p.Later q ∧ q.declared = p.declared ∧
      ∀ spec ∈ specs, env.SpecFound q spec := by
  induction specs generalizing p with
  | nil =>
    obtain ⟨-, rfl⟩ := pure_eq_ok_iff.mp hrun
    exact ⟨hp, .refl p, rfl, fun _ h => by cases h⟩
  | cons spec specs ih =>
    obtain ⟨hspec, hspecs⟩ := List.forall_mem_cons.mp hspecs
    obtain ⟨_, p₁, hfirst, hrest⟩ := bind_eq_ok_iff.mp hrun
    obtain ⟨hp₁, hlater₁, hdeclared₁, hknown⟩ := resolveTypeSpec_ok hnamed hspec hp hfirst
    obtain ⟨hq, hlater, hdeclared, hrest⟩ := ih hspecs hp₁ hrest
    exact ⟨hq, hlater₁.trans hlater, hdeclared.trans hdeclared₁,
      List.forall_mem_cons.mpr ⟨hknown.later hlater, hrest⟩⟩

end Env

/-! ## The scope of a file -/

namespace SourceFile

variable {file : SourceFile}

theorem mem_typeSpecs {spec : TypeSpec} :
    spec ∈ file.typeSpecs ↔ .type spec ∈ file.declarations :=
  mem_filterMap_iff fun d _ => by cases d <;> simp

theorem mem_valueSpecs {spec : ValueSpec} :
    spec ∈ file.valueSpecs ↔ .value spec ∈ file.declarations :=
  mem_filterMap_iff fun d _ => by cases d <;> simp

theorem mem_funcDecls {decl : FuncDecl} :
    decl ∈ file.funcDecls ↔ .func decl ∈ file.declarations :=
  mem_filterMap_iff fun d _ => by cases d <;> simp

theorem mem_methodDecls {decl : MethodDecl} :
    decl ∈ file.methodDecls ↔ .method decl ∈ file.declarations :=
  mem_filterMap_iff fun d _ => by cases d <;> simp

end SourceFile

/-- The types of a scope are those that are declared, each under its own name. -/
def FileScope.Collects (scope : FileScope) (specs : List TypeSpec) : Prop :=
  ∀ name spec, scope.lookup name = some (.type spec) ↔
    spec ∈ specs ∧ spec.name.text = name ∧ name ≠ "_"

namespace FileScope

theorem collects_ofDeclarations {file : SourceFile} {scope : FileScope}
    (h : ofDeclarations file.path file.declarations = .ok scope) :
    scope.Collects file.typeSpecs := by
  intro name spec
  rw [lookup_eq_type_iff h, SourceFile.mem_typeSpecs]

/-- In a collected scope every type stands under its own name. -/
theorem named_ofDeclarations {path : String} {ds : List Declaration} {scope : FileScope}
    (h : ofDeclarations path ds = .ok scope) : scope.Named :=
  fun _ _ hlookup => ((lookup_eq_type_iff h).mp hlookup).2.1

variable {scope : FileScope} {specs specs' : List TypeSpec}

theorem Collects.named (h : scope.Collects specs) : scope.Named :=
  fun name spec hspec => ((h name spec).mp hspec).2.1

theorem Collects.lookup (h : scope.Collects specs) {spec : TypeSpec} (hspec : spec ∈ specs)
    (hname : spec.name.text ≠ "_") : scope.lookup spec.name.text = some (.type spec) :=
  (h spec.name.text spec).mpr ⟨hspec, rfl, hname⟩

/-- It does not matter in which order types are declared. -/
theorem Collects.of_perm (h : scope.Collects specs) (hperm : specs'.Perm specs) :
    scope.Collects specs' := by
  intro name spec
  rw [h name spec, hperm.mem_iff]

end FileScope

/-- All types of a scope are entered, one declaration after the other. -/
theorem Env.enterSpecs_ok {specs : List TypeSpec} (hcollects : env.scope.Collects specs)
    (hrun : specs.forM env.resolveTypeSpec {} = .ok ((), p)) :
    env.Consistent [] [] p ∧ env.Complete p ∧ p.declared = [] ∧
      ∀ spec ∈ specs, env.SpecFound p spec := by
  obtain ⟨hp, -, hdeclared, hknown⟩ := resolveTypeSpecs_ok hcollects.named
    (fun spec hspec hname => hcollects.lookup hspec hname) .initial hrun
  refine ⟨hp, fun name hname => ?_, hdeclared, hknown⟩
  obtain ⟨spec, hspec⟩ := FileScope.isType_iff.mp hname
  obtain ⟨hmem, rfl, hblank⟩ := (hcollects name spec).mp hspec
  exact (hknown spec hmem).named hblank

/-! ## What the stages establish -/

/-- What holds of a file when its types are entered. -/
structure SourceFile.Entered (file : SourceFile) (config : Config) (env : Env) (p : Progress) :
    Prop where
  scope : FileScope.ofDeclarations file.path file.declarations = .ok env.scope
  surroundings : env = ⟨file.path, file.packageName, config, env.scope⟩
  consistent : env.Consistent [] [] p
  complete : env.Complete p
  declared : p.declared = []
  specs : ∀ spec ∈ file.typeSpecs, env.SpecFound p spec

theorem SourceFile.enterTypes_ok {file : SourceFile} {config : Config}
    (h : file.enterTypes config = .ok (env, p)) : file.Entered config env p := by
  obtain ⟨scope, hscope, h⟩ := Except.bind_eq_ok_iff.mp h
  obtain ⟨⟨_, q⟩, hrun, h⟩ := Except.bind_eq_ok_iff.mp h
  cases h
  obtain ⟨hp, hcomplete, hdeclared, hknown⟩ :=
    Env.enterSpecs_ok (FileScope.collects_ofDeclarations hscope) hrun
  exact ⟨hscope, rfl, hp, hcomplete, hdeclared, hknown⟩

/-- Types wait once each, for an underlying type that they do not have. -/
theorem Env.Consistent.waits (h : env.Consistent [] [] p) : p.table.Waits p.pending where
  nodup := h.pending
  size w hw := by
    obtain ⟨-, e, he, hid, -⟩ := h.waiting w hw
    exact hid ▸ (h.bounds he).2
  unknown w hw := (h.waiting w hw).1

/-- A file is refused for a recursive type with a cause that says so. -/
theorem Env.failRecursive_eq (id : Nat) :
    ∃ error name, env.failRecursive id p = .error error ∧
      error.cause = .invalidRecursiveType name := by
  simp only [failRecursive, get_bind]
  cases p.entered.find? fun e => e.id == id with
  | some e => exact ⟨_, _, rfl, rfl⟩
  | none => exact ⟨_, _, rfl, rfl⟩

theorem Env.failRecursive_ne_ok {id : Nat} : env.failRecursive id p ≠ .ok ((), q) := by
  obtain ⟨error, name, herror, -⟩ := env.failRecursive_eq id
  rw [herror]
  simp

theorem Env.checkContainment_eq_ok
    (h : ∀ e ∈ p.entered, p.table.containsItself e.id = false) :
    env.checkContainment p = .ok ((), p) := by
  have hfind : (p.entered.find? fun e => p.table.containsItself e.id) = none := by simpa using h
  simp only [checkContainment, get_bind, hfind]
  rfl

theorem Env.checkContainment_eq_failRecursive {e : EnteredType} (he : e ∈ p.entered)
    (h : p.table.containsItself e.id = true) :
    ∃ e' ∈ p.entered, p.table.containsItself e'.id = true ∧
      env.checkContainment p = env.failRecursive e'.id p := by
  cases hfind : p.entered.find? fun e => p.table.containsItself e.id with
  | none => exact absurd h (List.find?_eq_none.mp hfind e he)
  | some e' =>
    refine ⟨e', List.mem_of_find?_eq_some hfind, by simpa using List.find?_some hfind, ?_⟩
    simp only [checkContainment, get_bind, hfind]

/-- The check passes if no declared type contains itself by value, and changes nothing. -/
theorem Env.of_checkContainment_eq_ok (h : env.checkContainment p = .ok ((), q)) :
    (∀ e ∈ p.entered, p.table.containsItself e.id = false) ∧ p = q := by
  have hcontained : ∀ e ∈ p.entered, p.table.containsItself e.id = false := by
    intro e he
    by_contra hfound
    obtain ⟨e', -, -, hfails⟩ := env.checkContainment_eq_failRecursive he (by simpa using hfound)
    exact failRecursive_ne_ok (hfails.symm.trans h)
  have hrun : (.ok ((), p) : Except ResolveError (Unit × Progress)) = .ok ((), q) :=
    (checkContainment_eq_ok hcontained).symm.trans h
  cases hrun
  exact ⟨hcontained, rfl⟩

/-- Settling keeps what was found. -/
theorem Progress.later_of_settles {t : Table} {remaining : List (Nat × Nat)}
    (h : p.table.Settles t p.pending remaining) (waiting : List (Nat × Nat)) :
    p.Later { p with table := t, pending := waiting } where
  entered := List.prefix_rfl
  aliases := List.prefix_rfl
  size := Nat.le_of_eq h.size.symm
  labels id _ := h.labels id
  underlying id type hid := ⟨h.known id type hid, h.typeParams id⟩

theorem Env.settlePending_ok (h : env.Consistent [] [] p)
    (hrun : env.settlePending p = .ok ((), q)) :
    p.table.Settles q.table p.pending [] ∧ q = { p with table := q.table, pending := [] } := by
  unfold Env.settlePending at hrun
  obtain ⟨_, _, hget, hrun⟩ := bind_eq_ok_iff.mp hrun
  obtain ⟨rfl, rfl⟩ := get_eq_ok_iff.mp hget
  cases hsettle : p.table.settle p.pending with
  | ok t =>
    rw [hsettle, set_eq_ok_iff] at hrun
    subst hrun
    exact ⟨Table.settle_ok h.waits hsettle, rfl⟩
  | error id =>
    rw [hsettle] at hrun
    exact absurd hrun Env.failRecursive_ne_ok

theorem SourceFile.settleTypes_ok {file : SourceFile} {config : Config}
    (h : file.settleTypes config = .ok (env, q)) :
    ∃ p, file.enterTypes config = .ok (env, p) ∧ p.table.Settles q.table p.pending [] ∧
      q = { p with table := q.table, pending := [] } := by
  obtain ⟨⟨env', p⟩, henter, h⟩ := Except.bind_eq_ok_iff.mp h
  obtain ⟨⟨_, q'⟩, hrun, h⟩ := Except.bind_eq_ok_iff.mp h
  cases h
  exact ⟨p, henter, Env.settlePending_ok (enterTypes_ok henter).consistent hrun⟩

end GoSignatures

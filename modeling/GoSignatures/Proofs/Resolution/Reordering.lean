import GoSignatures.Proofs.Recursion.Copying
import GoSignatures.Proofs.Report.Copying
import GoSignatures.Proofs.Report.Parting
import GoSignatures.Proofs.Resolution.Alike
import GoSignatures.Proofs.Resolution.Finding
import GoSignatures.Proofs.Resolution.Naming
import GoSignatures.Proofs.Resolution.Retaining
import GoSignatures.Proofs.Resolution.Scoping

/-!
# Declarations of types in another order

A file stays as it is but for the order in which its types are declared. If it makes no difference
which type is reached first, then the file is accepted as before, and all reports are the same: the
table of the one run is a copy of that of the other, and what follows the types means the same.

* `Env.Settled.othersRead` — what follows the types means the same in both runs
* `Env.resolveAll_reordered` — types in another order are accepted, too
* `SourceFile.Reordered.acceptedAlike` — both files are refused, or both accepted
-/

namespace GoSignatures

open Resolve

variable {env : Env} {p q p' q' : Progress}

/-! ## What follows the types -/

namespace Env.Settled

variable (h : env.Settled p q) (h' : env.Settled p' q')
include h h'

/-- Declared names mean the same in both runs. -/
theorem renumbers (uses : List TypeUse) :
    env.Renumbers (p.placeIn p') q.table q'.table (env.typeOf? q) (env.typeOf? q') uses where
  error := Progress.placeIn_predeclared (Nat.zero_le _)
  comparable := Progress.placeIn_predeclared (Nat.le_refl _)
  nameChars id := Table.nameChars_congr (h.label?_placeIn h' id)
  means u _ htype := by
    obtain ⟨type, hmeans⟩ := h.complete u.1 htype
    rw [h.typeOf?, h'.typeOf?, hmeans,
      h.consistent.typeOf?_placeIn h'.consistent h'.complete hmeans, Option.map_some]

/-- A use with the right number of arguments has it in the other run as well. -/
theorem fits_placeIn {u : TypeUse} (hfits : env.Fits [] q u) : env.Fits [] q' u := by
  intro htype
  obtain ⟨type, hmeans, hcount⟩ := hfits htype
  have hmeans' := h'.typeOf? u.1 ▸
    h.consistent.typeOf?_placeIn h'.consistent h'.complete (h.typeOf? u.1 ▸ hmeans)
  refine ⟨_, hmeans', fun id hid => ⟨fun hmem => absurd hmem List.not_mem_nil, fun _ => ?_⟩⟩
  cases type with
  | named place args =>
    obtain ⟨rfl, hargs⟩ := Ty.named.inj hid
    cases args with
    | nil =>
      have hsize : place < p.table.size := h.settles.size ▸ h.lt_size hmeans
      have hsize' : p.placeIn p' place < p'.table.size := h'.settles.size ▸ h'.lt_size hmeans'
      rw [(hcount place rfl).2 List.not_mem_nil, env.arity_of_later h.later hsize,
        env.arity_of_later h'.later hsize',
        h.consistent.arity_placeIn h'.consistent h'.complete place]
    | cons => cases hargs
  | _ => cases hid

/-- What follows the types means the same in both runs, with the places of types renumbered. -/
theorem othersRead {file file' : SourceFile} (hvalues : file'.valueSpecs = file.valueSpecs)
    (hfunctions : file'.funcDecls = file.funcDecls)
    (hmethods : file'.methodDecls = file.methodDecls) {functions methods : List FuncDef}
    (hread : file.OthersRead env q functions methods) :
    file'.OthersRead env q' (functions.map (FuncDef.rename (p.placeIn p')))
      (methods.map (FuncDef.rename (p.placeIn p'))) where
  values spec hspec type htype := by
    obtain ⟨⟨a, hmeans⟩, hfits⟩ := hread.values spec (hvalues ▸ hspec) type htype
    refine ⟨⟨a.rename (p.placeIn p'), ?_⟩, fun u hu => h.fits_placeIn h' (hfits u hu)⟩
    rw [TypeExpr.meaning?_renumbers type (h.renumbers h' _), hmeans, Option.map_some]
  functions := by
    rw [hfunctions, mapM_eq_some_iff, List.forall₂_map_right_iff]
    refine (mapM_eq_some_iff.mp hread.functions).imp fun decl f hmeans => ?_
    rw [FuncDecl.meaning?_renumbers decl (h.renumbers h' _), hmeans, Option.map_some]
  functionUses decl hdecl u hu :=
    h.fits_placeIn h' (hread.functionUses decl (hfunctions ▸ hdecl) u hu)
  methods := by
    rw [hmethods, mapM_eq_some_iff, List.forall₂_map_right_iff]
    refine (mapM_eq_some_iff.mp hread.methods).imp fun decl f hmeans => ?_
    rw [MethodDecl.meaning?_renumbers decl (h.renumbers h' _), hmeans, Option.map_some]
  methodUses decl hdecl u hu :=
    h.fits_placeIn h' (hread.methodUses decl (hmethods ▸ hdecl) u hu)
  distinct := hmethods ▸ hread.distinct

end Env.Settled

/-! ## The types -/

/-- What is known when the types of a scope were entered and settled. -/
theorem Env.settled_of_run {specs : List TypeSpec} (hcollects : env.scope.Collects specs)
    (henter : specs.forM env.resolveTypeSpec {} = .ok ((), p))
    (hsettle : env.settlePending p = .ok ((), q)) : env.Settled p q := by
  obtain ⟨hp, hcomplete, -⟩ := enterSpecs_ok hcollects henter
  obtain ⟨hsettles, hq⟩ := settlePending_ok hp hsettle
  exact ⟨hp, hsettles, hq, hp.typesKnown hcomplete hsettles hq⟩

/-- Types that were entered and settled in one order are so in every other. -/
theorem Env.settles_of_perm {specs specs' : List TypeSpec} (hcollects : env.scope.Collects specs)
    (hback : ∀ generic, ¬ env.scope.LeadsBack generic) (hperm : specs'.Perm specs)
    (henter : specs.forM env.resolveTypeSpec {} = .ok ((), p))
    (hsettle : env.settlePending p = .ok ((), q)) :
    ∃ p' q', specs'.forM env.resolveTypeSpec {} = .ok ((), p') ∧
      env.settlePending p' = .ok ((), q') ∧ env.Settled p' q' := by
  have hcollects' := hcollects.of_perm hperm
  obtain ⟨hp, hcomplete, -, hfound⟩ := enterSpecs_ok hcollects henter
  obtain ⟨p', henter'⟩ := env.resolveTypeSpecs_succeeds hcollects.named hp hcomplete hback
    (fun spec hspec => hcollects'.lookup hspec)
    (fun spec hspec => hfound spec (hperm.mem_iff.mp hspec)) .initial
  obtain ⟨hp', -⟩ := enterSpecs_ok hcollects' henter'
  obtain ⟨t, hsettle', -⟩ :=
    (settled_of_run hcollects henter hsettle).settlePending_succeeds hp'
  exact ⟨p', _, henter', hsettle', settled_of_run hcollects' henter' hsettle'⟩

/-- Settling types declares nothing else. -/
theorem Env.Settled.declared_eq_nil (h : env.Settled p q) (hnone : p.declared = []) :
    q.declared = [] := by
  rw [h.same]
  exact hnone

/-- No type contains itself by value if none does in the other run. -/
theorem Env.Settled.checkContainment_succeeds (h : env.Settled p q) (h' : env.Settled p' q')
    (hcopied : q.table.Copied (p.placeIn p') q'.table)
    (hcontained : ∀ e ∈ q.entered, q.table.containsItself e.id = false) :
    env.checkContainment q' = .ok ((), q') := by
  refine checkContainment_eq_ok fun e' he' => ?_
  rw [h'.entered] at he'
  obtain ⟨e, he, hname⟩ := h'.consistent.exists_entered_of_complete h.complete he'
  rw [← h.consistent.placeIn_entered h'.consistent he he' hname.symm, hcopied.containsItself]
  exact hcontained e (h.entered ▸ he)

/-! ## The whole file -/

/-- Whether a declaration is that of a type. -/
def Declaration.isType : Declaration → Bool
  | .type _ => true
  | _ => false

/-- Two files differ in nothing but the order in which types are declared. -/
structure SourceFile.Reordered (file file' : SourceFile) : Prop where
  path : file'.path = file.path
  packageName : file'.packageName = file.packageName
  declarations : file'.declarations.Perm file.declarations
  others : (file'.declarations.filter fun d => !d.isType) =
    file.declarations.filter fun d => !d.isType

namespace SourceFile.Reordered

theorem refl (file : SourceFile) : file.Reordered file :=
  ⟨rfl, rfl, .refl _, rfl⟩

variable {file file' : SourceFile} (h : file.Reordered file')
include h

theorem symm : file'.Reordered file :=
  ⟨h.path.symm, h.packageName.symm, h.declarations.symm, h.others.symm⟩

theorem typeSpecs : file'.typeSpecs.Perm file.typeSpecs :=
  h.declarations.filterMap _

/-- Of the declarations of any other kind, both files have the same. -/
theorem filterMap_eq {α : Type} {kind : Declaration → Option α}
    (hkind : ∀ spec, kind (.type spec) = none) :
    file'.declarations.filterMap kind = file.declarations.filterMap kind := by
  have hothers : ∀ ds : List Declaration,
      (ds.filter fun d => !d.isType).filterMap kind = ds.filterMap kind := by
    intro ds
    rw [List.filterMap_filter]
    congr 1
    funext d
    cases d with
    | type spec => exact (hkind spec).symm
    | _ => rfl
  rw [← hothers, h.others, hothers]

theorem valueSpecs : file'.valueSpecs = file.valueSpecs :=
  h.filterMap_eq fun _ => rfl

theorem funcDecls : file'.funcDecls = file.funcDecls :=
  h.filterMap_eq fun _ => rfl

theorem methodDecls : file'.methodDecls = file.methodDecls :=
  h.filterMap_eq fun _ => rfl

theorem importSpecs :
    Declaration.importSpecs file'.declarations = Declaration.importSpecs file.declarations :=
  h.filterMap_eq fun _ => rfl

end SourceFile.Reordered

/-- If the declarations of a file are resolved, they are with the types in another order, too. What
is found of the one file is copied into what is found of the other. -/
theorem Env.resolveAll_reordered {file file' : SourceFile} (h : file.Reordered file')
    (hcollects : env.scope.Collects file.typeSpecs) (hfree : env.scope.OrderFree) {r : Progress}
    (hrun : env.resolveAll file {} = .ok ((), r)) :
    ∃ r' f, env.resolveAll file' {} = .ok ((), r') ∧
      ResolvedFile.Copied ⟨file.path, file.packageName, r.definitions, r.table⟩ f
        ⟨file'.path, file'.packageName, r'.definitions, r'.table⟩ := by
  obtain ⟨⟨⟩, p, henter, hrun⟩ := bind_eq_ok_iff.mp hrun
  obtain ⟨⟨⟩, q, hsettle, hrun⟩ := bind_eq_ok_iff.mp hrun
  obtain ⟨⟨⟩, q₁, hcheck, hothers⟩ := bind_eq_ok_iff.mp hrun
  obtain ⟨hcontained, rfl⟩ := of_checkContainment_eq_ok hcheck
  obtain ⟨p', q', henter', hsettle', hs'⟩ :=
    env.settles_of_perm hcollects hfree.back h.typeSpecs henter hsettle
  have hs := env.settled_of_run hcollects henter hsettle
  have hcopied := hs.copied hs' (hs.lendsAll hfree) (hs'.lendsAll hfree)
  obtain ⟨hr, functions, methods, hread, hdeclared⟩ := resolveOthers_ok hs.known hothers
  have hread' := hs.othersRead hs' h.valueSpecs h.funcDecls h.methodDecls hread
  obtain ⟨r', hothers', -⟩ := resolveOthers_finds hs'.known hread' q' (.refl q')
  obtain ⟨hr', functions', methods', hfound, hdeclared'⟩ := resolveOthers_ok hs'.known hothers'
  obtain rfl := Option.some.inj (hfound.functions.symm.trans hread'.functions)
  obtain rfl := Option.some.inj (hfound.methods.symm.trans hread'.methods)
  -- what is declared at file level are values, functions and methods
  rw [hs.declared_eq_nil (enterSpecs_ok hcollects henter).2.2.1, List.nil_append] at hdeclared
  rw [hs'.declared_eq_nil (enterSpecs_ok (hcollects.of_perm h.typeSpecs) henter').2.2.1,
    List.nil_append, h.valueSpecs] at hdeclared'
  have hfunctions : (ResolvedFile.mk file.path file.packageName r.definitions r.table).functions =
      functions ++ methods := SourceFile.functions_of_declared hdeclared
  refine ⟨r', p.placeIn p', bind_eq_ok_iff.mpr ⟨(), p', henter', bind_eq_ok_iff.mpr
    ⟨(), q', hsettle', bind_eq_ok_iff.mpr ⟨(), q', ?_, hothers'⟩⟩⟩, h.packageName, ?_, ?_⟩
  · exact hs.checkContainment_succeeds hs' hcopied hcontained
  · rw [hr.table, hr'.table]
    exact hcopied
  · rw [hfunctions, List.map_append]
    exact SourceFile.functions_of_declared hdeclared'

namespace SourceFile.Reordered

variable {file file' : SourceFile} (h : file.Reordered file') {scope : FileScope}
  (hscope : FileScope.ofDeclarations file.path file.declarations = .ok scope) {config : Config}
include h

/-! ### Scopes -/

theorem introduced :
    (FileScope.introduced file'.declarations).Perm (FileScope.introduced file.declarations) :=
  h.declarations.flatMap_right _

include hscope

/-- No name is repeated in the other order, either. -/
theorem ofDeclarations_eq_ok : FileScope.ofDeclarations file'.path file'.declarations =
    .ok ⟨scope.imports, FileScope.introduced file'.declarations⟩ := by
  obtain ⟨himports, hentries, rfl⟩ := FileScope.ofDeclarations_eq_ok_iff.mp hscope
  rw [FileScope.ofDeclarations_eq_ok_iff]
  refine ⟨?_, (h.introduced.map Prod.fst).nodup_iff.mpr hentries, ?_⟩
  · rwa [Declaration.importedNames, h.importSpecs]
  · rw [Imports.ofDeclarations, Imports.ofDeclarations, h.importSpecs]

theorem lookup_introduced (name : String) :
    (FileScope.introduced file'.declarations).lookup name = scope.lookup name := by
  refine Option.ext fun entry => ?_
  have hnodup' := (FileScope.ofDeclarations_eq_ok_iff.mp (h.ofDeclarations_eq_ok hscope)).2.1
  rw [lookup_eq_some_iff_mem hnodup', h.introduced.mem_iff, FileScope.lookup_eq_some_iff hscope]

/-- The other file is resolved as if the names of this one were in scope. -/
theorem resolve_eq_ok_iff {result' : ResolvedFile} :
    file'.resolve config = .ok result' ↔
      ∃ r, Env.resolveAll ⟨file.path, file.packageName, config, scope⟩ file' {} = .ok ((), r) ∧
        result' = ⟨file'.path, file'.packageName, r.definitions, r.table⟩ := by
  let env : Env := ⟨file.path, file.packageName, config, scope⟩
  have hnesting : (env.withEntries (FileScope.introduced file'.declarations)).scope.nesting =
      env.scope.nesting := by
    obtain ⟨-, -, rfl⟩ := FileScope.ofDeclarations_eq_ok_iff.mp hscope
    simp only [FileScope.nesting, FileScope.countTypes, Env.withEntries, env,
      h.introduced.countP_eq]
  have hall : (env.withEntries (FileScope.introduced file'.declarations)).resolveAll file' =
      env.resolveAll file' := Env.resolveAll_withEntries (h.lookup_introduced hscope) hnesting file'
  have henv : (⟨file'.path, file'.packageName, config,
      ⟨scope.imports, FileScope.introduced file'.declarations⟩⟩ : Env) =
        env.withEntries (FileScope.introduced file'.declarations) := by
    rw [h.path, h.packageName]
    rfl
  rw [SourceFile.resolve, h.ofDeclarations_eq_ok hscope, Except.ok_bind]
  dsimp only
  rw [henv, hall, Except.bind_eq_ok_iff]
  constructor
  · rintro ⟨⟨⟨⟩, r⟩, hrun, hreturn⟩
    cases hreturn
    exact ⟨r, hrun, rfl⟩
  · rintro ⟨r, hrun, rfl⟩
    exact ⟨((), r), hrun, rfl⟩

/-! ### What is found -/

/-- If one of the files is accepted, then both are, and what is found of `file` is copied. -/
theorem copied_of_resolve (hfree : scope.OrderFree) {result : ResolvedFile}
    (hok : file.resolve config = .ok result) :
    ∃ result' f, file'.resolve config = .ok result' ∧ result.Copied f result' := by
  obtain ⟨r, hrun, rfl⟩ := ((refl file).resolve_eq_ok_iff hscope).mp hok
  obtain ⟨r', f, hrun', hcopied⟩ :=
    Env.resolveAll_reordered h (FileScope.collects_ofDeclarations hscope) hfree hrun
  exact ⟨_, f, (h.resolve_eq_ok_iff hscope).mpr ⟨r', hrun', rfl⟩, hcopied⟩

theorem resolve_of_resolve (hfree : scope.OrderFree) {result' : ResolvedFile}
    (hok' : file'.resolve config = .ok result') : ∃ result, file.resolve config = .ok result := by
  obtain ⟨r', hrun', -⟩ := (h.resolve_eq_ok_iff hscope).mp hok'
  obtain ⟨r, -, hrun, -⟩ := Env.resolveAll_reordered h.symm
    ((FileScope.collects_ofDeclarations hscope).of_perm h.typeSpecs) hfree hrun'
  exact ⟨_, ((refl file).resolve_eq_ok_iff hscope).mpr ⟨r, hrun, rfl⟩⟩

omit hscope in
/-- A file is accepted in every order of its types if it makes no difference which type is reached
first, and the reports are the same. -/
theorem acceptedAlike (hfree : (file.env config).scope.OrderFree) :
    file.AcceptedAlike file' config := by
  cases hscope : FileScope.ofDeclarations file.path file.declarations with
  | error e =>
    cases hscope' : FileScope.ofDeclarations file'.path file'.declarations with
    | error e' =>
      unfold AcceptedAlike resolve
      rw [hscope, hscope']
      exact .error e e'
    | ok scope' =>
      rw [h.symm.ofDeclarations_eq_ok hscope'] at hscope
      cases hscope
  | ok scope =>
    obtain rfl : scope = (file.env config).scope :=
      (FileScope.ofDeclarations_eq_ok_iff.mp hscope).2.2
    cases hok : file.resolve config with
    | ok result =>
      obtain ⟨result', f, hok', hcopied⟩ := h.copied_of_resolve hscope hfree hok
      exact .inl ⟨result, result', hok, hok', hcopied.report⟩
    | error e =>
      cases hok' : file'.resolve config with
      | error e' => exact .inr ⟨e, e', hok, hok'⟩
      | ok result' =>
        obtain ⟨result, hresult⟩ := h.resolve_of_resolve hscope hfree hok'
        rw [hok] at hresult
        cases hresult

end SourceFile.Reordered

end GoSignatures

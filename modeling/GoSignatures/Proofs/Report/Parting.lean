import GoSignatures.Proofs.Report.Selecting
import GoSignatures.Proofs.Resolution.Functions

/-!
# Names of supported and unsupported functions

A request that names functions is told each name once. A request that names none is told every
function at file level, and several of them may bear one name: methods, and functions called `_`
or `init`. Then a name can be told as parsed and as not supported at once.

* `SourceFile.functions_of_resolve` — the functions of a file that is accepted
* `SourceFile.PartsNames` — no report on the file tells a name both ways
* `SourceFile.partsNames_iff` — exactly when this is so
-/

namespace GoSignatures

/-! ## The functions of a file -/

theorem ResolvedFile.functions_eq (file : ResolvedFile) :
    file.functions =
      (file.definitions.filter Definition.isDeclared).filterMap Definition.func? := by
  rw [functions]
  induction file.definitions with
  | nil => rfl
  | cons d ds ih =>
    rcases d with f | v | v | t
    · cases hf : f.isTopLevel <;> simp [Definition.func?, Definition.isDeclared, hf, ih]
    all_goals
      rw [List.filterMap_cons_none rfl, ih]
      rfl

theorem FuncDecl.name_of_meaning? {env : Env} {t : Table} {m : Meanings} {decl : FuncDecl}
    {f : FuncDef} (h : decl.meaning? env t m = some f) : f.name = decl.name.text := by
  obtain ⟨_, _, -, -, rfl⟩ := Option.of_return₂_eq_some h
  rfl

theorem MethodDecl.name_of_meaning? {env : Env} {t : Table} {m : Meanings} {decl : MethodDecl}
    {f : FuncDef} (h : decl.meaning? env t m = some f) :
    f.name = decl.name.text ∧ f.signature.receiver.isSome = true := by
  obtain ⟨_, -, h⟩ := Option.bind_eq_some_iff.mp h
  obtain ⟨_, _, -, -, rfl⟩ := Option.of_return₂_eq_some h
  exact ⟨rfl, rfl⟩

/-- A method is not supported. -/
theorem Signature.isSupported_of_receiver {t : Table} {sig : Signature}
    (h : sig.receiver.isSome = true) : sig.isSupported t = false := by
  simp [isSupported, obstacles, h]

/-- Whether several functions may bear a name. -/
def FuncDecl.mayRepeat (name : String) : Bool :=
  name == "_" || name == "init"

theorem Declaration.introduced_func (decl : FuncDecl) :
    (Declaration.func decl).introduced =
      if FuncDecl.mayRepeat decl.name.text then [] else [(decl.name.text, .func)] := by
  have hblank : FileScope.introducesNothing decl.name.text .func
      = FuncDecl.mayRepeat decl.name.text := rfl
  by_cases hname : FuncDecl.mayRepeat decl.name.text = true <;>
    simp [Declaration.introduced, FileScope.entered, Declaration.names, hblank, hname]

/-- No name is told as that of a parsed function and of one that is not supported. -/
def FileReport.Parts (r : FileReport) : Prop :=
  ∀ f ∈ r.parsedFunctions, f.name ∉ r.notSupportedFunctionsNames

/-- A request that names functions is told each name one way. -/
theorem ResolvedFile.parts_of_ne_nil {file : ResolvedFile} {path : String}
    {requested : List String} (hne : requested ≠ []) : (file.report path requested).Parts := by
  intro f hf hname
  have hnodup : (file.report path requested).names.Nodup := nodup_names_report hne
  rw [FileReport.names, List.append_assoc, List.nodup_append] at hnodup
  exact hnodup.2.2 _ (List.mem_map_of_mem hf) _ (List.mem_append_left _ hname) rfl

/-- The report on all functions tells no name both ways exactly if all functions of one name are
supported or none is. -/
theorem ResolvedFile.parts_nil_iff {file : ResolvedFile} {path : String} :
    (file.report path []).Parts ↔ ∀ f ∈ file.functions, ∀ g ∈ file.functions, f.name = g.name →
      f.signature.isSupported file.table = true → g.signature.isSupported file.table = true := by
  have hselected : file.selected [] = file.functions := rfl
  have hunsupported : ∀ name, name ∈ (file.report path []).notSupportedFunctionsNames ↔
      ∃ g ∈ file.functions, g.signature.isSupported file.table = false ∧ g.name = name := by
    intro name
    rw [notSupported_report_perm.mem_iff, hselected]
    simp [and_assoc]
  constructor
  · intro hparts f hf g hg hname hsupported
    by_contra hnot
    exact hparts _ (mem_parsed_report.mpr ⟨f, hf, hsupported, rfl⟩)
      ((hunsupported _).mpr ⟨g, hg, by simpa using hnot, hname.symm⟩)
  · intro h r hr hname
    obtain ⟨f, hf, hsupported, rfl⟩ := mem_parsed_report.mp hr
    obtain ⟨g, hg, hnot, hsame⟩ := (hunsupported _).mp hname
    rw [h f hf g hg hsame.symm hsupported] at hnot
    cases hnot

namespace SourceFile

variable {file : SourceFile} {config : Config} {result : ResolvedFile}

/-- Where values, functions and methods are defined in this order, the functions declared at file
level are the functions, followed by the methods. -/
theorem functions_of_declared {functions methods : List FuncDef}
    (h : result.definitions.filter Definition.isDeclared =
      file.valueSpecs.flatMap ValueSpec.definitions ++ (functions ++ methods).map .func) :
    result.functions = functions ++ methods := by
  have hvalues : (file.valueSpecs.flatMap ValueSpec.definitions).filterMap Definition.func?
      = [] := by
    refine List.filterMap_eq_nil_iff.mpr fun d hd => ?_
    obtain ⟨spec, -, hd⟩ := List.mem_flatMap.mp hd
    exact ValueSpec.func?_of_mem hd
  rw [ResolvedFile.functions_eq, h, List.filterMap_append, hvalues, List.nil_append,
    List.filterMap_map]
  exact List.filterMap_some

/-- The functions of a file that is accepted are those that it declares, followed by its
methods. -/
theorem functions_of_resolve (h : file.resolve config = .ok result) :
    ∃ functions methods, result.functions = functions ++ methods ∧
      functions.map FuncDef.name = file.funcDecls.map (·.name.text) ∧
      methods.map FuncDef.name = file.methodDecls.map (·.name.text) ∧
      ∀ f ∈ methods, f.signature.receiver.isSome = true := by
  obtain ⟨env, p, functions, methods, -, -, hread, -, -, -, hdeclared⟩ := resolve_ok h
  refine ⟨functions, methods, functions_of_declared hdeclared,
    map_eq_of_mapM hread.functions fun _ _ => FuncDecl.name_of_meaning?,
    map_eq_of_mapM hread.methods fun _ _ hf => (MethodDecl.name_of_meaning? hf).1, fun f hf => ?_⟩
  obtain ⟨decl, -, hmeaning⟩ := exists_of_mem_mapM hread.methods hf
  exact (MethodDecl.name_of_meaning? hmeaning).2

/-- In a file that is accepted the names of functions are distinct, apart from those that may
repeat. -/
theorem nodup_funcDecls {scope : FileScope}
    (h : FileScope.ofDeclarations file.path file.declarations = .ok scope) :
    ((file.funcDecls.map (·.name.text)).filter fun name => !FuncDecl.mayRepeat name).Nodup := by
  -- the names of functions are among those that the file declares, in the same order
  obtain ⟨-, hnodup, -⟩ := FileScope.ofDeclarations_eq_ok_iff.mp h
  refine List.Sublist.nodup ?_ hnodup
  rw [funcDecls, FileScope.introduced]
  induction file.declarations with
  | nil => exact List.Sublist.refl _
  | cons d ds ih =>
    rw [List.flatMap_cons, List.map_append]
    cases d with
    | func decl =>
      rw [Declaration.introduced_func, List.filterMap_cons]
      simp only [List.map_cons, List.filter_cons, Bool.not_eq_true']
      cases FuncDecl.mayRepeat decl.name.text with
      | true => simpa using ih
      | false => simpa using ih
    | _ => exact ih.trans (List.sublist_append_right _ _)

/-- In a file that is accepted a function is known by its name, unless that may repeat. -/
theorem eq_of_name_eq {scope : FileScope}
    (h : FileScope.ofDeclarations file.path file.declarations = .ok scope)
    {functions : List FuncDef}
    (hnames : functions.map FuncDef.name = file.funcDecls.map (·.name.text)) {f g : FuncDef}
    (hf : f ∈ functions) (hg : g ∈ functions) (hname : f.name = g.name)
    (hmay : FuncDecl.mayRepeat f.name = false) : f = g := by
  have hnodup := nodup_funcDecls h
  rw [← hnames, List.filter_map] at hnodup
  refine List.inj_on_of_nodup_map hnodup ?_ ?_ hname
  · simp [hf, hmay]
  · simp [hg, ← hname, hmay]

/-! ## Reports that part the names -/

/-- No report on a file that is accepted tells a name both ways. -/
def PartsNames (file : SourceFile) (config : Config) : Prop :=
  ∀ result, file.resolve config = .ok result →
    ∀ path requested, (result.report path requested).Parts

/-- The names of a file are told one way exactly if no supported function shares its name with a
method, and the functions called `_` and those called `init` are all supported if one of them is. -/
theorem partsNames_iff (file : SourceFile) (config : Config) :
    file.PartsNames config ↔ ∀ result, file.resolve config = .ok result →
      ∀ f ∈ result.functions, f.signature.isSupported result.table = true →
        (∀ decl ∈ file.methodDecls, decl.name.text ≠ f.name) ∧
          (FuncDecl.mayRepeat f.name = true → ∀ g ∈ result.functions, g.name = f.name →
            g.signature.isSupported result.table = true) := by
  -- only the request that names no functions matters
  have hnil : file.PartsNames config ↔ ∀ result, file.resolve config = .ok result →
      ∀ f ∈ result.functions, ∀ g ∈ result.functions, f.name = g.name →
        f.signature.isSupported result.table = true →
          g.signature.isSupported result.table = true := by
    refine forall_congr' fun result => forall_congr' fun _ => ⟨fun h =>
      ResolvedFile.parts_nil_iff.mp (h "" []), fun h path requested => ?_⟩
    cases requested with
    | nil => exact ResolvedFile.parts_nil_iff.mpr h
    | cons name requested => exact ResolvedFile.parts_of_ne_nil (List.cons_ne_nil _ _)
  rw [hnil]
  refine forall_congr' fun result => forall_congr' fun hresolve => ?_
  obtain ⟨functions, methods, hfunctions, hnames, hmethodNames, hreceivers⟩ :=
    functions_of_resolve hresolve
  obtain ⟨scope, hscope, -⟩ := Except.bind_eq_ok_iff.mp hresolve
  have hmethod : ∀ f ∈ methods, f.signature.isSupported result.table = false :=
    fun f hf => Signature.isSupported_of_receiver (hreceivers f hf)
  constructor
  · intro h f hf hsupported
    refine ⟨fun decl hdecl hname => ?_, fun _ g hg hname => h f hf g hg hname.symm hsupported⟩
    obtain ⟨g, hg, hgname⟩ : ∃ g ∈ methods, g.name = decl.name.text := by
      rw [← List.mem_map, hmethodNames]
      exact List.mem_map_of_mem hdecl
    have hboth := h f hf g (hfunctions ▸ List.mem_append_right _ hg) (by rw [hgname, hname])
      hsupported
    rw [hmethod g hg] at hboth
    cases hboth
  · intro h f hf g hg hname hsupported
    obtain ⟨hnone, hrepeated⟩ := h f hf hsupported
    by_cases hmay : FuncDecl.mayRepeat f.name = true
    · exact hrepeated hmay g hg hname.symm
    -- neither is a method, and a function of the name is declared once
    have hdeclared : ∀ d ∈ result.functions, d.name = f.name → d ∈ functions := by
      intro d hd hsame
      rw [hfunctions, List.mem_append] at hd
      refine hd.resolve_right fun hd => ?_
      have hmem : d.name ∈ file.methodDecls.map (·.name.text) :=
        hmethodNames ▸ List.mem_map_of_mem hd
      obtain ⟨decl, hdecl, hdname⟩ := List.mem_map.mp hmem
      exact hnone decl hdecl (hdname.trans hsame)
    have hsame : f = g := eq_of_name_eq hscope hnames (hdeclared f hf rfl)
      (hdeclared g hg hname.symm) hname (by simpa using hmay)
    exact hsame ▸ hsupported

/-! ## A function and a method of one name -/

/-- The file `type S struct{}; func F() {}; func (S) F() {}`. -/
def ofSharedName : SourceFile where
  path := "a.go"
  packageName := "p"
  declarations :=
    [.type ⟨⟨"S", ⟨16, 3, 6⟩⟩, false, [], .struct []⟩,
      .func ⟨⟨"F", ⟨33, 5, 6⟩⟩, [], ⟨[], .list []⟩⟩,
      .method ⟨⟨"(S)", ⟨46, 7, 6⟩⟩,
        some ⟨"", .named (.plain ⟨"S", ⟨47, 7, 7⟩⟩) [], ⟨"S", ⟨47, 7, 7⟩⟩, []⟩,
        ⟨"F", ⟨50, 7, 10⟩⟩, ⟨[], .list []⟩⟩]

/-- The function `F` is parsed, and the method `F` is listed as not supported. -/
theorem not_partsNames_ofSharedName :
    ¬ ofSharedName.PartsNames {} ∧
      ∃ result, ofSharedName.resolve {} = .ok result ∧
        result.report "a.go" [] =
          ⟨"a.go", "p", [⟨"F", [], [], ⟨33, 5, 6⟩⟩], ["F"], []⟩ := by
  have hreports : (ofSharedName.resolve {}).toOption.map (fun result => result.report "a.go" []) =
      some ⟨"a.go", "p", [⟨"F", [], [], ⟨33, 5, 6⟩⟩], ["F"], []⟩ := by
    decide +kernel
  obtain ⟨result, hresolve, hreport⟩ := Option.map_eq_some_iff.mp hreports
  rw [Except.toOption_eq_some_iff] at hresolve
  refine ⟨fun h => ?_, result, hresolve, hreport⟩
  have hparts := h result hresolve "a.go" []
  rw [hreport] at hparts
  exact hparts _ List.mem_cons_self List.mem_cons_self

end SourceFile

end GoSignatures

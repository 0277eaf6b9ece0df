import GoSignatures.Proofs.Report.Parting

/-!
# What a file says to a name

Whether a requested name is parsed, not supported or not found is settled by the declarations of
the file. A function of the name settles it by its signature; else a method of the name does; else
nothing of the name is found, whatever types, values and elements of interfaces bear it.

* `Verdict`, `FileReport.Tells` — how a report tells a name
* `ResolvedFile.verdict` — how every report tells a name for which it is asked
* `SourceFile.Settles` — the verdict in terms of the declarations of a file
* `SourceFile.settles_verdict` — the declarations settle the verdict
-/

namespace GoSignatures

/-- How a name is told. -/
inductive Verdict where
  /-- The name of a function with this report. -/
  | parsed (function : FunctionReport)
  | notSupported
  | notFound

/-- The list of a report that a verdict speaks of has the name. -/
def FileReport.Shows (r : FileReport) (name : String) : Verdict → Prop
  | .parsed function => function ∈ r.parsedFunctions ∧ function.name = name
  | .notSupported => name ∈ r.notSupportedFunctionsNames
  | .notFound => name ∈ r.notFoundFunctionsNames

/-- A report tells a name as a verdict says, and in no other way. -/
structure FileReport.Tells (r : FileReport) (name : String) (v : Verdict) : Prop where
  shows : r.Shows name v
  once : r.names.count name = 1

/-- The verdict on the name of a function, which its signature decides. -/
def FuncDef.verdict (t : Table) (f : FuncDef) : Verdict :=
  if f.signature.isSupported t then .parsed (f.report t) else .notSupported

/-! ## Verdicts of a resolved file -/

namespace ResolvedFile

variable {file : ResolvedFile} {path name : String} {requested : List String}

/-- The verdict on a name: that on the first function declared at file level under it. -/
def verdict (file : ResolvedFile) (name : String) : Verdict :=
  match file.function? name with
  | some f => f.verdict file.table
  | none => .notFound

/-- Whatever else is requested with it, a name is told as the verdict on it says. -/
theorem tells_verdict (hmem : name ∈ requested) :
    (file.report path requested).Tells name (file.verdict name) := by
  have hne : requested ≠ [] := List.ne_nil_of_mem hmem
  refine ⟨?_, by rw [(answers_report hne).once, if_pos hmem]⟩
  rw [verdict]
  cases hf : file.function? name with
  | none => exact notFound_report_perm.mem_iff.mpr (mem_notFound_iff.mpr ⟨hmem, hf⟩)
  | some f =>
    obtain ⟨hselected, rfl⟩ := selected_of_function? hmem hf
    simp only [FuncDef.verdict]
    split
    · next hsupported => exact ⟨mem_parsed_report.mpr ⟨f, hselected, hsupported, rfl⟩, rfl⟩
    · next hsupported =>
      refine notSupported_report_perm.mem_iff.mpr (List.mem_map_of_mem ?_)
      simp [hselected, hsupported]

end ResolvedFile

/-! ## Verdicts of a file -/

namespace SourceFile

variable {file : SourceFile} {config : Config} {result : ResolvedFile} {name : String}

/-- The declarations of a file settle the verdict on a name, where `p` holds what its types are: a
function of the name, whatever else bears it; a method of the name, if there is no function; and
else nothing does. -/
structure Settles (file : SourceFile) (env : Env) (p : Progress) (name : String) (v : Verdict) :
    Prop where
  func : ∀ decl ∈ file.funcDecls, decl.name.text = name →
    ∃ f, decl.meaning? env p.table (env.typeOf? p) = some f ∧ v = f.verdict p.table
  method : (∀ decl ∈ file.funcDecls, decl.name.text ≠ name) →
    (∃ decl ∈ file.methodDecls, decl.name.text = name) → v = .notSupported
  nothing : (∀ decl ∈ file.funcDecls, decl.name.text ≠ name) →
    (∀ decl ∈ file.methodDecls, decl.name.text ≠ name) → v = .notFound

theorem find?_eq_none_of_names {functions : List FuncDef} {names : List String}
    (hnames : functions.map FuncDef.name = names) (h : name ∉ names) :
    functions.find? (·.name == name) = none := by
  subst hnames
  simpa [List.find?_eq_none] using h

theorem exists_find?_of_names {functions : List FuncDef} {names : List String}
    (hnames : functions.map FuncDef.name = names) (h : name ∈ names) :
    ∃ f ∈ functions, f.name = name ∧ functions.find? (·.name == name) = some f := by
  subst hnames
  have hsome : (functions.find? (·.name == name)).isSome = true := by
    simpa [List.find?_isSome] using h
  obtain ⟨f, hf⟩ := Option.isSome_iff_exists.mp hsome
  exact ⟨f, List.mem_of_find?_eq_some hf, by simpa using List.find?_some hf, hf⟩

/-- In a file that is accepted, the declarations settle the verdict on each name that may not
repeat, and every report for which that name is requested tells it so. -/
theorem settles_verdict (h : file.resolve config = .ok result)
    (hname : FuncDecl.mayRepeat name = false) :
    ∃ env p v, file.settleTypes config = .ok (env, p) ∧ result.table = p.table ∧
      file.Settles env p name v ∧
      ∀ path requested, name ∈ requested → (result.report path requested).Tells name v := by
  obtain ⟨env, p, functions, methods, hsettle, -, hread, -, -, htable, hdeclared⟩ := resolve_ok h
  obtain ⟨scope, hscope, -⟩ := Except.bind_eq_ok_iff.mp h
  have hfuncs : functions.map FuncDef.name = file.funcDecls.map (·.name.text) :=
    map_eq_of_mapM hread.functions fun _ _ => FuncDecl.name_of_meaning?
  have hmethods : methods.map FuncDef.name = file.methodDecls.map (·.name.text) :=
    map_eq_of_mapM hread.methods fun _ _ hf => (MethodDecl.name_of_meaning? hf).1
  have hfind : result.function? name =
      (functions.find? (·.name == name)).or (methods.find? (·.name == name)) := by
    rw [ResolvedFile.function?_eq_find?, functions_of_declared hdeclared, List.find?_append]
  refine ⟨env, p, result.verdict name, hsettle, htable, ⟨fun decl hdecl hdname => ?_,
    fun hnone => ?_, fun hnone hnoMethod => ?_⟩, fun _ _ => ResolvedFile.tells_verdict⟩
  · obtain ⟨f, hf, hmeaning⟩ := exists_of_mapM_of_mem hread.functions hdecl
    have hfname : f.name = name := (FuncDecl.name_of_meaning? hmeaning).trans hdname
    -- the first function of the name is the only one, and it comes before all methods
    have hmem : name ∈ file.funcDecls.map (·.name.text) := hdname ▸ List.mem_map_of_mem hdecl
    obtain ⟨g, hg, hgname, hfound⟩ := exists_find?_of_names hfuncs hmem
    obtain rfl : f = g := eq_of_name_eq hscope hfuncs hf hg (hfname.trans hgname.symm)
      (hfname ▸ hname)
    exact ⟨f, hmeaning, by rw [ResolvedFile.verdict, hfind, hfound, Option.some_or, htable]⟩
  · rintro ⟨decl, hdecl, hdname⟩
    have hnoFunc : functions.find? (·.name == name) = none :=
      find?_eq_none_of_names hfuncs (by simpa using hnone)
    have hmem : name ∈ file.methodDecls.map (·.name.text) := hdname ▸ List.mem_map_of_mem hdecl
    obtain ⟨g, hg, -, hfound⟩ := exists_find?_of_names hmethods hmem
    obtain ⟨decl', -, hmeaning⟩ := exists_of_mem_mapM hread.methods hg
    have hreceiver := Signature.isSupported_of_receiver (t := result.table)
      (MethodDecl.name_of_meaning? hmeaning).2
    rw [ResolvedFile.verdict, hfind, hnoFunc, hfound, Option.none_or]
    simp [FuncDef.verdict, hreceiver]
  · have hnoFunc : functions.find? (·.name == name) = none :=
      find?_eq_none_of_names hfuncs (by simpa using hnone)
    have hnone' : methods.find? (·.name == name) = none :=
      find?_eq_none_of_names hmethods (by simpa using hnoMethod)
    rw [ResolvedFile.verdict, hfind, hnoFunc, hnone', Option.none_or]

/-- The file `type T interface { Read() }; type S struct{}; func (S) Read() {};
func (S) Stop() {}; func Read() {}; var v T`. -/
def ofRepeatedNames : SourceFile where
  path := "a.go"
  packageName := "p"
  declarations :=
    [.type ⟨⟨"T", ⟨15, 2, 6⟩⟩, false, [],
        .interface [.method ⟨"Read", ⟨29, 2, 20⟩⟩ ⟨[], .list []⟩]⟩,
      .type ⟨⟨"S", ⟨43, 3, 6⟩⟩, false, [], .struct []⟩,
      .method ⟨⟨"(S)", ⟨59, 4, 6⟩⟩,
        some ⟨"", .named (.plain ⟨"S", ⟨60, 4, 7⟩⟩) [], ⟨"S", ⟨60, 4, 7⟩⟩, []⟩,
        ⟨"Read", ⟨63, 4, 10⟩⟩, ⟨[], .list []⟩⟩,
      .method ⟨⟨"(S)", ⟨78, 5, 6⟩⟩,
        some ⟨"", .named (.plain ⟨"S", ⟨79, 5, 7⟩⟩) [], ⟨"S", ⟨79, 5, 7⟩⟩, []⟩,
        ⟨"Stop", ⟨82, 5, 10⟩⟩, ⟨[], .list []⟩⟩,
      .func ⟨⟨"Read", ⟨97, 6, 6⟩⟩, [], ⟨[], .list []⟩⟩,
      .value ⟨false, [⟨"v", ⟨111, 7, 5⟩⟩], some (.named (.plain ⟨"T", ⟨113, 7, 7⟩⟩) []), []⟩]

/-- The function `Read` is parsed in spite of the others of its name, and `T` is not found. -/
theorem settles_verdict_ofRepeatedNames :
    ∃ result, ofRepeatedNames.resolve {} = .ok result ∧ FuncDecl.mayRepeat "Read" = false ∧
      result.report "a.go" ["T", "Stop", "Read"] =
        ⟨"a.go", "p", [⟨"Read", [], [], ⟨97, 6, 6⟩⟩], ["Stop"], ["T"]⟩ ∧
      ∃ env p v, ofRepeatedNames.settleTypes {} = .ok (env, p) ∧ result.table = p.table ∧
        ofRepeatedNames.Settles env p "Read" v ∧
        ∀ path requested, "Read" ∈ requested → (result.report path requested).Tells "Read" v := by
  have hreports : (ofRepeatedNames.resolve {}).toOption.map
      (fun result => result.report "a.go" ["T", "Stop", "Read"]) =
        some ⟨"a.go", "p", [⟨"Read", [], [], ⟨97, 6, 6⟩⟩], ["Stop"], ["T"]⟩ := by
    decide +kernel
  obtain ⟨result, hresolve, hreport⟩ := Option.map_eq_some_iff.mp hreports
  rw [Except.toOption_eq_some_iff] at hresolve
  exact ⟨result, hresolve, rfl, hreport, settles_verdict hresolve rfl⟩

end SourceFile

end GoSignatures

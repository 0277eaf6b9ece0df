import GoSignatures.Report.Selection
import GoSignatures.Proofs.Lists

/-!
# What a report tells about the requested names

A request is answered name by name: a requested name is either not found, parsed or not supported,
and the first function that is declared under it at file level decides which. Order and repetition
within a request make no difference.

* `FuncDef.firsts` — membership, distinctness, independence of the order of the wanted names
* `ResolvedFile.Answers` — a report answers a request
* `ResolvedFile.Lists` — a report lists all functions
* `ResolvedFile.report_spec` — the report on a file does, for every request
-/

namespace GoSignatures

/-! ## The first function of each wanted name -/

namespace FuncDef

/-- A function is selected if its name is wanted and no function before it has the name. -/
theorem mem_firsts {f : FuncDef} : ∀ {fs : List FuncDef} {wanted : List String},
    f ∈ firsts wanted fs ↔ f.name ∈ wanted ∧ fs.find? (·.name == f.name) = some f
  | [], wanted => by simp [firsts]
  | g :: fs, wanted => by
    rw [firsts, List.find?_cons]
    by_cases hname : g.name = f.name
    · -- `g` is the function found, so later ones of its name are not among the firsts
      have hlater : f ∉ firsts (wanted.filter (· != g.name)) fs := by
        rw [mem_firsts]
        simp [hname]
      rw [hname] at hlater ⊢
      by_cases hwanted : f.name ∈ wanted
      · simp [hlater, hwanted, eq_comm]
      · simp [hwanted, mem_firsts]
    · have hne : f ≠ g := fun h => hname (h ▸ rfl)
      have hbeq : (g.name == f.name) = false := by simpa using hname
      rw [hbeq]
      split
      · simp [mem_firsts, hne, Ne.symm hname]
      · exact mem_firsts

theorem nodup_firsts : ∀ (fs : List FuncDef) (wanted : List String),
    ((firsts wanted fs).map FuncDef.name).Nodup
  | [], _ => List.nodup_nil
  | f :: fs, wanted => by
    rw [firsts]
    split
    · refine List.nodup_cons.mpr ⟨fun hmem => ?_, nodup_firsts fs _⟩
      obtain ⟨g, hg, hname⟩ := List.mem_map.mp hmem
      simpa [hname] using (mem_firsts.mp hg).1
    · exact nodup_firsts fs wanted

/-- Order and repetition among the wanted names make no difference. -/
theorem firsts_congr : ∀ {fs : List FuncDef} {wanted wanted' : List String},
    (∀ name, name ∈ wanted ↔ name ∈ wanted') → firsts wanted fs = firsts wanted' fs
  | [], _, _, _ => rfl
  | f :: fs, wanted, wanted', h => by
    have hcontains : wanted.contains f.name = wanted'.contains f.name := by
      rw [Bool.eq_iff_iff]
      simpa using h f.name
    have hrest : firsts (wanted.filter (· != f.name)) fs
        = firsts (wanted'.filter (· != f.name)) fs :=
      firsts_congr fun name => by simp [h name]
    rw [firsts, firsts, hcontains, hrest, firsts_congr h]

end FuncDef

/-- All names that a report tells, list by list. -/
def FileReport.names (r : FileReport) : List String :=
  r.parsedFunctions.map FunctionReport.name ++ r.notSupportedFunctionsNames ++
    r.notFoundFunctionsNames

/-! ## The function of a name -/

/-- The function of a name that a definition declares at file level. -/
def Definition.function? (name : String) : Definition → Option FuncDef
  | .func f => if f.scope = .package ∧ f.name = name then some f else none
  | _ => none

namespace ResolvedFile

variable {file : ResolvedFile} {path name : String} {requested requested' : List String}

/-- The first function, in definition order, that is declared at file level under a name. -/
def function? (file : ResolvedFile) (name : String) : Option FuncDef :=
  file.definitions.findSome? (Definition.function? name)

theorem function?_eq_find? (file : ResolvedFile) (name : String) :
    file.function? name = file.functions.find? (·.name == name) := by
  rw [function?, functions]
  induction file.definitions with
  | nil => rfl
  | cons d ds ih =>
    rw [List.findSome?_cons, ih]
    rcases d with f | v | v | t
    · by_cases hscope : f.scope = .package <;> by_cases hname : f.name = name <;>
        simp [Definition.function?, Definition.func?, FuncDef.isTopLevel, hscope, hname]
    all_goals rfl

theorem function?_eq_none_iff : file.function? name = none ↔
    ∀ f, .func f ∈ file.definitions → f.scope = .package → f.name ≠ name := by
  rw [function?, List.findSome?_eq_none_iff]
  constructor
  · intro h f hf hscope hname
    simpa [Definition.function?, hscope, hname] using h _ hf
  · rintro h (f | v | v | t) hd
    · simpa [Definition.function?] using h f hd
    all_goals rfl

/-! ## What is selected -/

/-- For a request with names, this is the function that the name stands for. -/
theorem mem_selected (hne : requested ≠ []) {f : FuncDef} :
    f ∈ file.selected requested ↔ f.name ∈ requested ∧ file.function? f.name = some f := by
  rw [selected, if_neg (by simpa using hne), FuncDef.mem_firsts, function?_eq_find?]

theorem nodup_selected (hne : requested ≠ []) :
    ((file.selected requested).map FuncDef.name).Nodup := by
  rw [selected, if_neg (by simpa using hne)]
  exact FuncDef.nodup_firsts _ _

theorem selected_congr (h : ∀ name, name ∈ requested ↔ name ∈ requested') :
    file.selected requested = file.selected requested' := by
  have hempty : requested.isEmpty = requested'.isEmpty := by
    rw [Bool.eq_iff_iff, List.isEmpty_iff, List.isEmpty_iff, List.eq_nil_iff_forall_not_mem,
      List.eq_nil_iff_forall_not_mem]
    exact forall_congr' fun name => not_congr (h name)
  rw [selected, selected, hempty, FuncDef.firsts_congr h]

/-- A function that is found under a requested name is selected. -/
theorem selected_of_function? (hmem : name ∈ requested) {f : FuncDef}
    (hf : file.function? name = some f) : f ∈ file.selected requested ∧ f.name = name := by
  have hname : f.name = name := by
    rw [function?_eq_find?] at hf
    simpa using List.find?_some hf
  subst hname
  exact ⟨(mem_selected (List.ne_nil_of_mem hmem)).mpr ⟨hmem, hf⟩, rfl⟩

/-- A requested name is not found if it stands for no function. -/
theorem mem_notFound_iff : name ∈ (file.select requested).notFound ↔
    name ∈ requested ∧ file.function? name = none := by
  simp only [select, List.mem_filter, List.mem_eraseDups, Bool.not_eq_true', List.any_eq_false,
    beq_iff_eq]
  refine and_congr_right fun hmem => ?_
  cases hf : file.function? name with
  | none =>
    refine iff_of_true (fun f hsel hname => ?_) rfl
    have hfound := ((mem_selected (List.ne_nil_of_mem hmem)).mp hsel).2
    rw [hname, hf] at hfound
    cases hfound
  | some f =>
    obtain ⟨hsel, hname⟩ := selected_of_function? hmem hf
    exact iff_of_false (fun h => h f hsel hname) (by simp)

theorem nodup_notFound : (file.select requested).notFound.Nodup :=
  (nodup_eraseDups requested).filter _

theorem notFound_congr (h : ∀ name, name ∈ requested ↔ name ∈ requested') :
    (file.select requested).notFound.Perm (file.select requested').notFound := by
  rw [List.perm_ext_iff_of_nodup nodup_notFound nodup_notFound]
  intro name
  rw [mem_notFound_iff, mem_notFound_iff, h]

/-! ## What is reported -/

/-- The names of the functions that are reported with their signatures. -/
theorem map_name_report (t : Table) (fs : List FuncDef) :
    (fs.map (FuncDef.report t)).map FunctionReport.name = fs.map FuncDef.name := by
  rw [List.map_map]
  rfl

theorem parsed_report_perm : (file.report path requested).parsedFunctions.Perm
    (((file.selected requested).filter fun f => f.signature.isSupported file.table).map
      (FuncDef.report file.table)) :=
  List.mergeSort_perm _ _

theorem notSupported_report_perm : (file.report path requested).notSupportedFunctionsNames.Perm
    (((file.selected requested).filter fun f => !f.signature.isSupported file.table).map
      FuncDef.name) :=
  List.mergeSort_perm _ _

theorem notFound_report_perm : (file.report path requested).notFoundFunctionsNames.Perm
    (file.select requested).notFound :=
  List.mergeSort_perm _ _

/-- Every selected function is told once, by its report or by its name. -/
theorem names_report_perm : (file.report path requested).names.Perm
    ((file.selected requested).map FuncDef.name ++ (file.select requested).notFound) := by
  have hparsed : ((file.report path requested).parsedFunctions.map FunctionReport.name).Perm _ :=
    parsed_report_perm.map FunctionReport.name
  rw [map_name_report] at hparsed
  -- supported and unsupported functions together are the selected ones
  have hparted := (List.filter_append_perm (fun f => f.signature.isSupported file.table)
    (file.selected requested)).map FuncDef.name
  rw [List.map_append] at hparted
  exact ((hparsed.append notSupported_report_perm).trans hparted).append notFound_report_perm

/-- No name is in two of the lists, or in one of them twice. -/
theorem nodup_names_report (hne : requested ≠ []) :
    (file.report path requested).names.Nodup := by
  rw [names_report_perm.nodup_iff, List.nodup_append]
  refine ⟨nodup_selected hne, nodup_notFound, ?_⟩
  rintro _ hselected _ hnotFound rfl
  obtain ⟨f, hf, rfl⟩ := List.mem_map.mp hselected
  have hfound := ((mem_selected hne).mp hf).2
  rw [(mem_notFound_iff.mp hnotFound).2] at hfound
  cases hfound

/-- The lists have the requested names, all of them and no others. -/
theorem mem_names_report (hne : requested ≠ []) :
    name ∈ (file.report path requested).names ↔ name ∈ requested := by
  rw [names_report_perm.mem_iff, List.mem_append, List.mem_map, mem_notFound_iff]
  constructor
  · rintro (⟨f, hf, rfl⟩ | ⟨hmem, -⟩)
    · exact ((mem_selected hne).mp hf).1
    · exact hmem
  · intro hmem
    cases hf : file.function? name with
    | none => exact .inr ⟨hmem, rfl⟩
    | some f => exact .inl ⟨f, selected_of_function? hmem hf⟩

theorem mem_parsed_report {g : FunctionReport} :
    g ∈ (file.report path requested).parsedFunctions ↔
      ∃ f ∈ file.selected requested,
        f.signature.isSupported file.table = true ∧ f.report file.table = g := by
  rw [parsed_report_perm.mem_iff]
  simp [and_assoc]

/-- Parsed functions are reported in the order of the source. -/
theorem pairwise_position_report :
    (file.report path requested).parsedFunctions.Pairwise
      fun f g => f.position.le g.position = true :=
  @List.pairwise_mergeSort FunctionReport (fun f g => f.position.le g.position)
    (fun _ _ _ => Position.le_trans) (fun _ _ => Position.le_total _ _) _

/-- The report depends on the set of the requested names only. -/
theorem report_congr (h : ∀ name, name ∈ requested ↔ name ∈ requested') :
    file.report path requested = file.report path requested' := by
  -- what is selected is equal; what is not found is so only when it is sorted
  have hnotFound : (file.select requested).notFound.mergeSort = _ :=
    mergeSort_congr (notFound_congr h)
  simp only [report, Selection.assemble, hnotFound, FileReport.mk.injEq, true_and, and_true]
  simp only [select, selected_congr h, and_self]

/-! ## The answer to a request -/

/-- A report answers a request: every requested name and no other is told, in one of the three
lists, and the first function declared at file level under the name decides in which. -/
structure Answers (file : ResolvedFile) (requested : List String) (r : FileReport) : Prop where
  once : ∀ name, r.names.count name = if name ∈ requested then 1 else 0
  notFound : ∀ name ∈ requested, name ∈ r.notFoundFunctionsNames ↔
    ∀ f, .func f ∈ file.definitions → f.scope = .package → f.name ≠ name
  parsed : ∀ name ∈ requested, ∀ f, file.function? name = some f →
    ((∃ g ∈ r.parsedFunctions, g.name = name) ↔ f.signature.isSupported file.table = true)
  entries : ∀ g ∈ r.parsedFunctions, ∃ f, file.function? g.name = some f ∧
    g.position = f.position ∧
    g.parameters = f.signature.params.map (fun v => ⟨v.name, file.table.simplify v.type⟩) ∧
    g.resultTypes = f.signature.results.map (fun v => file.table.simplify v.type)

/-- A report lists all functions declared at file level: the supported ones by position, and the
names of the others in order. -/
structure Lists (file : ResolvedFile) (r : FileReport) : Prop where
  parsed : r.parsedFunctions.Perm
    ((file.functions.filter fun f => f.signature.isSupported file.table).map
      (FuncDef.report file.table))
  byPosition : r.parsedFunctions.Pairwise fun f g => f.position.le g.position = true
  notSupported : r.notSupportedFunctionsNames.Perm
    ((file.functions.filter fun f => !f.signature.isSupported file.table).map FuncDef.name)
  sorted : r.notSupportedFunctionsNames.Pairwise (· ≤ ·)
  notFound : r.notFoundFunctionsNames = []

theorem answers_report (hne : requested ≠ []) :
    file.Answers requested (file.report path requested) := by
  refine ⟨fun name => ?_, fun name hmem => ?_, fun name hmem f hf => ?_, fun g hg => ?_⟩
  · simp only [(nodup_names_report hne).count, mem_names_report hne]
  · rw [notFound_report_perm.mem_iff, mem_notFound_iff, and_iff_right hmem, function?_eq_none_iff]
  · constructor
    · rintro ⟨g, hg, rfl⟩
      obtain ⟨f', hf', hsupported, rfl⟩ := mem_parsed_report.mp hg
      have hsame : some f' = some f := ((mem_selected hne).mp hf').2.symm.trans hf
      cases hsame
      exact hsupported
    · intro hsupported
      obtain ⟨hsel, hname⟩ := selected_of_function? hmem hf
      exact ⟨_, mem_parsed_report.mpr ⟨f, hsel, hsupported, rfl⟩, hname⟩
  · obtain ⟨f, hf, -, rfl⟩ := mem_parsed_report.mp hg
    exact ⟨f, ((mem_selected hne).mp hf).2, rfl, rfl, rfl⟩

theorem lists_report : file.Lists (file.report path []) where
  parsed := parsed_report_perm
  byPosition := pairwise_position_report
  notSupported := notSupported_report_perm
  sorted := pairwise_mergeSort_texts _
  notFound := by simp [report, select, Selection.assemble]

/-- The report on a file answers every request that names functions, whatever their order and
repetition, and lists all functions for the request that names none. -/
theorem report_spec (file : ResolvedFile) (path : String) :
    (∀ requested, requested ≠ [] → file.Answers requested (file.report path requested)) ∧
      (∀ requested requested', (∀ name, name ∈ requested ↔ name ∈ requested') →
        file.report path requested = file.report path requested') ∧
      file.Lists (file.report path []) :=
  ⟨fun _ => answers_report, fun _ _ => report_congr, lists_report⟩

/-- A function `Run`, a method `Run` and an interface with the method `Read`. -/
def ofHomonyms : ResolvedFile where
  path := "a.go"
  packageName := "p"
  definitions :=
    [.func ⟨"Run", ⟨none, [], [], [], false⟩, ⟨20, 3, 6⟩, .package⟩,
      .func ⟨"Run", ⟨some ⟨"j", .basic .int⟩, [], [], [], false⟩, ⟨45, 5, 14⟩, .package⟩,
      .func ⟨"Read", ⟨none, [], [], [], false⟩, ⟨80, 8, 2⟩, .interface⟩]
  table := .initial

/-- The function `Run` answers for the name; `Read` is no function at file level. -/
theorem report_spec_ofHomonyms :
    ["Read", "Run", "Read"] ≠ [] ∧
      ofHomonyms.Answers ["Read", "Run", "Read"]
        (ofHomonyms.report "a.go" ["Read", "Run", "Read"]) ∧
      ofHomonyms.report "a.go" ["Read", "Run", "Read"] =
        ⟨"a.go", "p", [⟨"Run", [], [], ⟨20, 3, 6⟩⟩], [], ["Read"]⟩ :=
  ⟨by decide, (report_spec _ _).1 _ (by decide), by decide +kernel⟩

end ResolvedFile

end GoSignatures

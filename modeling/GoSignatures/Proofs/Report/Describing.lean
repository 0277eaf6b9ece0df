import GoSignatures.Batch
import GoSignatures.Proofs.Classification.Obstacles
import GoSignatures.Proofs.Outcome
import GoSignatures.Proofs.Report.Selecting

/-!
# What a report tells about a signature

The decision whether a signature is supported, the description of its types and the list of what
stands against it are computed apart from each other. They agree: the reported functions are the
selected ones with a plain signature, and what is told about them is the names of basic kinds and
of the error contract. All other selected functions are told by name.

* `Table.DescribesBasic`, `Table.DescribesResult` — the descriptions of types
* `FuncDef.DescribedBy` — what is told about a function
* `ResolvedFile.Obeys` — a report obeys the policy about what can be represented
* `Request.obeys_of_analyzeBytes` — every report does
-/

namespace GoSignatures

variable {t : Table}

/-! ## Descriptions -/

/-- A type whose underlying type is basic is described by the name of that kind. -/
def Table.DescribesBasic (t : Table) (type : Ty) (d : SimplifiedType) : Prop :=
  ∃ kind, t.underlying type = .basic kind ∧ d = ⟨kind.name, false⟩

/-- A result is described like a parameter, or as the error contract if it has that. -/
def Table.DescribesResult (t : Table) (type : Ty) (d : SimplifiedType) : Prop :=
  t.DescribesBasic type d ∨ t.hasErrorContract type = true ∧ d = ⟨"error", true⟩

/-- What is told about a function: its name, its place, and its parameters and results in order. -/
structure FuncDef.DescribedBy (t : Table) (f : FuncDef) (g : FunctionReport) : Prop where
  name : g.name = f.name
  position : g.position = f.position
  parameters : List.Forall₂ (fun v p => p.name = v.name ∧ t.DescribesBasic v.type p.type)
    f.signature.params g.parameters
  results : List.Forall₂ (fun v d => t.DescribesResult v.type d) f.signature.results g.resultTypes

theorem Ty.render_basic (t : Table) (kind : Kind) : (Ty.basic kind).render t = kind.name := by
  rw [Ty.render, Ty.chars, String.ofList_toList]

/-- A parameter is allowed if it is of a basic kind, which is what is told about it. -/
theorem Table.describesBasic_simplify {type : Ty} (h : t.Allows type .parameter) :
    t.DescribesBasic type (t.simplify type) := by
  obtain ⟨kind, hkind⟩ := h
  have hcontract : t.hasErrorContract type = false := by rw [Table.hasErrorContract, hkind]
  refine ⟨kind, hkind, ?_⟩
  rw [Table.simplify, hcontract, hkind, Ty.render_basic]
  rfl

/-- A result may also have the error contract, which is told as such. -/
theorem Table.describesResult_simplify {type : Ty} (h : t.Allows type .result) :
    t.DescribesResult type (t.simplify type) := by
  rcases h with hbasic | hcontract
  · exact Or.inl (t.describesBasic_simplify hbasic)
  · exact Or.inr ⟨hcontract, by rw [Table.simplify, if_pos hcontract]⟩

/-- Parameters and results of a plain signature are all allowed, so each is described. -/
theorem FuncDef.describedBy_report {f : FuncDef} (h : f.signature.Plain t) :
    f.DescribedBy t (f.report t) where
  name := rfl
  position := rfl
  parameters := by
    rw [FuncDef.report, List.forall₂_map_right_iff, List.forall₂_same]
    exact fun v hv => ⟨rfl, t.describesBasic_simplify (h.params v hv)⟩
  results := by
    rw [FuncDef.report, List.forall₂_map_right_iff, List.forall₂_same]
    exact fun v hv => t.describesResult_simplify (h.results v hv)

/-! ## The policy -/

namespace ResolvedFile

variable {file : ResolvedFile} {path : String} {requested : List String}

/-- A report obeys the policy: of the selected functions, which are declared at file level and
wanted, those with a plain signature and no others are reported, each as it is to be described, and
the names of all others are listed. What stands against a signature is listed check by check. -/
structure Obeys (file : ResolvedFile) (requested : List String) (r : FileReport) : Prop where
  selected : ∀ f ∈ file.selected requested, .func f ∈ file.definitions ∧ f.scope = .package ∧
    (requested ≠ [] → f.name ∈ requested)
  parsed : ∀ g ∈ r.parsedFunctions, ∃ f ∈ file.selected requested,
    f.signature.Plain file.table ∧ f.DescribedBy file.table g
  plain : ∀ f ∈ file.selected requested, f.signature.Plain file.table →
    ∃ g ∈ r.parsedFunctions, f.DescribedBy file.table g
  others : ∀ f ∈ file.selected requested, ¬ f.signature.Plain file.table →
    f.name ∈ r.notSupportedFunctionsNames
  notSupported : ∀ name ∈ r.notSupportedFunctionsNames, ∃ f ∈ file.selected requested,
    ¬ f.signature.Plain file.table ∧ f.name = name
  obstacles : ∀ sig : Signature, (sig.obstacles file.table).Pairwise Obstacle.Before ∧
    ∀ o : Obstacle, o ∈ sig.obstacles file.table ↔ o.Blocks file.table sig

theorem mem_functions {f : FuncDef} :
    f ∈ file.functions ↔ .func f ∈ file.definitions ∧ f.scope = .package := by
  have hfunc : ∀ (d : Definition) (f : FuncDef), d.func? = some f ↔ d = .func f := by
    rintro (d | d | d | d) f <;> simp [Definition.func?]
  rw [functions, List.mem_filter, mem_filterMap_iff hfunc, FuncDef.isTopLevel, beq_iff_eq]

theorem mem_functions_of_selected {f : FuncDef} (h : f ∈ file.selected requested) :
    f ∈ file.functions := by
  by_cases hne : requested = []
  · rwa [hne] at h
  · have hfound := ((mem_selected hne).mp h).2
    rw [function?_eq_find?] at hfound
    exact List.mem_of_find?_eq_some hfound

/-- A function is told by name if it is selected and something stands against it. -/
theorem mem_notSupported_report {name : String} :
    name ∈ (file.report path requested).notSupportedFunctionsNames ↔
      ∃ f ∈ file.selected requested, ¬ f.signature.Plain file.table ∧ f.name = name := by
  rw [notSupported_report_perm.mem_iff]
  simp [and_assoc, ← Signature.isSupported_iff]

theorem obeys_report (file : ResolvedFile) (path : String) (requested : List String) :
    file.Obeys requested (file.report path requested) where
  selected := fun f hf => by
    obtain ⟨hdefined, hscope⟩ := mem_functions.mp (mem_functions_of_selected hf)
    exact ⟨hdefined, hscope, fun hne => ((mem_selected hne).mp hf).1⟩
  parsed := fun g hg => by
    obtain ⟨f, hf, hsupported, rfl⟩ := mem_parsed_report.mp hg
    have hplain := Signature.isSupported_iff.mp hsupported
    exact ⟨f, hf, hplain, FuncDef.describedBy_report hplain⟩
  plain := fun f hf hplain =>
    ⟨_, mem_parsed_report.mpr ⟨f, hf, Signature.isSupported_iff.mpr hplain, rfl⟩,
      FuncDef.describedBy_report hplain⟩
  others := fun f hf hplain => mem_notSupported_report.mpr ⟨f, hf, hplain, rfl⟩
  notSupported := fun _ hname => mem_notSupported_report.mp hname
  obstacles := fun _ => ⟨Signature.pairwise_obstacles, fun _ => Signature.mem_obstacles⟩

end ResolvedFile

/-- Every report on the content of a file obeys the policy about what can be represented. -/
theorem Request.obeys_of_analyzeBytes {request : Request} {config : Config} {bytes : ByteArray}
    {r : FileReport} (h : request.analyzeBytes config bytes = .ok r) :
    ∃ file resolved, SourceFile.ofBytes request.filePath bytes = .ok file ∧
      file.resolve config = .ok resolved ∧
      r = resolved.report request.filePath request.functionNames ∧
      resolved.Obeys request.functionNames r := by
  obtain ⟨file, hfile, h⟩ := Except.bind_eq_ok_iff.mp h
  obtain ⟨resolved, hresolved, h⟩ := Except.bind_eq_ok_iff.mp h
  obtain rfl : _ = r := Except.ok.inj h
  exact ⟨file, resolved, Except.mapError_eq_ok_iff.mp hfile, Except.mapError_eq_ok_iff.mp hresolved,
    rfl, resolved.obeys_report _ _⟩

/-- The request for all functions of a file. -/
def Request.ofSizes : Request := ⟨"p.go", []⟩

/-- Its content: a declared number, an interface with the error contract, a function with a plain
signature and one that takes a channel and a variadic part. -/
def Request.contentOfSizes : ByteArray :=
  ("package p\ntype Size int\ntype Failure interface{ Error() string }\n" ++
    "func Cut(s string, n Size) (byte, Failure)\nfunc Wait(c chan int, more ...int)\n").toUTF8

/-- The function `Cut` is reported, `Wait` is listed. -/
theorem Request.obeys_of_analyzeBytes_ofSizes :
    ∃ r, ofSizes.analyzeBytes {} contentOfSizes = .ok r ∧
      r.parsedFunctions.map FunctionReport.name = ["Cut"] ∧
      r.notSupportedFunctionsNames = ["Wait"] ∧
      ∃ file resolved, SourceFile.ofBytes ofSizes.filePath contentOfSizes = .ok file ∧
        file.resolve {} = .ok resolved ∧
        r = resolved.report ofSizes.filePath ofSizes.functionNames ∧
        resolved.Obeys ofSizes.functionNames r := by
  have hnames : (ofSizes.analyzeBytes {} contentOfSizes).toOption.map
      (fun r => (r.parsedFunctions.map FunctionReport.name, r.notSupportedFunctionsNames)) =
        some (["Cut"], ["Wait"]) := by decide +kernel
  cases hr : ofSizes.analyzeBytes {} contentOfSizes with
  | error e =>
    rw [hr] at hnames
    cases hnames
  | ok r =>
    rw [hr] at hnames
    obtain ⟨hparsed, hnotSupported⟩ := Prod.mk.inj (Option.some.inj hnames)
    exact ⟨r, rfl, hparsed, hnotSupported, obeys_of_analyzeBytes hr⟩

end GoSignatures

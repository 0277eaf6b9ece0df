import GoSignatures.Proofs.Report.Ordering

/-!
# A report as a part of the report on everything

A request that names functions and the request that names none read the definitions in two ways: the
first looks for each name once, the second takes every function. Where the functions have distinct
names both come to the same: what is told for some names is what is told of everything, restricted
to these names.

* `filter_mergeSort` — sorting commutes with picking elements
* `FileReport.restrict`, `FileReport.withNotFound` — a part of a report, a report with more names
* `ResolvedFile.report_eq_restrict` — the report for some names
-/

namespace GoSignatures

/-! ## Sorting is stable -/

section Stable

variable {α : Type} {le : α → α → Bool}

/-- A boundary stands where a test says so. -/
theorem append_inj_of_test {p : α → Bool} {s t s' t' : List α} (h : s ++ t = s' ++ t')
    (hs : ∀ a ∈ s, p a = false) (ht : ∀ a ∈ t, p a = true) (hs' : ∀ a ∈ s', p a = false)
    (ht' : ∀ a ∈ t', p a = true) : s = s' ∧ t = t' := by
  have hnone : ∀ {l : List α}, (∀ a ∈ l, p a = false) → l.filter p = [] := fun hl =>
    List.filter_eq_nil_iff.mpr fun a ha => by simp [hl a ha]
  have hfilter := congrArg (List.filter p) h
  rw [List.filter_append, List.filter_append, hnone hs, hnone hs', List.filter_eq_self.mpr ht,
    List.filter_eq_self.mpr ht', List.nil_append, List.nil_append] at hfilter
  subst hfilter
  exact ⟨List.append_cancel_right h, rfl⟩

/-- A sorted list takes a new first element between those that it is not below and the others. -/
theorem mergeSort_cons_parted (htrans : ∀ a b c, le a b = true → le b c = true → le a c = true)
    (htotal : ∀ a b, (le a b || le b a) = true) (a : α) (l : List α) :
    ∃ l₁ l₂, (a :: l).mergeSort le = l₁ ++ a :: l₂ ∧ l.mergeSort le = l₁ ++ l₂ ∧
      (∀ b ∈ l₁, le a b = false) ∧ ∀ b ∈ l₂, le a b = true := by
  obtain ⟨l₁, l₂, hsort, hl, hbefore⟩ := List.mergeSort_cons htrans htotal a l
  refine ⟨l₁, l₂, hsort, hl, fun b hb => by simpa using hbefore b hb, ?_⟩
  have hsorted := List.pairwise_mergeSort htrans htotal (a :: l)
  rw [hsort, List.pairwise_append] at hsorted
  exact (List.pairwise_cons.mp hsorted.2.1).1

theorem filter_mergeSort (htrans : ∀ a b c, le a b = true → le b c = true → le a c = true)
    (htotal : ∀ a b, (le a b || le b a) = true) (p : α → Bool) (l : List α) :
    (l.mergeSort le).filter p = (l.filter p).mergeSort le := by
  induction l with
  | nil => simp
  | cons a l ih =>
    obtain ⟨l₁, l₂, hsort, hl, hbefore, hbehind⟩ := mergeSort_cons_parted htrans htotal a l
    rw [hsort, List.filter_append]
    cases ha : p a with
    | false =>
      rw [List.filter_cons_of_neg (by simp [ha]), List.filter_cons_of_neg (by simp [ha]), ← ih, hl,
        List.filter_append]
    | true =>
      -- `a` is kept on both sides, and stands at the same boundary
      obtain ⟨k₁, k₂, hsort', hk, hbefore', hbehind'⟩ :=
        mergeSort_cons_parted htrans htotal a (l.filter p)
      rw [← ih, hl, List.filter_append] at hk
      obtain ⟨h₁, h₂⟩ := append_inj_of_test hk
        (fun b hb => hbefore b (List.mem_filter.mp hb).1)
        (fun b hb => hbehind b (List.mem_filter.mp hb).1) hbefore' hbehind'
      rw [List.filter_cons_of_pos ha, List.filter_cons_of_pos ha, hsort', h₁, h₂]

end Stable

theorem filter_mergeSort_texts (p : String → Bool) (l : List String) :
    l.mergeSort.filter p = (l.filter p).mergeSort :=
  filter_mergeSort (fun a b c => by simpa using String.le_trans)
    (fun a b => by simpa using String.le_total a b) p l

theorem FunctionReport.filter_mergeSort (p : FunctionReport → Bool) (l : List FunctionReport) :
    (l.mergeSort fun f g => f.position.le g.position).filter p =
      (l.filter p).mergeSort fun f g => f.position.le g.position :=
  @GoSignatures.filter_mergeSort FunctionReport (fun f g => f.position.le g.position)
    (fun _ _ _ => Position.le_trans) (fun _ _ => Position.le_total _ _) p l

/-! ## Parts of a report -/

namespace FileReport

/-- What a report tells of the given names. -/
def restrict (r : FileReport) (names : List String) : FileReport :=
  { r with
    parsedFunctions := r.parsedFunctions.filter fun f => names.contains f.name
    notSupportedFunctionsNames := r.notSupportedFunctionsNames.filter names.contains
    notFoundFunctionsNames := r.notFoundFunctionsNames.filter names.contains }

/-- The report with further names that no function bears, in the order of their bytes. -/
def withNotFound (r : FileReport) (names : List String) : FileReport :=
  { r with notFoundFunctionsNames := (r.notFoundFunctionsNames ++ names).mergeSort }

theorem restrict_eq_self {r : FileReport} {names : List String}
    (h : ∀ name ∈ r.names, name ∈ names) : r.restrict names = r := by
  have hparsed : ∀ f ∈ r.parsedFunctions, names.contains f.name = true := fun f hf => by
    simpa using h f.name (by simp [FileReport.names, List.mem_map_of_mem hf])
  have hnotSupported : ∀ name ∈ r.notSupportedFunctionsNames, names.contains name = true :=
    fun name hname => by simpa using h name (by simp [FileReport.names, hname])
  have hnotFound : ∀ name ∈ r.notFoundFunctionsNames, names.contains name = true :=
    fun name hname => by simpa using h name (by simp [FileReport.names, hname])
  rw [restrict, List.filter_eq_self.mpr hparsed, List.filter_eq_self.mpr hnotSupported,
    List.filter_eq_self.mpr hnotFound]

theorem withNotFound_nil {r : FileReport} (h : r.notFoundFunctionsNames = []) :
    r.withNotFound [] = r := by
  rw [withNotFound, List.append_nil, h, List.mergeSort_nil, ← h]

end FileReport

namespace ResolvedFile

variable {file : ResolvedFile} {path : String} {requested : List String}

/-- The requested names that no function declared at file level bears, each once. -/
def missing (file : ResolvedFile) (requested : List String) : List String :=
  requested.eraseDups.filter fun name => !file.functions.any (·.name == name)

/-- A requested name is not found where no function bears it. -/
theorem notFound_eq_missing (hnames : (file.functions.map FuncDef.name).Nodup) :
    (file.select requested).notFound = file.missing requested := by
  refine List.filter_congr fun name hname => ?_
  have hmem : name ∈ requested := List.mem_eraseDups.mp hname
  rw [selected_eq_filter hnames, List.any_filter]
  congr 2
  funext f
  by_cases hf : f.name = name
  · simp [hf, hmem]
  · simp [hf]

/-- The functions chosen for some names are those chosen for none that bear one of the names. -/
theorem filter_selected (hnames : (file.functions.map FuncDef.name).Nodup)
    (hne : requested ≠ []) (p : FuncDef → Bool) :
    (file.selected requested).filter p =
      ((file.selected []).filter p).filter fun f => requested.contains f.name := by
  have hempty : requested.isEmpty = false := by simpa using hne
  rw [selected_eq_filter hnames, hempty]
  simp [selected, List.filter_filter, Bool.and_comm]

theorem parsed_eq_filter (hnames : (file.functions.map FuncDef.name).Nodup)
    (hne : requested ≠ []) : (file.select requested).parsed =
      (file.select []).parsed.filter fun f => requested.contains f.name := by
  show ((file.selected requested).filter _).map (FuncDef.report file.table) =
    (((file.selected []).filter _).map (FuncDef.report file.table)).filter _
  rw [filter_selected hnames hne, List.filter_map]
  rfl

theorem notSupported_eq_filter (hnames : (file.functions.map FuncDef.name).Nodup)
    (hne : requested ≠ []) : (file.select requested).notSupported =
      (file.select []).notSupported.filter requested.contains := by
  show ((file.selected requested).filter _).map FuncDef.name =
    (((file.selected []).filter _).map FuncDef.name).filter _
  rw [filter_selected hnames hne, List.filter_map]
  rfl

/-- All names of functions at file level, and no others, are told for the request of none. -/
theorem mem_names_report_nil {name : String} :
    name ∈ (file.report path []).names ↔ name ∈ file.functions.map FuncDef.name := by
  rw [names_report_perm.mem_iff]
  simp [selected, select]

theorem missing_eq_nil (h : ∀ name ∈ requested, name ∈ file.functions.map FuncDef.name) :
    file.missing requested = [] := by
  refine List.filter_eq_nil_iff.mpr fun name hname => ?_
  obtain ⟨f, hf, rfl⟩ := List.mem_map.mp (h name (List.mem_eraseDups.mp hname))
  simpa using ⟨f, hf, rfl⟩

theorem report_restrict (hnames : (file.functions.map FuncDef.name).Nodup)
    (hne : requested ≠ []) : file.report path requested =
      ((file.report path []).restrict requested).withNotFound (file.missing requested) := by
  have hparsed := parsed_eq_filter hnames hne
  have hnotSupported := notSupported_eq_filter hnames hne
  have hnone : (file.report path []).notFoundFunctionsNames = [] := lists_report.notFound
  simp only [report, Selection.assemble, FileReport.restrict, FileReport.withNotFound,
    FileReport.mk.injEq, true_and] at hnone ⊢
  refine ⟨?_, ?_, ?_⟩
  · rw [hparsed, FunctionReport.filter_mergeSort]
  · rw [hnotSupported, filter_mergeSort_texts]
  · rw [hnone, notFound_eq_missing hnames, List.filter_nil, List.nil_append]

/-- Where the functions declared at file level have distinct names, the report for some names is the
report on all functions, restricted to these names, with the names that no function bears added as
not found. So asking for all of them by name is asking for none. -/
theorem report_eq_restrict (hnames : (file.functions.map FuncDef.name).Nodup) (path : String) :
    (∀ requested, requested ≠ [] → file.report path requested =
        ((file.report path []).restrict requested).withNotFound (file.missing requested)) ∧
      ∀ requested, (∀ name, name ∈ requested ↔ name ∈ file.functions.map FuncDef.name) →
        file.report path requested = file.report path [] := by
  refine ⟨fun requested hne => report_restrict hnames hne, fun requested hall => ?_⟩
  by_cases hne : requested = []
  · rw [hne]
  · have hrestrict : (file.report path []).restrict requested = file.report path [] :=
      FileReport.restrict_eq_self fun name hname => (hall name).mpr (mem_names_report_nil.mp hname)
    rw [report_restrict hnames hne, hrestrict, missing_eq_nil fun name => (hall name).mp,
      FileReport.withNotFound_nil lists_report.notFound]

/-- `Run` is an element of an interface too, `Size` of nothing; `Join` is not supported. -/
theorem report_eq_restrict_ofUnordered :
    (ofUnordered.functions.map FuncDef.name).Nodup ∧
      ["Size", "Join", "Size", "Run"] ≠ [] ∧
      ofUnordered.report "a.go" ["Size", "Join", "Size", "Run"] =
        ((ofUnordered.report "a.go" []).restrict ["Size", "Join", "Size", "Run"]).withNotFound
          ["Size"] ∧
      (∀ name, name ∈ ["Join", "Age", "Run", "Join"] ↔
        name ∈ ofUnordered.functions.map FuncDef.name) ∧
      ofUnordered.report "a.go" ["Join", "Age", "Run", "Join"] = ofUnordered.report "a.go" [] := by
  have hnames : (ofUnordered.functions.map FuncDef.name).Nodup := by decide
  have hne : ["Size", "Join", "Size", "Run"] ≠ [] := by decide
  have hall : ∀ name, name ∈ ["Join", "Age", "Run", "Join"] ↔
      name ∈ ofUnordered.functions.map FuncDef.name := fun name => by
    have hfunctions : ofUnordered.functions.map FuncDef.name = ["Run", "Join", "Age"] := by decide
    rw [hfunctions]
    simp only [List.mem_cons, List.not_mem_nil, or_false]
    tauto
  have hmissing : ofUnordered.missing ["Size", "Join", "Size", "Run"] = ["Size"] := by decide
  have hreport := report_eq_restrict hnames "a.go"
  exact ⟨hnames, hne, hmissing ▸ hreport.1 _ hne, hall, hreport.2 _ hall⟩

end ResolvedFile

end GoSignatures

import Mathlib.Data.List.Permutation
import GoSignatures.Proofs.Report.Selecting
import GoSignatures.Proofs.Text.Bytes

/-!
# The order of a report

Where no two functions declared at file level share a name or a position, a report tells nothing of
the order of the definitions, nor of the order in which the names without a function were gathered:
functions stand by position, names by their bytes.

* `FileReport.Ordered` — a report is in its fixed order
* `ResolvedFile.selected_eq_filter` — with distinct names, every function of a wanted name is chosen
* `ResolvedFile.report_of_perm` — the report on a file whose definitions are rearranged
-/

namespace GoSignatures

/-- One place comes before another. -/
def Position.Before (p q : Position) : Prop :=
  p.le q = true ∧ p ≠ q

/-- A report is in order: its functions by their positions, its names by their bytes, and no two of
a list share theirs. -/
structure FileReport.Ordered (r : FileReport) : Prop where
  parsed : r.parsedFunctions.Pairwise fun f g => f.position.Before g.position
  notSupported : r.notSupportedFunctionsNames.Pairwise fun a b => utf8 a < utf8 b
  notFound : r.notFoundFunctionsNames.Pairwise fun a b => utf8 a < utf8 b

/-- A selection in which the names that no function bears were gathered in another order. -/
def Selection.withNotFound (s : Selection) (names : List String) : Selection :=
  { s with notFound := names }

/-! ## Sorted lists -/

/-- The distinct members of a list that is sorted stand in the order of their bytes. -/
theorem pairwise_utf8_of_nodup {l : List String} (hsorted : l.Pairwise (· ≤ ·)) (h : l.Nodup) :
    l.Pairwise fun a b => utf8 a < utf8 b := by
  refine (hsorted.and h).imp fun {a b} hab => utf8_lt_utf8 ?_
  exact lt_of_le_of_ne hab.1 hab.2

/-- Functions at distinct positions are sorted in one way. -/
theorem FunctionReport.mergeSort_congr {l l' : List FunctionReport} (h : l.Perm l')
    (hnodup : (l.map FunctionReport.position).Nodup) :
    l.mergeSort (fun f g => f.position.le g.position) =
      l'.mergeSort fun f g => f.position.le g.position := by
  have hsorted : ∀ l : List FunctionReport,
      (l.mergeSort fun f g => f.position.le g.position).Pairwise
        fun f g => f.position.le g.position = true :=
    List.pairwise_mergeSort (fun _ _ _ => Position.le_trans) fun _ _ => Position.le_total _ _
  refine List.Perm.eq_of_pairwise (fun f g hf hg hfg hgf => ?_) (hsorted l) (hsorted l')
    (((List.mergeSort_perm l _).trans h).trans (List.mergeSort_perm l' _).symm)
  have hf' : f ∈ l := (List.mergeSort_perm l _).mem_iff.mp hf
  have hg' : g ∈ l := h.mem_iff.mpr ((List.mergeSort_perm l' _).mem_iff.mp hg)
  exact List.inj_on_of_nodup_map hnodup hf' hg' (Position.le_antisymm hfg hgf)

/-! ## Distinct names -/

/-- Where the names are distinct, the first function of a name is the only one. -/
theorem FuncDef.firsts_eq_filter : ∀ {fs : List FuncDef}, (fs.map FuncDef.name).Nodup →
    ∀ wanted : List String, firsts wanted fs = fs.filter fun f => wanted.contains f.name
  | [], _, _ => rfl
  | f :: fs, h, wanted => by
    obtain ⟨hf, hfs⟩ := List.nodup_cons.mp h
    rw [firsts, List.filter_cons]
    split
    · have hrest : fs.filter (fun g => (wanted.filter (· != f.name)).contains g.name) =
          fs.filter fun g => wanted.contains g.name := by
        refine List.filter_congr fun g hg => ?_
        have hne : g.name ≠ f.name := fun he => hf (he ▸ List.mem_map_of_mem hg)
        rw [Bool.eq_iff_iff]
        simp [hne]
      rw [firsts_eq_filter hfs, hrest]
    · exact firsts_eq_filter hfs wanted

namespace ResolvedFile

variable {file : ResolvedFile} {path : String} {requested : List String}

theorem selected_eq_filter (hnames : (file.functions.map FuncDef.name).Nodup) :
    file.selected requested =
      file.functions.filter fun f => requested.isEmpty || requested.contains f.name := by
  rw [selected]
  split
  · next hempty => simp [hempty]
  · next hempty =>
    rw [FuncDef.firsts_eq_filter hnames]
    simp [hempty]

/-- With distinct names, the chosen functions are distinct in whatever those at file level are. -/
theorem nodup_map_selected (hnames : (file.functions.map FuncDef.name).Nodup) {α : Type}
    {key : FuncDef → α} (h : (file.functions.map key).Nodup) :
    ((file.selected requested).map key).Nodup := by
  rw [selected_eq_filter hnames]
  exact (List.filter_sublist.map key).nodup h

theorem nodup_position_parsed (hnames : (file.functions.map FuncDef.name).Nodup)
    (hpositions : (file.functions.map FuncDef.position).Nodup) (requested : List String) :
    ((file.select requested).parsed.map FunctionReport.position).Nodup := by
  show ((((file.selected requested).filter _).map (FuncDef.report file.table)).map _).Nodup
  rw [List.map_map]
  exact (List.filter_sublist.map FuncDef.position).nodup (nodup_map_selected hnames hpositions)

/-- The file with other definitions. -/
def withDefinitions (file : ResolvedFile) (definitions : List Definition) : ResolvedFile :=
  { file with definitions }

variable {definitions : List Definition}

theorem functions_withDefinitions_perm (h : definitions.Perm file.definitions) :
    (file.withDefinitions definitions).functions.Perm file.functions :=
  (h.filterMap _).filter _

theorem selected_withDefinitions_perm (hnames : (file.functions.map FuncDef.name).Nodup)
    (h : definitions.Perm file.definitions) (requested : List String) :
    ((file.withDefinitions definitions).selected requested).Perm (file.selected requested) := by
  have hfunctions := functions_withDefinitions_perm h
  rw [selected_eq_filter hnames,
    selected_eq_filter ((hfunctions.map FuncDef.name).nodup_iff.mpr hnames)]
  exact hfunctions.filter _

theorem notFound_withDefinitions (hnames : (file.functions.map FuncDef.name).Nodup)
    (h : definitions.Perm file.definitions) :
    ((file.withDefinitions definitions).select requested).notFound =
      (file.select requested).notFound := by
  refine List.filter_congr fun name _ => ?_
  rw [(selected_withDefinitions_perm hnames h requested).any_eq]

/-! ## The order -/

theorem ordered_report (hnames : (file.functions.map FuncDef.name).Nodup)
    (hpositions : (file.functions.map FuncDef.position).Nodup) :
    (file.report path requested).Ordered where
  parsed := by
    have hperm : (file.report path requested).parsedFunctions.Perm
        (file.select requested).parsed := List.mergeSort_perm _ _
    have hnodup := nodup_position_parsed hnames hpositions requested
    rw [← (hperm.map FunctionReport.position).nodup_iff] at hnodup
    exact pairwise_position_report.and (List.pairwise_map.mp hnodup)
  notSupported := by
    refine pairwise_utf8_of_nodup (pairwise_mergeSort_texts _) ?_
    rw [notSupported_report_perm.nodup_iff]
    exact (List.filter_sublist.map FuncDef.name).nodup (nodup_map_selected hnames hnames)
  notFound := by
    refine pairwise_utf8_of_nodup (pairwise_mergeSort_texts _) ?_
    rw [notFound_report_perm.nodup_iff]
    exact nodup_notFound

/-- With distinct names and positions of the functions declared at file level, a report is in its
fixed order, and it is the same however the definitions are rearranged and in whatever order the
names that no function bears were gathered. -/
theorem report_of_perm (hnames : (file.functions.map FuncDef.name).Nodup)
    (hpositions : (file.functions.map FuncDef.position).Nodup)
    (hperm : definitions.Perm file.definitions) (path : String) (requested : List String)
    {notFound : List String}
    (hgathered : notFound.Perm ((file.withDefinitions definitions).select requested).notFound) :
    (((file.withDefinitions definitions).select requested).withNotFound notFound).assemble path
        file.packageName = file.report path requested ∧ (file.report path requested).Ordered := by
  refine ⟨?_, ordered_report hnames hpositions⟩
  have hselected := selected_withDefinitions_perm hnames hperm requested
  rw [notFound_withDefinitions hnames hperm] at hgathered
  simp only [report, Selection.assemble, Selection.withNotFound, FileReport.mk.injEq, true_and]
  refine ⟨?_, mergeSort_congr ((hselected.filter _).map _), mergeSort_congr hgathered⟩
  have hparsed : ((file.withDefinitions definitions).select requested).parsed.Perm
      (file.select requested).parsed := (hselected.filter _).map _
  refine FunctionReport.mergeSort_congr hparsed ?_
  rw [(hparsed.map FunctionReport.position).nodup_iff]
  exact nodup_position_parsed hnames hpositions requested

/-- Three functions and an element of an interface that shares the name of one of them. -/
def ofUnordered : ResolvedFile where
  path := "a.go"
  packageName := "p"
  definitions :=
    [.func ⟨"Run", ⟨none, [], [], [], false⟩, ⟨80, 8, 2⟩, .interface⟩,
      .func ⟨"Run", ⟨none, [], [], [], false⟩, ⟨45, 5, 6⟩, .package⟩,
      .func ⟨"Join", ⟨none, [], [], [⟨"", .slice (.basic .int)⟩], false⟩, ⟨20, 3, 6⟩, .package⟩,
      .func ⟨"Age", ⟨none, [], [], [⟨"", .basic .int⟩], false⟩, ⟨11, 2, 6⟩, .package⟩]
  table := .initial

/-- The functions `Age` and `Run` by position; the letter `é` comes after `z`. -/
theorem report_of_perm_ofUnordered :
    (ofUnordered.functions.map FuncDef.name).Nodup ∧
      (ofUnordered.functions.map FuncDef.position).Nodup ∧
      ofUnordered.definitions.reverse.Perm ofUnordered.definitions ∧
      ["été", "zoo"].Perm ((ofUnordered.withDefinitions ofUnordered.definitions.reverse).select
        ["Run", "zoo", "Join", "été", "Age"]).notFound ∧
      (((ofUnordered.withDefinitions ofUnordered.definitions.reverse).select
          ["Run", "zoo", "Join", "été", "Age"]).withNotFound ["été", "zoo"]).assemble "a.go" "p" =
        ⟨"a.go", "p", [⟨"Age", [], [⟨"int", false⟩], ⟨11, 2, 6⟩⟩, ⟨"Run", [], [], ⟨45, 5, 6⟩⟩],
          ["Join"], ["zoo", "été"]⟩ := by
  have hnames : (ofUnordered.functions.map FuncDef.name).Nodup := by decide
  have hpositions : (ofUnordered.functions.map FuncDef.position).Nodup := by decide
  have hgathered : ["été", "zoo"].Perm
      ((ofUnordered.withDefinitions ofUnordered.definitions.reverse).select
        ["Run", "zoo", "Join", "été", "Age"]).notFound := by decide +kernel
  have hreport := report_of_perm hnames hpositions (List.reverse_perm _) "a.go"
    ["Run", "zoo", "Join", "été", "Age"] hgathered
  exact ⟨hnames, hpositions, List.reverse_perm _, hgathered, hreport.1.trans (by cbv)⟩

end ResolvedFile

end GoSignatures

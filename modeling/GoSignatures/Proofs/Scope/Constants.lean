import GoSignatures.Proofs.Resolution.Functions
import GoSignatures.Source.Reading
import Mathlib.Data.List.Flatten

/-!
# Declared identifiers and the scope

The scope of a file should hold the identifiers that its declarations introduce, and every constant
its own value. In a declaration of several constants the commas between the names are kept as
names, so that a comma is entered as a constant and every later name stands beside a value that is
not its own.

* `SourceFile.identifiers` — what the declarations of a file introduce
* `SourceFile.KeepsDeclarations` — the scope agrees with the declarations
* `SourceFile.keepsDeclarations_iff` — it does exactly when each constant is declared on its own,
  files left aside that are refused anyway
-/

namespace GoSignatures

/-! ## Identifiers -/

/-- Names as the grammar keeps them in a declaration of constants: identifiers, and the commas
between them. -/
def ValueSpec.Separated : List Piece → Prop
  | [] => False
  | [name] => name.text ≠ ","
  | name :: comma :: names => name.text ≠ "," ∧ comma.text = "," ∧ Separated names

/-- The identifiers that a declaration of variables or constants introduces. -/
def ValueSpec.identifiers (spec : ValueSpec) : List Piece :=
  if spec.constant then spec.names.filter (·.text != ",") else spec.names

/-- The definitions that the identifiers of a declaration make. -/
def ValueSpec.identifierDefinitions (spec : ValueSpec) : List Definition :=
  ValueSpec.definitions { spec with names := spec.identifiers }

/-- Whether a definition is that of a variable or a constant. -/
def Definition.isValue : Definition → Bool
  | .var _ | .const _ => true
  | .func _ | .type _ => false

/-- The identifiers that a declaration introduces into the file scope. -/
def Declaration.identifiers : Declaration → List String
  | .imported _ => []
  | .type spec => [spec.name.text].filter (· != "_")
  | .value spec => (spec.identifiers.map Piece.text).filter (· != "_")
  | .func decl => [decl.name.text].filter fun name => name != "_" && name != "init"
  | .method _ => []

namespace SourceFile

/-- The identifiers that the declarations of a file introduce. -/
def identifiers (file : SourceFile) : List String :=
  file.declarations.flatMap Declaration.identifiers

/-- The names of constants are kept as the grammar keeps them. -/
def Separated (file : SourceFile) : Prop :=
  ∀ spec ∈ file.valueSpecs, spec.constant = true → ValueSpec.Separated spec.names

/-- Every declaration of constants declares a single one. -/
def DeclaresConstantsSingly (file : SourceFile) : Prop :=
  ∀ spec ∈ file.valueSpecs, spec.constant = true → spec.names.length = 1

/-- The scope of a file agrees with its declarations. -/
structure KeepsDeclarations (file : SourceFile) : Prop where
  /-- Unless an import is repeated, the scope is refused exactly when an identifier is. -/
  redeclared_iff : (Declaration.importedNames file.declarations).Nodup →
    ((∃ e name, FileScope.ofDeclarations file.path file.declarations = .error e ∧
      e.cause = .redeclared name) ↔ ¬ file.identifiers.Nodup)
  /-- The scope has the identifiers, in order. -/
  entries : ∀ scope, FileScope.ofDeclarations file.path file.declarations = .ok scope →
    scope.entries.map Prod.fst = file.identifiers
  /-- Variables and constants are defined one for each identifier, in order. -/
  definitions : ∀ config result, file.resolve config = .ok result →
    result.definitions.filter Definition.isValue =
      file.valueSpecs.flatMap ValueSpec.identifierDefinitions
  /-- A constant has the value at its place. -/
  values : ∀ scope, FileScope.ofDeclarations file.path file.declarations = .ok scope →
    ∀ spec ∈ file.valueSpecs, spec.constant = true →
      ∀ name value, (name, value) ∈ spec.identifiers.zip spec.values → name.text ≠ "_" →
        scope.lookup name.text = some (.const (some value))
  /-- An array length that names a constant with an integer literal is that number. -/
  lengths : ∀ scope, FileScope.ofDeclarations file.path file.declarations = .ok scope →
    ∀ spec ∈ file.valueSpecs, spec.constant = true →
      ∀ name literal n, (name, .int literal) ∈ spec.identifiers.zip spec.values →
        name.text ≠ "_" → Text.IntLiteral.value? literal = some n →
        (Expr.name name.text).arrayLen scope = .known n

end SourceFile

/-! ## What a declaration introduces -/

theorem ScopeEntry.map_fst_constants (names : List Piece) (values : List Expr) :
    (ScopeEntry.constants names values).map Prod.fst = names := by
  induction names generalizing values with
  | nil => rfl
  | cons name names ih => simp [ScopeEntry.constants, ih]

/-- Only functions are exempt for their name `init`. -/
theorem FileScope.map_fst_entered {names : List (Piece × ScopeEntry)}
    (h : ∀ n ∈ names, n.2 ≠ .func) :
    (entered names).map Prod.fst = (names.map fun n => n.1.text).filter (· != "_") := by
  have hfilter : names.filter (fun n => !introducesNothing n.1.text n.2)
      = names.filter fun n => n.1.text != "_" := by
    refine List.filter_congr fun n hn => ?_
    cases hentry : n.2 with
    | func => exact absurd hentry (h n hn)
    | _ => rfl
  rw [entered, hfilter, List.map_map, List.filter_map]
  rfl

theorem Declaration.map_fst_introduced_value (spec : ValueSpec) :
    (Declaration.value spec).introduced.map Prod.fst =
      (spec.names.map Piece.text).filter (· != "_") := by
  by_cases hc : spec.constant = true
  · rw [introduced, names, if_pos hc,
      FileScope.map_fst_entered fun n hn hfunc => by
        obtain ⟨_, hconst⟩ := ScopeEntry.eq_const_of_mem_constants hn
        rw [hfunc] at hconst
        cases hconst]
    conv_rhs => rw [← ScopeEntry.map_fst_constants spec.names spec.values, List.map_map]
    rfl
  · rw [introduced, names, if_neg hc, FileScope.map_fst_entered (by simp), List.map_map]
    rfl

/-- What a declaration introduces beside its identifiers are commas. -/
theorem Declaration.identifiers_sublist (d : Declaration) :
    d.identifiers.Sublist (d.introduced.map Prod.fst) := by
  cases d with
  | imported spec => exact List.nil_sublist _
  | method decl => exact List.nil_sublist _
  | type spec => 
    by_cases hb : spec.name.text = "_" <;>
      simp [identifiers, introduced, names, FileScope.entered, FileScope.introducesNothing, hb]
  | func decl =>
    by_cases hb : decl.name.text = "_" <;> by_cases hi : decl.name.text = "init" <;>
      simp [identifiers, introduced, names, FileScope.entered, FileScope.introducesNothing, hb, hi]
  | value spec =>
    rw [map_fst_introduced_value, identifiers]
    refine List.Sublist.filter _ (List.Sublist.map _ ?_)
    unfold ValueSpec.identifiers
    split
    · exact List.filter_sublist
    · exact List.Sublist.refl _

/-! ## Constants declared singly -/

/-- Where no comma stands between names there is one name. -/
theorem ValueSpec.Separated.length_eq_one {names : List Piece} (h : Separated names)
    (hc : ∀ name ∈ names, name.text ≠ ",") : names.length = 1 := by
  match names, h with
  | [_], _ => rfl
  | name :: comma :: names, h => exact absurd h.2.1 (hc comma (by simp))

theorem ValueSpec.Separated.eq_singleton {names : List Piece} (h : Separated names)
    (hl : names.length = 1) : ∃ name, names = [name] ∧ name.text ≠ "," := by
  match names, h with
  | [name], h => exact ⟨name, rfl, h⟩
  | _ :: _ :: _, _ => simp at hl

namespace SourceFile

variable {file : SourceFile}

/-- Constants that are declared singly are identifiers without commas. -/
theorem identifiers_eq_names (hsep : file.Separated) (hone : file.DeclaresConstantsSingly)
    {spec : ValueSpec} (hspec : spec ∈ file.valueSpecs) : spec.identifiers = spec.names := by
  unfold ValueSpec.identifiers
  split
  · next hc =>
    obtain ⟨name, hname, hcomma⟩ := (hsep spec hspec hc).eq_singleton (hone spec hspec hc)
    simp [hname, hcomma]
  · rfl

/-- The scope of a file whose constants are declared singly holds its identifiers. -/
theorem map_fst_introduced (hsep : file.Separated) (hone : file.DeclaresConstantsSingly) :
    (FileScope.introduced file.declarations).map Prod.fst = file.identifiers := by
  rw [FileScope.introduced, identifiers, List.map_flatMap]
  refine List.flatMap_congr fun d hd => ?_
  cases d with
  | value spec =>
    rw [Declaration.map_fst_introduced_value, Declaration.identifiers,
      identifiers_eq_names hsep hone (mem_valueSpecs.mpr hd)]
  | imported spec => rfl
  | method decl => rfl
  | type spec =>
    by_cases hb : spec.name.text = "_" <;>
      simp [Declaration.identifiers, Declaration.introduced, Declaration.names, FileScope.entered,
        FileScope.introducesNothing, hb]
  | func decl =>
    by_cases hb : decl.name.text = "_" <;> by_cases hi : decl.name.text = "init" <;>
      simp [Declaration.identifiers, Declaration.introduced, Declaration.names, FileScope.entered,
        FileScope.introducesNothing, hb, hi]

/-- A constant that is declared on its own stands for its own value. -/
theorem lookup_single_constant (hsep : file.Separated) (hone : file.DeclaresConstantsSingly)
    {scope : FileScope} (hscope : FileScope.ofDeclarations file.path file.declarations = .ok scope)
    {spec : ValueSpec} (hspec : spec ∈ file.valueSpecs) (hc : spec.constant = true)
    {name : Piece} {value : Expr} (hmem : (name, value) ∈ spec.identifiers.zip spec.values)
    (hblank : name.text ≠ "_") : scope.lookup name.text = some (.const (some value)) := by
  rw [identifiers_eq_names hsep hone hspec] at hmem
  obtain ⟨only, hnames, -⟩ := (hsep spec hspec hc).eq_singleton (hone spec hspec hc)
  obtain ⟨hname, hvalue⟩ : name = only ∧ spec.values.head? = some value := by
    rw [hnames] at hmem
    cases hv : spec.values with
    | nil => simp [hv] at hmem
    | cons v vs => simpa [hv, eq_comm] using hmem
  subst hname
  rw [FileScope.lookup_eq_some_iff hscope]
  refine List.mem_flatMap.mpr ⟨.value spec, mem_valueSpecs.mp hspec, ?_⟩
  simp [Declaration.introduced, Declaration.names, hc, hnames, ScopeEntry.constants, hvalue,
    FileScope.entered, FileScope.introducesNothing, hblank]

/-- A comma among the names of constants is no identifier, but it is introduced. -/
theorem identifiers_ne_introduced {spec : ValueSpec} (hc : spec.constant = true) {comma : Piece}
    (hmem : comma ∈ spec.names) (hcomma : comma.text = ",") :
    (Declaration.value spec).identifiers ≠ (Declaration.value spec).introduced.map Prod.fst := by
  intro h
  have hintroduced : "," ∈ (Declaration.value spec).introduced.map Prod.fst := by
    rw [Declaration.map_fst_introduced_value]
    exact List.mem_filter.mpr ⟨List.mem_map.mpr ⟨comma, hmem, hcomma⟩, by decide⟩
  rw [← h] at hintroduced
  simp only [Declaration.identifiers, ValueSpec.identifiers, hc, if_true, List.mem_filter,
    List.mem_map] at hintroduced
  obtain ⟨⟨name, ⟨-, hname⟩, heq⟩, -⟩ := hintroduced
  simp [heq] at hname

/-- A file that is accepted defines its variables and constants as their declarations say. -/
theorem values_of_resolve {config : Config} {result : ResolvedFile}
    (h : file.resolve config = .ok result) :
    result.definitions.filter Definition.isValue =
      file.valueSpecs.flatMap ValueSpec.definitions := by
  obtain ⟨-, -, functions, methods, -, -, -, -, -, -, hdeclared⟩ := resolve_ok h
  have hboth : ∀ d : Definition, (d.isDeclared && d.isValue) = d.isValue := by
    intro d
    cases d <;> simp [Definition.isDeclared, Definition.isValue]
  have hvalues : ∀ d ∈ file.valueSpecs.flatMap ValueSpec.definitions, d.isValue = true := by
    intro d hd
    obtain ⟨spec, -, hd⟩ := List.mem_flatMap.mp hd
    obtain ⟨name, -, rfl⟩ := List.mem_map.mp hd
    dsimp only
    split <;> rfl
  have hfuncs : ∀ fs : List FuncDef, (fs.map Definition.func).filter Definition.isValue = [] := by
    intro fs
    simp [List.filter_eq_nil_iff, Definition.isValue]
  calc result.definitions.filter Definition.isValue
      = (result.definitions.filter Definition.isDeclared).filter Definition.isValue := by
        rw [List.filter_filter]
        simp only [Bool.and_comm _ (Definition.isDeclared _), hboth]
    _ = file.valueSpecs.flatMap ValueSpec.definitions := by
        rw [hdeclared, List.filter_append, List.filter_eq_self.mpr hvalues, hfuncs,
          List.append_nil]

/-! ## The exact condition -/

/-- The scope of a file agrees with its declarations exactly if the file is refused because it
repeats an import or an identifier, or declares every constant singly. -/
theorem keepsDeclarations_iff (hsep : file.Separated) :
    file.KeepsDeclarations ↔
      ((Declaration.importedNames file.declarations).Nodup → file.identifiers.Nodup →
        file.DeclaresConstantsSingly) := by
  constructor
  · intro hkeeps himports hids spec hspec hc
    obtain ⟨scope, hscope⟩ :
        ∃ scope, FileScope.ofDeclarations file.path file.declarations = .ok scope := by
      cases h : FileScope.ofDeclarations file.path file.declarations with
      | ok scope => exact ⟨scope, rfl⟩
      | error e =>
        obtain ⟨name, hname⟩ := FileScope.cause_of_ofDeclarations_error h
        exact absurd hids ((hkeeps.redeclared_iff himports).mp ⟨e, name, h, hname⟩)
    refine (hsep spec hspec hc).length_eq_one fun name hname hcomma => ?_
    have hlonger := length_flatMap_lt (l := file.declarations)
      (fun d _ => d.identifiers_sublist) (mem_valueSpecs.mp hspec)
      (identifiers_ne_introduced hc hname hcomma)
    have hsame := hkeeps.entries scope hscope
    rw [(FileScope.ofDeclarations_eq_ok_iff.mp hscope).2.2, FileScope.introduced,
      List.map_flatMap] at hsame
    rw [hsame] at hlonger
    exact absurd hlonger (Nat.lt_irrefl _)
  · intro hone
    have hsub : file.identifiers.Sublist
        ((FileScope.introduced file.declarations).map Prod.fst) := by
      rw [identifiers, FileScope.introduced, List.map_flatMap]
      exact List.Sublist.flatMap_right file.declarations fun d _ => d.identifiers_sublist
    have hsingle : ∀ scope, FileScope.ofDeclarations file.path file.declarations = .ok scope →
        file.DeclaresConstantsSingly := by
      intro scope hscope
      obtain ⟨himports, hnames, -⟩ := FileScope.ofDeclarations_eq_ok_iff.mp hscope
      exact hone himports (hsub.nodup hnames)
    refine ⟨fun himports => ?_, fun scope hscope => ?_, fun config result hresolve => ?_,
      fun scope hscope spec hspec hc name value hmem hblank => ?_,
      fun scope hscope spec hspec hc name literal n hmem hblank hn => ?_⟩
    · constructor
      · rintro ⟨e, name, herror, -⟩ hids
        have hnames := map_fst_introduced hsep (hone himports hids)
        have hok : FileScope.ofDeclarations file.path file.declarations = .ok _ :=
          FileScope.ofDeclarations_eq_ok_iff.mpr ⟨himports, hnames ▸ hids, rfl⟩
        rw [herror] at hok
        cases hok
      · intro hids
        cases h : FileScope.ofDeclarations file.path file.declarations with
        | ok scope => exact absurd (hsub.nodup (FileScope.ofDeclarations_eq_ok_iff.mp h).2.1) hids
        | error e =>
          obtain ⟨name, hname⟩ := FileScope.cause_of_ofDeclarations_error h
          exact ⟨e, name, rfl, hname⟩
    · rw [(FileScope.ofDeclarations_eq_ok_iff.mp hscope).2.2]
      exact map_fst_introduced hsep (hsingle scope hscope)
    · obtain ⟨env, p, -, -, hsettle, -⟩ := resolve_ok hresolve
      obtain ⟨p₀, henter, -⟩ := settleTypes_ok hsettle
      rw [values_of_resolve hresolve]
      refine List.flatMap_congr fun spec hspec => ?_
      rw [ValueSpec.identifierDefinitions,
        identifiers_eq_names hsep (hsingle _ (enterTypes_ok henter).scope) hspec]
    · exact lookup_single_constant hsep (hsingle scope hscope) hscope hspec hc hmem hblank
    · have hlookup := lookup_single_constant hsep (hsingle scope hscope) hscope hspec hc hmem hblank
      simp [Expr.arrayLen, hlookup, hn]

/-! ## Two files -/

/-- The file `const ( A = 1; B = 2 )`. -/
def ofGroupedConstants : SourceFile where
  path := "a.go"
  packageName := "p"
  declarations :=
    [.value ⟨true, [⟨"A", ⟨20, 4, 2⟩⟩], none, [.int "1"]⟩,
      .value ⟨true, [⟨"B", ⟨27, 5, 2⟩⟩], none, [.int "2"]⟩]

/-- The file `const A, B = 1, 2`. -/
def ofListedConstants : SourceFile where
  path := "a.go"
  packageName := "p"
  declarations :=
    [.value ⟨true, [⟨"A", ⟨17, 3, 7⟩⟩, ⟨",", ⟨18, 3, 8⟩⟩, ⟨"B", ⟨20, 3, 10⟩⟩], none,
      [.int "1", .int "2"]⟩]

example : (read "a.go" "package p\n\nconst A, B = 1, 2\n").toOption.map
    (fun file => file.valueSpecs.map fun spec => (spec.constant, spec.names)) =
      some (ofListedConstants.valueSpecs.map fun spec => (spec.constant, spec.names)) := by
  decide +kernel

theorem keepsDeclarations_ofGroupedConstants :
    ofGroupedConstants.Separated ∧ ofGroupedConstants.KeepsDeclarations := by
  have hsep : ofGroupedConstants.Separated := by
    intro spec hspec _
    simp only [ofGroupedConstants, valueSpecs, List.filterMap_cons, List.filterMap_nil,
      List.mem_cons, List.not_mem_nil, or_false] at hspec
    rcases hspec with rfl | rfl <;> simp [ValueSpec.Separated]
  refine ⟨hsep, (keepsDeclarations_iff hsep).mpr fun _ _ spec hspec _ => ?_⟩
  simp only [ofGroupedConstants, valueSpecs, List.filterMap_cons, List.filterMap_nil,
    List.mem_cons, List.not_mem_nil, or_false] at hspec
  rcases hspec with rfl | rfl <;> rfl

/-- In `const A, B = 1, 2` the comma is entered as a constant and takes the value of `B`: the scope
has a third name, and an array of length `B` has no known length. -/
theorem not_keepsDeclarations_ofListedConstants :
    ofListedConstants.Separated ∧ ¬ ofListedConstants.KeepsDeclarations ∧
      ∃ scope, FileScope.ofDeclarations ofListedConstants.path ofListedConstants.declarations
          = .ok scope ∧
        scope.entries.map Prod.fst = ["A", ",", "B"] ∧
        (Expr.name "B").arrayLen scope = .expr "B" := by
  refine ⟨?_, ?_, _, rfl, rfl, rfl⟩
  · intro spec hspec _
    simp only [ofListedConstants, valueSpecs, List.filterMap_cons, List.filterMap_nil,
      List.mem_cons, List.not_mem_nil, or_false] at hspec
    subst hspec
    simp [ValueSpec.Separated]
  · intro h
    have hlen := h.lengths _ rfl _ (List.mem_singleton.mpr rfl) rfl ⟨"B", ⟨20, 3, 10⟩⟩ "2" 2
      (by simp [ValueSpec.identifiers]) (by decide) (by decide)
    cases hlen

end SourceFile

end GoSignatures

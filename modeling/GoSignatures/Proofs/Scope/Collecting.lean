import GoSignatures.Proofs.Lists
import GoSignatures.Proofs.Outcome
import GoSignatures.Resolution.Declaration

/-!
# What a scope is collected from

The names of a file are entered one by one, and the first that is taken ends the collection. Seen
as a whole, the scope is the list of everything that the declarations introduce.

* `Declaration.introduced`, `Declaration.importedName` — what one declaration contributes
* `FileScope.ofDeclarations_eq_ok_iff` — a scope is collected exactly when no name and no import
  is repeated, and then it is the list of what is introduced
* `FileScope.lookup_eq_some_iff` — what a name of a collected scope stands for
* `FileScope.cause_of_ofDeclarations_error` — a scope is refused because a name is taken
-/

namespace GoSignatures

/-! ## Contributions of a declaration -/

/-- What the names of constants stand for. Names and values correspond by their places. -/
def ScopeEntry.constants : List Piece → List Expr → List (Piece × ScopeEntry)
  | [], _ => []
  | name :: names, values => (name, .const values.head?) :: constants names values.tail

/-- The names of a declaration with what they stand for, blank ones included. -/
def Declaration.names : Declaration → List (Piece × ScopeEntry)
  | .imported _ => []
  | .type spec => [(spec.name, .type spec)]
  | .value spec =>
    if spec.constant then ScopeEntry.constants spec.names spec.values
    else spec.names.map fun name => (name, .var)
  | .func decl => [(decl.name, .func)]
  | .method _ => []

/-- The entries that names make in a scope. -/
def FileScope.entered (names : List (Piece × ScopeEntry)) : List (String × ScopeEntry) :=
  (names.filter fun n => !introducesNothing n.1.text n.2).map fun n => (n.1.text, n.2)

/-- The entries that a declaration makes in a scope. -/
def Declaration.introduced (d : Declaration) : List (String × ScopeEntry) :=
  FileScope.entered d.names

/-- The name under which a declaration imports, if it is neither blank nor a dot. -/
def ImportSpec.enteredName (spec : ImportSpec) : Option String :=
  if spec.givenName = some "_" ∨ spec.givenName = some "." then none
  else some (Imports.effectiveName spec.givenName (Text.StringLiteral.unquote spec.path))

/-- The imports with one more import, its name not being taken. -/
def Imports.insert (imports : Imports) (spec : ImportSpec) : Imports :=
  (imports.add spec.givenName (Text.StringLiteral.unquote spec.path) spec.position).2

/-- The imports of declarations. -/
def Declaration.importSpecs (ds : List Declaration) : List ImportSpec :=
  ds.filterMap fun
    | .imported spec => some spec
    | _ => none

/-- The imports that declarations make up. -/
def Imports.ofDeclarations (ds : List Declaration) : Imports :=
  (Declaration.importSpecs ds).foldl Imports.insert .empty

/-- The names under which declarations import. -/
def Declaration.importedNames (ds : List Declaration) : List String :=
  (Declaration.importSpecs ds).filterMap ImportSpec.enteredName

theorem ScopeEntry.eq_const_of_mem_constants {names : List Piece} {values : List Expr}
    {n : Piece × ScopeEntry} (h : n ∈ ScopeEntry.constants names values) :
    ∃ value, n.2 = .const value := by
  induction names generalizing values with
  | nil => simp [ScopeEntry.constants] at h
  | cons name names ih =>
    rcases List.mem_cons.mp h with rfl | h
    · exact ⟨_, rfl⟩
    · exact ih h

/-! ## Imports -/

theorem Imports.named_insert (imports : Imports) (spec : ImportSpec)
    (h : ∀ name, spec.enteredName = some name → imports.lookup name = none) :
    (imports.insert spec).named.map Prod.fst =
      imports.named.map Prod.fst ++ spec.enteredName.toList := by
  unfold Imports.insert Imports.add ImportSpec.enteredName
  by_cases hb : spec.givenName = some "_"
  · simp [hb]
  by_cases hd : spec.givenName = some "."
  · simp [hd]
  have hfree : imports.lookup (effectiveName spec.givenName (Text.StringLiteral.unquote spec.path))
      = none := h _ (by simp [ImportSpec.enteredName, hb, hd])
  simp [hb, hd, hfree]

theorem Imports.lookup_eq_none_iff {imports : Imports} {name : String} :
    imports.lookup name = none ↔ name ∉ imports.named.map Prod.fst := by
  simp only [lookup, List.lookup_eq_none_iff, List.mem_map, not_exists, not_and, bne_iff_ne]
  constructor
  · exact fun h e he heq => h e he heq.symm
  · exact fun h e he heq => h e he heq.symm

theorem ImportSpec.filterMap_enteredName_cons (spec : ImportSpec) (specs : List ImportSpec) :
    (spec :: specs).filterMap enteredName =
      spec.enteredName.toList ++ specs.filterMap enteredName := by
  cases hname : spec.enteredName <;> simp [hname]

/-- Of imports whose names are free and not repeated, the first finds its name free, and the others
do after it. -/
theorem Imports.free_of_nodup {spec : ImportSpec} {specs : List ImportSpec} {imports : Imports}
    (h : (imports.named.map Prod.fst ++
      (spec :: specs).filterMap ImportSpec.enteredName).Nodup) :
    (∀ name, spec.enteredName = some name → imports.lookup name = none) ∧
      ((imports.insert spec).named.map Prod.fst ++
        specs.filterMap ImportSpec.enteredName).Nodup := by
  rw [ImportSpec.filterMap_enteredName_cons, ← List.append_assoc] at h
  have hfree : ∀ name, spec.enteredName = some name → imports.lookup name = none := by
    intro name hn
    rw [lookup_eq_none_iff]
    intro htaken
    have hnd := (List.nodup_append.mp h).1
    rw [hn] at hnd
    exact (List.nodup_append.mp hnd).2.2 name htaken name (by simp) rfl
  exact ⟨hfree, by rwa [named_insert imports spec hfree]⟩

/-- Imports whose names are free and not repeated are all found under their names. -/
theorem Imports.named_foldl_insert {specs : List ImportSpec} {imports : Imports}
    (h : (imports.named.map Prod.fst ++ specs.filterMap ImportSpec.enteredName).Nodup) :
    (specs.foldl insert imports).named.map Prod.fst =
      imports.named.map Prod.fst ++ specs.filterMap ImportSpec.enteredName := by
  induction specs generalizing imports with
  | nil => simp
  | cons spec specs ih =>
    obtain ⟨hfree, hrest⟩ := free_of_nodup h
    rw [List.foldl_cons, ih hrest, named_insert imports spec hfree,
      ImportSpec.filterMap_enteredName_cons, List.append_assoc]

namespace FileScope

/-- An import is entered exactly when its name is free. -/
theorem addImport_eq_ok_iff {path : String} {scope result : FileScope} {spec : ImportSpec} :
    scope.addImport path spec = .ok result ↔
      (∀ name, spec.enteredName = some name → scope.imports.lookup name = none) ∧
        result = { scope with imports := scope.imports.insert spec } := by
  unfold addImport Imports.insert Imports.add ImportSpec.enteredName
  by_cases hb : spec.givenName = some "_"
  · simp [hb, eq_comm]
  by_cases hd : spec.givenName = some "."
  · simp [hd, eq_comm]
  cases hl : scope.imports.lookup
      (Imports.effectiveName spec.givenName (Text.StringLiteral.unquote spec.path)) with
  | none => simp [hb, hd, hl, eq_comm]
  | some entry => simp [hb, hd, hl]

/-! ## Names -/

theorem lookup_eq_none_iff {scope : FileScope} {name : String} :
    scope.lookup name = none ↔ name ∉ scope.entries.map Prod.fst := by
  simp only [lookup, List.lookup_eq_none_iff, List.mem_map, not_exists, not_and, bne_iff_ne]
  constructor
  · exact fun h e he heq => h e he heq.symm
  · exact fun h e he heq => h e he heq.symm

/-- Names are entered one after the other exactly when none of them is taken or repeated. -/
theorem foldlM_declare_eq_ok_iff {path : String} {names : List (Piece × ScopeEntry)}
    {scope result : FileScope} (hs : (scope.entries.map Prod.fst).Nodup) :
    names.foldlM (fun scope n => scope.declare path n.1 n.2) scope = .ok result ↔
      ((scope.entries ++ entered names).map Prod.fst).Nodup ∧
        result = { scope with entries := scope.entries ++ entered names } := by
  induction names generalizing scope with
  | nil => simp [entered, pure, Except.pure, hs, eq_comm]
  | cons n names ih =>
    simp only [List.foldlM_cons]
    by_cases hblank : introducesNothing n.1.text n.2 = true
    · have hd : scope.declare path n.1 n.2 = .ok scope := by simp [declare, hblank]
      have he : entered (n :: names) = entered names := by simp [entered, hblank]
      rw [hd, he]
      exact ih hs
    have he : entered (n :: names) = (n.1.text, n.2) :: entered names := by
      simp [entered, hblank]
    cases hl : scope.lookup n.1.text with
    | some old =>
      have hd : scope.declare path n.1 n.2
          = .error (.at path n.1.position (.redeclared n.1.text)) := by
        simp [declare, hblank, hl]
      have htaken : n.1.text ∈ scope.entries.map Prod.fst := by
        by_contra hfree
        rw [lookup_eq_none_iff.mpr hfree] at hl
        cases hl
      have hnot : ¬ ((scope.entries ++ entered (n :: names)).map Prod.fst).Nodup := by
        rw [he, List.map_append, List.map_cons]
        intro hnd
        exact (List.nodup_append.mp hnd).2.2 _ htaken _ List.mem_cons_self rfl
      rw [hd]
      constructor
      · intro h
        cases h
      · exact fun h => absurd h.1 hnot
    | none =>
      have hfree : n.1.text ∉ scope.entries.map Prod.fst := lookup_eq_none_iff.mp hl
      have hd : scope.declare path n.1 n.2
          = .ok { scope with entries := scope.entries ++ [(n.1.text, n.2)] } := by
        simp [declare, hblank, hl]
      have hs' : ((scope.entries ++ [(n.1.text, n.2)]).map Prod.fst).Nodup := by
        rw [List.map_append]
        exact hs.append (by simp) (by simpa using hfree)
      rw [hd, he]
      have hrest : names.foldlM (fun scope n => scope.declare path n.1 n.2)
          { scope with entries := scope.entries ++ [(n.1.text, n.2)] } = .ok result ↔ _ := ih hs'
      simpa [bind, Except.bind, List.append_assoc] using hrest

theorem declareConstants_eq_foldlM {path : String} (names : List Piece) (values : List Expr)
    (scope : FileScope) :
    declareConstants path scope names values =
      (ScopeEntry.constants names values).foldlM (fun scope n => scope.declare path n.1 n.2)
        scope := by
  induction names generalizing values scope with
  | nil => rfl
  | cons name names ih =>
    simp only [declareConstants, ScopeEntry.constants, List.foldlM_cons]
    exact bind_congr fun scope => ih values.tail scope

/-- A declaration other than an import enters its names. -/
theorem add_eq_foldlM {path : String} {scope : FileScope} {d : Declaration}
    (h : ∀ spec, d ≠ .imported spec) :
    scope.add path d = d.names.foldlM (fun scope n => scope.declare path n.1 n.2) scope := by
  cases d with
  | imported spec => exact absurd rfl (h spec)
  | type spec => simp [add, Declaration.names]
  | func decl => simp [add, Declaration.names]
  | method decl => rfl
  | value spec =>
    by_cases hc : spec.constant = true
    · simp [add, Declaration.names, hc, declareConstants_eq_foldlM]
    · simp [add, Declaration.names, hc, List.foldlM_map]

/-! ## The whole scope -/

/-- Everything that declarations introduce, in their order. -/
def introduced (ds : List Declaration) : List (String × ScopeEntry) :=
  ds.flatMap Declaration.introduced

/-- One declaration is entered exactly when its names, or the name of its import, are free. -/
theorem add_eq_ok_iff {path : String} {scope result : FileScope} {d : Declaration}
    (hi : (scope.imports.named.map Prod.fst).Nodup) (hs : (scope.entries.map Prod.fst).Nodup) :
    scope.add path d = .ok result ↔
      (scope.imports.named.map Prod.fst ++ Declaration.importedNames [d]).Nodup ∧
        ((scope.entries ++ d.introduced).map Prod.fst).Nodup ∧
        result = ⟨(Declaration.importSpecs [d]).foldl Imports.insert scope.imports,
          scope.entries ++ d.introduced⟩ := by
  by_cases h : ∃ spec, d = .imported spec
  · obtain ⟨spec, rfl⟩ := h
    have hintro : (Declaration.imported spec).introduced = [] := rfl
    have hnames : Declaration.importedNames [.imported spec] = spec.enteredName.toList := by
      cases hn : spec.enteredName <;>
        simp [Declaration.importedNames, Declaration.importSpecs, hn]
    have hfree : (scope.imports.named.map Prod.fst ++ spec.enteredName.toList).Nodup ↔
        ∀ name, spec.enteredName = some name → scope.imports.lookup name = none := by
      cases hn : spec.enteredName with
      | none => simp [hi]
      | some name =>
        simp only [Imports.lookup_eq_none_iff, Option.toList_some, Option.some.injEq, forall_eq']
        rw [List.nodup_append_comm, List.singleton_append, List.nodup_cons]
        exact and_iff_left hi
    show scope.addImport path spec = .ok result ↔ _
    rw [addImport_eq_ok_iff, hintro, hnames, hfree, List.append_nil]
    simp [hs, Declaration.importSpecs]
  · have hnot : ∀ spec, d ≠ .imported spec := fun spec he => h ⟨spec, he⟩
    have hspecs : Declaration.importSpecs [d] = [] := by
      cases d with
      | imported spec => exact absurd rfl (hnot spec)
      | _ => rfl
    rw [add_eq_foldlM hnot, foldlM_declare_eq_ok_iff hs]
    simp [Declaration.importedNames, hspecs, hi, Declaration.introduced]

/-- The scope of declarations that are entered after others. -/
theorem foldlM_add_eq_ok_iff {path : String} {ds : List Declaration} {scope result : FileScope}
    (hi : (scope.imports.named.map Prod.fst).Nodup) (hs : (scope.entries.map Prod.fst).Nodup) :
    ds.foldlM (fun scope d => scope.add path d) scope = .ok result ↔
      (scope.imports.named.map Prod.fst ++ Declaration.importedNames ds).Nodup ∧
        ((scope.entries ++ introduced ds).map Prod.fst).Nodup ∧
        result = ⟨(Declaration.importSpecs ds).foldl Imports.insert scope.imports,
          scope.entries ++ introduced ds⟩ := by
  induction ds generalizing scope with
  | nil =>
    simp [introduced, Declaration.importedNames, Declaration.importSpecs, pure, Except.pure, hi, hs,
      eq_comm]
  | cons d ds ih =>
    have hspecs : Declaration.importSpecs (d :: ds)
        = Declaration.importSpecs [d] ++ Declaration.importSpecs ds := by
      rw [Declaration.importSpecs, Declaration.importSpecs, Declaration.importSpecs,
        ← List.filterMap_append, List.singleton_append]
    have hnames : Declaration.importedNames (d :: ds)
        = Declaration.importedNames [d] ++ Declaration.importedNames ds := by
      simp only [Declaration.importedNames, hspecs, List.filterMap_append]
    have hintro : introduced (d :: ds) = d.introduced ++ introduced ds := by simp [introduced]
    rw [List.foldlM_cons, hspecs, hnames, hintro, List.foldl_append, ← List.append_assoc,
      ← List.append_assoc]
    rw [Except.bind_eq_ok_iff]
    have hmiddle := @Imports.named_foldl_insert (Declaration.importSpecs [d]) scope.imports
    constructor
    · rintro ⟨middle, hadd, hrest⟩
      obtain ⟨hi', hs', rfl⟩ := (add_eq_ok_iff hi hs).mp hadd
      rw [ih (by rw [hmiddle hi']; exact hi') hs', hmiddle hi'] at hrest
      exact hrest
    · rintro ⟨hi', hs', hresult⟩
      have hid : (scope.imports.named.map Prod.fst ++ Declaration.importedNames [d]).Nodup :=
        (List.nodup_append.mp hi').1
      have hsd : ((scope.entries ++ d.introduced).map Prod.fst).Nodup := by
        rw [List.map_append] at hs'
        exact (List.nodup_append.mp hs').1
      refine ⟨_, (add_eq_ok_iff hi hs).mpr ⟨hid, hsd, rfl⟩, ?_⟩
      rw [ih (by rw [hmiddle hid]; exact hid) hsd, hmiddle hid]
      exact ⟨hi', hs', hresult⟩

/-- A scope is collected exactly when no import and no name is repeated. -/
theorem ofDeclarations_eq_ok_iff {path : String} {ds : List Declaration} {scope : FileScope} :
    ofDeclarations path ds = .ok scope ↔
      (Declaration.importedNames ds).Nodup ∧ ((introduced ds).map Prod.fst).Nodup ∧
        scope = ⟨.ofDeclarations ds, introduced ds⟩ := by
  have h : ds.foldlM (fun scope d => scope.add path d) empty = .ok scope ↔ _ :=
    foldlM_add_eq_ok_iff (by simp [empty, Imports.empty]) (by simp [empty])
  simpa [empty, Imports.empty, Imports.ofDeclarations, ofDeclarations] using h

/-- In a collected scope a name stands for what the declaration says that introduces it. -/
theorem lookup_eq_some_iff {path : String} {ds : List Declaration} {scope : FileScope}
    (h : ofDeclarations path ds = .ok scope) {name : String} {entry : ScopeEntry} :
    scope.lookup name = some entry ↔ (name, entry) ∈ introduced ds := by
  obtain ⟨-, hnd, rfl⟩ := ofDeclarations_eq_ok_iff.mp h
  exact lookup_eq_some_iff_mem hnd

/-- What a declaration of types introduces is its name. -/
theorem mem_introduced_type {ds : List Declaration} {name : String} {spec : TypeSpec} :
    (name, .type spec) ∈ introduced ds ↔
      .type spec ∈ ds ∧ spec.name.text = name ∧ name ≠ "_" := by
  have hone : ∀ d : Declaration, (name, .type spec) ∈ d.introduced ↔
      d = .type spec ∧ spec.name.text = name ∧ name ≠ "_" := by
    intro d
    simp only [Declaration.introduced, entered, List.mem_map, List.mem_filter]
    constructor
    · rintro ⟨⟨piece, entry⟩, ⟨hmem, hname⟩, hentry⟩
      obtain ⟨rfl, rfl⟩ := Prod.mk.injEq .. ▸ hentry
      cases d with
      | type spec' =>
        obtain ⟨rfl, rfl⟩ : piece = spec'.name ∧ spec = spec' := by
          simpa [Declaration.names] using hmem
        exact ⟨rfl, rfl, by simpa [introducesNothing] using hname⟩
      | value spec' =>
        rw [Declaration.names] at hmem
        split at hmem
        · obtain ⟨_, hconst⟩ := ScopeEntry.eq_const_of_mem_constants hmem
          cases hconst
        · simp at hmem
      | _ => simp [Declaration.names] at hmem
    · rintro ⟨rfl, rfl, hblank⟩
      exact ⟨(spec.name, .type spec), ⟨by simp [Declaration.names],
        by simpa [introducesNothing] using hblank⟩, rfl⟩
  simp only [introduced, List.mem_flatMap, hone]
  constructor
  · rintro ⟨d, hd, rfl, h⟩
    exact ⟨hd, h⟩
  · exact fun ⟨hd, h⟩ => ⟨_, hd, rfl, h⟩

/-- A collected scope has the types under the names that are declared. -/
theorem lookup_eq_type_iff {path : String} {ds : List Declaration} {scope : FileScope}
    (h : ofDeclarations path ds = .ok scope) {name : String} {spec : TypeSpec} :
    scope.lookup name = some (.type spec) ↔
      .type spec ∈ ds ∧ spec.name.text = name ∧ name ≠ "_" := by
  rw [lookup_eq_some_iff h, mem_introduced_type]

/-! ## Why a scope is refused -/

theorem cause_of_declare_error {path : String} {scope : FileScope} {name : Piece}
    {entry : ScopeEntry} {e : ResolveError} (h : scope.declare path name entry = .error e) :
    e.cause = .redeclared name.text := by
  unfold declare at h
  split at h
  · cases h
  · split at h
    · cases h
      rfl
    · cases h

/-- A scope is refused only because a name is taken. -/
theorem cause_of_ofDeclarations_error {path : String} {ds : List Declaration}
    {e : ResolveError} (h : ofDeclarations path ds = .error e) :
    ∃ name, e.cause = .redeclared name := by
  refine foldlM_error (P := fun e => ∃ name, e.cause = .redeclared name) ?_ ds empty e h
  intro scope d e hadd
  by_cases himport : ∃ spec, d = .imported spec
  · obtain ⟨spec, rfl⟩ := himport
    change scope.addImport path spec = .error e at hadd
    unfold addImport at hadd
    dsimp only at hadd
    split at hadd
    · cases hadd
      exact ⟨_, rfl⟩
    · cases hadd
  · rw [add_eq_foldlM fun spec he => himport ⟨spec, he⟩] at hadd
    exact foldlM_error (P := fun e => ∃ name, e.cause = .redeclared name)
      (fun _ _ _ hd => ⟨_, cause_of_declare_error hd⟩) _ _ _ hadd

end FileScope

end GoSignatures

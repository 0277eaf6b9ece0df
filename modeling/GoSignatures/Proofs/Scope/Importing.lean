import GoSignatures.Proofs.Scope.Collecting

/-!
# Imports one by one

Imports are entered one after the other. Where no name is repeated, what they come to can be read
off each import by itself, so that qualifiers refer to the same packages in whatever order the
imports are written. The paths of dot imports are kept in order, and only the first is looked into.

* `Imports.namedPaths_ofDeclarations`, `Imports.dots_ofDeclarations` — what imports come to
* `Imports.lookup_ofDeclarations_of_perm` — qualifiers do not depend on the order
* `Imports.dotImport?_isSome_of_perm`, `Imports.dotImport?_of_perm` — what dot imports keep
-/

namespace GoSignatures

namespace ImportSpec

/-- An import without its place. -/
def content (spec : ImportSpec) : Option String × String :=
  (spec.givenName, spec.path)

/-- The name of an import and its path, if it is neither blank nor a dot. -/
def named? (content : Option String × String) : Option (String × String) :=
  if content.1 = some "_" ∨ content.1 = some "." then none
  else
    let path := Text.StringLiteral.unquote content.2
    some (Imports.effectiveName content.1 path, path)

/-- The path of a dot import. -/
def dot? (content : Option String × String) : Option String :=
  if content.1 = some "." then some (Text.StringLiteral.unquote content.2) else none

theorem enteredName_eq (spec : ImportSpec) :
    spec.enteredName = (named? spec.content).map Prod.fst := by
  unfold enteredName named? content
  split <;> rfl

end ImportSpec

/-- The imports among declarations, without their places. -/
def Declaration.imports (ds : List Declaration) : List (Option String × String) :=
  (importSpecs ds).map ImportSpec.content

theorem Declaration.importedNames_eq (ds : List Declaration) :
    importedNames ds = ((imports ds).filterMap ImportSpec.named?).map Prod.fst := by
  rw [importedNames, imports, List.map_filterMap, List.filterMap_map]
  exact congrArg (List.filterMap · _) (funext ImportSpec.enteredName_eq)

/-- The names of imports are repeated in one order if they are in another. -/
theorem Declaration.nodup_importedNames_of_perm {ds ds' : List Declaration}
    (h : (imports ds).Perm (imports ds')) :
    (importedNames ds).Nodup ↔ (importedNames ds').Nodup := by
  rw [importedNames_eq, importedNames_eq]
  exact ((h.filterMap ImportSpec.named?).map Prod.fst).nodup_iff

namespace Imports

/-! ## Entering imports -/

/-- The names of imports with their paths. -/
def namedPaths (imports : Imports) : List (String × String) :=
  imports.named.map fun e => (e.1, e.2.path)

theorem lookup_namedPaths (imports : Imports) (name : String) :
    imports.namedPaths.lookup name = (imports.lookup name).map ImportEntry.path := by
  rw [lookup, namedPaths]
  induction imports.named with
  | nil => rfl
  | cons e named ih =>
    rw [List.map_cons, List.lookup_cons, List.lookup_cons, ih]
    cases name == e.1 <;> rfl

theorem dots_insert (imports : Imports) (spec : ImportSpec) :
    (imports.insert spec).dots = imports.dots ++ (ImportSpec.dot? spec.content).toList := by
  unfold insert add ImportSpec.dot? ImportSpec.content
  by_cases hblank : spec.givenName = some "_"
  · simp [hblank]
  by_cases hdot : spec.givenName = some "."
  · simp [hdot]
  · simp only [hblank, hdot, if_false]
    split <;> simp

theorem namedPaths_insert (imports : Imports) (spec : ImportSpec)
    (h : ∀ name, spec.enteredName = some name → imports.lookup name = none) :
    (imports.insert spec).namedPaths =
      imports.namedPaths ++ (ImportSpec.named? spec.content).toList := by
  unfold insert add ImportSpec.named? ImportSpec.content
  by_cases hblank : spec.givenName = some "_"
  · simp [hblank]
  by_cases hdot : spec.givenName = some "."
  · simp [hdot, namedPaths]
  have hfree : imports.lookup
      (effectiveName spec.givenName (Text.StringLiteral.unquote spec.path)) = none :=
    h _ (by simp [ImportSpec.enteredName, hblank, hdot])
  simp [hblank, hdot, hfree, namedPaths]

theorem dots_foldl_insert (specs : List ImportSpec) (imports : Imports) :
    (specs.foldl insert imports).dots =
      imports.dots ++ (specs.map ImportSpec.content).filterMap ImportSpec.dot? := by
  induction specs generalizing imports with
  | nil => simp
  | cons spec specs ih =>
    rw [List.foldl_cons, ih, dots_insert, List.map_cons]
    cases hdot : ImportSpec.dot? spec.content <;> simp [hdot]

/-- Imports whose names are free and not repeated are all entered, each as it is written. -/
theorem namedPaths_foldl_insert {specs : List ImportSpec} {imports : Imports}
    (h : (imports.named.map Prod.fst ++ specs.filterMap ImportSpec.enteredName).Nodup) :
    (specs.foldl insert imports).namedPaths =
      imports.namedPaths ++ (specs.map ImportSpec.content).filterMap ImportSpec.named? := by
  induction specs generalizing imports with
  | nil => simp
  | cons spec specs ih =>
    obtain ⟨hfree, hrest⟩ := free_of_nodup h
    rw [List.foldl_cons, ih hrest, namedPaths_insert imports spec hfree, List.map_cons]
    cases hn : ImportSpec.named? spec.content <;> simp [hn]

theorem dots_ofDeclarations (ds : List Declaration) :
    (ofDeclarations ds).dots = (Declaration.imports ds).filterMap ImportSpec.dot? :=
  dots_foldl_insert (Declaration.importSpecs ds) empty

theorem namedPaths_ofDeclarations {ds : List Declaration}
    (h : (Declaration.importedNames ds).Nodup) :
    (ofDeclarations ds).namedPaths = (Declaration.imports ds).filterMap ImportSpec.named? :=
  @namedPaths_foldl_insert (Declaration.importSpecs ds) empty h

/-! ## Imports in another order -/

section

variable {ds ds' : List Declaration}
  (hperm : (Declaration.imports ds).Perm (Declaration.imports ds'))
include hperm

/-- Imports without repeated names are found alike in any order. -/
theorem lookup_ofDeclarations_of_perm (hnodup : (Declaration.importedNames ds).Nodup)
    (name : String) : ((ofDeclarations ds).lookup name).map ImportEntry.path =
      ((ofDeclarations ds').lookup name).map ImportEntry.path := by
  have hnodup' := (Declaration.nodup_importedNames_of_perm hperm).mp hnodup
  rw [← lookup_namedPaths, ← lookup_namedPaths, namedPaths_ofDeclarations hnodup,
    namedPaths_ofDeclarations hnodup']
  refine Option.ext fun path => ?_
  rw [Declaration.importedNames_eq] at hnodup hnodup'
  rw [lookup_eq_some_iff_mem hnodup, lookup_eq_some_iff_mem hnodup']
  exact (hperm.filterMap ImportSpec.named?).mem_iff

/-- Whether there is a dot import does not depend on the order. -/
theorem dotImport?_isSome_of_perm :
    (ofDeclarations ds).dotImport?.isSome = (ofDeclarations ds').dotImport?.isSome := by
  have hdots := hperm.filterMap ImportSpec.dot?
  rw [dotImport?, dotImport?, dots_ofDeclarations, dots_ofDeclarations, Bool.eq_iff_iff,
    List.isSome_head?, List.isSome_head?, ← List.length_pos_iff, hdots.length_eq,
    List.length_pos_iff]

/-- Where all dot imports are of one package, that is the first in every order. -/
theorem dotImport?_of_perm
    (hsame : ∀ path ∈ (Declaration.imports ds).filterMap ImportSpec.dot?,
      ∀ path' ∈ (Declaration.imports ds).filterMap ImportSpec.dot?, path = path') :
    (ofDeclarations ds).dotImport? = (ofDeclarations ds').dotImport? := by
  have hdots := hperm.filterMap ImportSpec.dot?
  rw [dotImport?, dotImport?, dots_ofDeclarations, dots_ofDeclarations]
  generalize (Declaration.imports ds).filterMap ImportSpec.dot? = dots,
    (Declaration.imports ds').filterMap ImportSpec.dot? = dots' at hdots hsame
  cases dots with
  | nil => rw [hdots.nil_eq]
  | cons path dots =>
    cases dots' with
    | nil => cases hdots.eq_nil
    | cons path' dots' =>
      have hpath : path' ∈ path :: dots := hdots.mem_iff.mpr List.mem_cons_self
      exact congrArg some (hsame path List.mem_cons_self path' hpath)

end

end Imports

end GoSignatures

import GoSignatures.Proofs.Recursion.Framing
import GoSignatures.Proofs.Resolution.Comparing

/-!
# The order of imports

The imports of a file may be written in another order. Qualifiers refer to the same packages then,
and an unqualified name that is declared nowhere still comes from a dot import, but from the one
that is written first. So whether the file is accepted does not depend on the order; the reports do
not either, as long as the dot imports that come first know the same of the names that are used.

* `SourceFile.Reimported.told_frames` — whether a file is accepted does not depend on the order
* `SourceFile.Reimported.readsDotsAlike_of_single` — nothing does where one package is dot imported
* `SourceFile.Reimported.outcome` — the same errors, and the same reports
-/

namespace GoSignatures

/-- Nothing of an imported type is in its frame. -/
theorem Env.frame_importedType (env : Env) (path name : String) :
    (env.importedType path name).frame = .invalid := by
  unfold Env.importedType
  split
  · rfl
  · rcases Ty.frame_imported path name _ with hframe | ⟨type, htype, hknown, -⟩
    · exact hframe
    · rcases Env.known_kindType? _ type htype with ⟨kind, rfl⟩ | rfl <;> cases hknown

namespace SourceFile

namespace Reimported

variable {file file' : SourceFile} (h : file.Reimported file')
include h

/-- Both files are refused, with errors of one kind, or accepted. -/
theorem told_frames (config : Config) :
    Except.told (ResolvedFile.view Ty.frame) (file.resolve config) =
      Except.told (ResolvedFile.view Ty.frame) (file'.resolve config) := by
  -- Nothing of an imported type is in its frame, so it is enough that both files have dot imports.
  have hframe : ∀ (env : Env) (name : String), (env.dotType? name).map Ty.frame =
      env.scope.imports.dotImport?.map fun _ => Ty.invalid := by
    intro env name
    rw [Env.dotType?, Option.map_map]
    exact congrArg (Option.map · _) (funext fun path => env.frame_importedType path name)
  have hsome : (file.env config).scope.imports.dotImport?.isSome =
      (file'.env config).scope.imports.dotImport?.isSome :=
    Imports.dotImport?_isSome_of_perm h.imports
  refine h.told_resolve Ty.view_frame (UsesOnly.all file) fun name _ _ => ?_
  rw [hframe, hframe]
  cases hleft : (file.env config).scope.imports.dotImport? <;>
    cases hright : (file'.env config).scope.imports.dotImport? <;>
    simp_all

/-- Where all dot imports are of one package, their order does not matter. -/
theorem readsDotsAlike_of_single
    (hsingle : ∀ path ∈ (Declaration.imports file.declarations).filterMap ImportSpec.dot?,
      ∀ path' ∈ (Declaration.imports file.declarations).filterMap ImportSpec.dot?, path = path')
    (config : Config) : file.ReadsDotsAlike file' config := by
  have hfirst : (file.env config).scope.imports.dotImport? =
      (file'.env config).scope.imports.dotImport? :=
    Imports.dotImport?_of_perm h.imports hsingle
  exact readsDotsAlike_of_first hfirst

/-- Files with their imports in another order are both refused, with errors of one kind, or both
accepted. All reports on them are the same then, if the dot imports that are first know the same of
the names that are used. -/
theorem outcome (config : Config) :
    (∃ e e', file.resolve config = .error e ∧ file'.resolve config = .error e' ∧
      e.cause.ctorIdx = e'.cause.ctorIdx) ∨
    ∃ result result', file.resolve config = .ok result ∧ file'.resolve config = .ok result' ∧
      (file.ReadsDotsAlike file' config → ∀ path requested,
        (result.report path requested).withoutPositions =
          (result'.report path requested).withoutPositions) := by
  rcases Except.of_told_eq_told (h.told_frames config) with
    herror | ⟨result, result', hok, hok', -⟩
  · exact .inl herror
  · exact .inr ⟨result, result', hok, hok',
      fun hreads => (h.matches_of_resolve hreads hok hok').report⟩

end Reimported

/-- A file with imports of all kinds, among them one dot import. -/
def importsText : String :=
  "package a\nimport \"fmt\"\nimport . \"time\"\nimport _ \"embed\"\nimport s \"sort\"\n" ++
    "func F(d Duration, i s.Interface) (fmt.Stringer, error) \x7b return nil, nil \x7d\n"

/-- The same file with its imports in a group, in another order. -/
def regroupedText : String :=
  "package a\nimport (\n\ts \"sort\"\n\t_ \"embed\"\n\t. \"time\"\n\t\"fmt\"\n)\n\n" ++
    "func F(d Duration, i s.Interface) (fmt.Stringer, error) \x7b return nil, nil \x7d\n"

/-- Imports that are regrouped move the functions, and the report stays. -/
theorem Reimported.outcome_ofTexts :
    ∃ file file', read "a.go" importsText = .ok file ∧ read "a.go" regroupedText = .ok file' ∧
      file.Reimported file' ∧ file.functionPlaces ≠ file'.functionPlaces ∧
      ∃ result result', file.resolve {} = .ok result ∧ file'.resolve {} = .ok result' ∧
        (result.report "a.go" ["F"]).withoutPositions =
          (result'.report "a.go" ["F"]).withoutPositions := by
  have hread : ((read "a.go" importsText).toOption.bind fun file =>
      (read "a.go" regroupedText).toOption.map fun file' =>
        decide (file.Reimported file' ∧ file.functionPlaces ≠ file'.functionPlaces ∧
          (∀ path ∈ (Declaration.imports file.declarations).filterMap ImportSpec.dot?,
            ∀ path' ∈ (Declaration.imports file.declarations).filterMap ImportSpec.dot?,
              path = path') ∧
          (file.resolve {}).toOption.isSome = true)) = some true := by decide +kernel
  obtain ⟨file, hfile, hread⟩ := Option.bind_eq_some_iff.mp hread
  obtain ⟨file', hfile', hread⟩ := Option.map_eq_some_iff.mp hread
  obtain ⟨hreimported, hplaces, hsingle, hok⟩ := of_decide_eq_true hread
  obtain ⟨result, hresult⟩ := Option.isSome_iff_exists.mp hok
  rw [Except.toOption_eq_some_iff] at hfile hfile' hresult
  refine ⟨file, file', hfile, hfile', hreimported, hplaces, ?_⟩
  rcases outcome hreimported {} with ⟨e, -, herror, -⟩ | ⟨result, result', hleft, hright, hreports⟩
  · rw [hresult] at herror
    cases herror
  · exact ⟨result, result', hleft, hright,
      hreports (hreimported.readsDotsAlike_of_single hsingle {}) "a.go" ["F"]⟩

/-- A file with two dot imports. One name comes from each, and that from the second is known. -/
def unknownFirstText : String :=
  "package a\nimport . \"fmt\"\nimport . \"time\"\n" ++
    "type S Stringer\nfunc F(d Duration) \x7b \x7d\n"

/-- The same file with its imports the other way round. -/
def knownFirstText : String :=
  "package a\nimport . \"time\"\nimport . \"fmt\"\n" ++
    "type S Stringer\nfunc F(d Duration) \x7b \x7d\n"

/-- The order of two dot imports decides whether a function is told as supported. -/
theorem exists_reimported_report_ne :
    ∃ file file', read "a.go" unknownFirstText = .ok file ∧
      read "a.go" knownFirstText = .ok file' ∧ file.Reimported file' ∧
      ∃ result result', file.resolve {} = .ok result ∧ file'.resolve {} = .ok result' ∧
        (result.report "a.go" []).withoutPositions ≠
          (result'.report "a.go" []).withoutPositions := by
  have hread : ((read "a.go" unknownFirstText).toOption.bind fun file =>
      (read "a.go" knownFirstText).toOption.bind fun file' =>
      (file.resolve {}).toOption.bind fun result =>
      (file'.resolve {}).toOption.map fun result' =>
        decide (file.Reimported file' ∧
          (result.report "a.go" []).notSupportedFunctionsNames ≠
            (result'.report "a.go" []).notSupportedFunctionsNames)) = some true := by decide +kernel
  obtain ⟨file, hfile, hread⟩ := Option.bind_eq_some_iff.mp hread
  obtain ⟨file', hfile', hread⟩ := Option.bind_eq_some_iff.mp hread
  obtain ⟨result, hresult, hread⟩ := Option.bind_eq_some_iff.mp hread
  obtain ⟨result', hresult', hread⟩ := Option.map_eq_some_iff.mp hread
  obtain ⟨hreimported, hreports⟩ := of_decide_eq_true hread
  rw [Except.toOption_eq_some_iff] at hfile hfile' hresult hresult'
  refine ⟨file, file', hfile, hfile', hreimported, result, result', hresult, hresult', ?_⟩
  intro hsame
  refine hreports ?_
  show (result.report "a.go" []).withoutPositions.notSupportedFunctionsNames =
    (result'.report "a.go" []).withoutPositions.notSupportedFunctionsNames
  rw [hsame]

end SourceFile

end GoSignatures

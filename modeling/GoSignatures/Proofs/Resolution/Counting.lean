import GoSignatures.Proofs.Resolution.Instances
import GoSignatures.Proofs.Resolution.Referring

/-!
# Counting type arguments

The references of a file and the instances that are written in it are to have as many arguments as
there are type parameters. Two things stand against it: a generic type that is reached from its own
constraints may be referred to without arguments, and another name for a type takes any arguments.

* `ResolvedFile.CountsReferences`, `SourceFile.CountsInstances` — references and instances have the
  right numbers of arguments
* `SourceFile.countsArguments_iff` — when both have
* `SourceFile.countsArguments_of_plain` — both have in a file where neither thing occurs
-/

namespace GoSignatures

/-! ## The property -/

/-- Every reference has as many arguments as the declared type has type parameters. -/
def ResolvedFile.CountsReferences (file : ResolvedFile) : Prop :=
  ∀ r ∈ file.references, r.2 = (file.table.typeParams r.1).length

namespace SourceFile

variable {file : SourceFile} {config : Config} {result : ResolvedFile}

/-- Every instance that is written has as many arguments as its name declares type parameters. -/
def CountsInstances (file : SourceFile) : Prop :=
  ∀ scope, FileScope.ofDeclarations file.path file.declarations = .ok scope →
    ∀ d ∈ file.declarations, ∀ u ∈ d.uses, u.2 ≠ 0 → u.2 = scope.arityUnder d.params u.1

theorem exists_scope_of_resolve (h : file.resolve config = .ok result) :
    ∃ scope, FileScope.ofDeclarations file.path file.declarations = .ok scope := by
  obtain ⟨scope, hscope, -⟩ := Except.bind_eq_ok_iff.mp h
  exact ⟨scope, hscope⟩

/-- In a file that is accepted, references and instances have the right numbers of arguments. -/
def CountsArguments (file : SourceFile) (config : Config) : Prop :=
  ∀ result, file.resolve config = .ok result → result.CountsReferences ∧ file.CountsInstances

/-! ## The exact condition -/

/-- References and instances have the right numbers of arguments exactly if no generic type that is
reached from its own constraints is referred to without arguments, and the instances of other names
for types, and those in declarations whose type parameters are passed over, are right. -/
theorem countsArguments_iff (file : SourceFile) (config : Config) :
    file.CountsArguments config ↔ ∀ result, file.resolve config = .ok result →
      ∀ scope, FileScope.ofDeclarations file.path file.declarations = .ok scope →
        (∀ id name, result.table.label? id = some (file.packageName, name) →
          scope.ReachesSelf name → (id, 0) ∈ result.references →
            result.table.typeParams id = []) ∧
        ∀ d ∈ file.declarations, ∀ u ∈ d.uses, u.2 ≠ 0 →
          scope.isAlias u.1 = true ∨ d.ignoresParams = true →
            u.2 = scope.arityUnder d.params u.1 := by
  constructor
  · intro h result hresolve scope hscope
    obtain ⟨hreferences, hinstances⟩ := h result hresolve
    refine ⟨fun id name _ _ hr => ?_, fun d hd u hu hcount _ =>
      hinstances scope hscope d hd u hu hcount⟩
    exact List.length_eq_zero_iff.mp (hreferences (id, 0) hr).symm
  · intro h result hresolve
    refine ⟨fun r hr => ?_, fun scope hscope d hd u hu hcount => ?_⟩
    · obtain ⟨scope, hscope⟩ := exists_scope_of_resolve hresolve
      rcases references_of_resolve hresolve hscope r hr with hequal | ⟨hzero, name, hlabel, hself⟩
      · exact hequal
      · obtain ⟨id, count⟩ := r
        subst hzero
        rw [(h result hresolve scope hscope).1 id name hlabel hself hr, List.length_nil]
    · by_cases hexempt : scope.isAlias u.1 = true ∨ d.ignoresParams = true
      · exact (h result hresolve scope hscope).2 d hd u hu hcount hexempt
      · simp only [not_or, Bool.not_eq_true] at hexempt
        exact matches_of_resolve hresolve hscope hd hexempt.2 u hu hcount hexempt.1

/-- References and instances have the right numbers of arguments if no generic type is reached from
its own constraints, no other name for a type is instantiated, and no type parameters are passed
over. -/
theorem countsArguments_of_plain
    (hself : ∀ scope, FileScope.ofDeclarations file.path file.declarations = .ok scope →
      ∀ name, ¬ scope.ReachesSelf name)
    (halias : ∀ scope, FileScope.ofDeclarations file.path file.declarations = .ok scope →
      ∀ d ∈ file.declarations, ∀ u ∈ d.uses, u.2 ≠ 0 → scope.isAlias u.1 = false)
    (hparams : ∀ d ∈ file.declarations, d.ignoresParams = false) :
    file.CountsArguments config := by
  refine (countsArguments_iff file config).mpr fun result _ scope hscope => ⟨?_, ?_⟩
  · exact fun id name _ hreaches _ => absurd hreaches (hself scope hscope name)
  · rintro d hd u hu hcount (hexempt | hexempt)
    · rw [halias scope hscope d hd u hu hcount] at hexempt
      cases hexempt
    · rw [hparams d hd] at hexempt
      cases hexempt

/-! ## A generic type in its own constraint, and an instance of another name for a type -/

/-- The file `type A[T interface{ m(A) }] struct{}`. -/
def ofOwnConstraint : SourceFile where
  path := "a.go"
  packageName := "p"
  declarations :=
    [.type ⟨⟨"A", ⟨16, 3, 6⟩⟩, false,
      [⟨["T"], [.interface [.method ⟨"m", ⟨31, 3, 21⟩⟩
        ⟨[⟨[], .named (.plain ⟨"A", ⟨33, 3, 23⟩⟩) [], false⟩], .list []⟩]]⟩],
      .struct []⟩]

/-- The method `m` refers to `A` without arguments, and the file is accepted. -/
theorem not_countsArguments_ofOwnConstraint :
    ¬ ofOwnConstraint.CountsArguments {} ∧
      ∃ result, ofOwnConstraint.resolve {} = .ok result ∧ (2, 0) ∈ result.references ∧
        (result.table.typeParams 2).map TypeParam.name = ["T"] := by
  have hresolves : (ofOwnConstraint.resolve {}).toOption.map (fun result =>
      (result.references, (result.table.typeParams 2).map TypeParam.name)) =
        some ([(2, 0), (2, 0)], ["T"]) := by
    decide +kernel
  obtain ⟨result, hresolve, hresult⟩ := Option.map_eq_some_iff.mp hresolves
  obtain ⟨hreferences, hparams⟩ := Prod.mk.injEq .. ▸ hresult
  rw [Except.toOption_eq_some_iff] at hresolve
  have hmem : (2, 0) ∈ result.references := by simp [hreferences]
  refine ⟨fun h => ?_, result, hresolve, hmem, hparams⟩
  have hlength : 0 = (result.table.typeParams 2).length := (h result hresolve).1 _ hmem
  rw [← List.length_map, hparams] at hlength
  cases hlength

/-- The file `type A = int; type T struct { x A[string] }`. -/
def ofInstantiatedAlias : SourceFile where
  path := "a.go"
  packageName := "p"
  declarations :=
    [.type ⟨⟨"A", ⟨16, 3, 6⟩⟩, true, [], .named (.plain ⟨"int", ⟨20, 3, 10⟩⟩) []⟩,
      .type ⟨⟨"T", ⟨30, 5, 6⟩⟩, false, [], .struct
        [.named ["x"] (.named (.plain ⟨"A", ⟨43, 5, 19⟩⟩)
          [⟨"string", [.named (.plain ⟨"string", ⟨45, 5, 21⟩⟩) []]⟩]) none]⟩]

/-- The name `A` declares no type parameters, and the file with `A[string]` is accepted. -/
theorem not_countsArguments_ofInstantiatedAlias :
    ¬ ofInstantiatedAlias.CountsArguments {} ∧
      ∃ result, ofInstantiatedAlias.resolve {} = .ok result ∧
        result.table.underlying? 2 = some (.struct [⟨"x", .basic .int, false, none⟩]) := by
  have hresolves : (ofInstantiatedAlias.resolve {}).toOption.map (fun result =>
      result.table.underlying? 2) = some (some (.struct [⟨"x", .basic .int, false, none⟩])) := by
    decide +kernel
  have hscopes : (FileScope.ofDeclarations "a.go" ofInstantiatedAlias.declarations).toOption.map
      (fun scope => scope.arityUnder [] "A") = some 0 := by
    decide +kernel
  obtain ⟨result, hresolve, hresult⟩ := Option.map_eq_some_iff.mp hresolves
  obtain ⟨scope, hscope, harity⟩ := Option.map_eq_some_iff.mp hscopes
  rw [Except.toOption_eq_some_iff] at hresolve hscope
  refine ⟨fun h => ?_, result, hresolve, hresult⟩
  have huse : 1 = scope.arityUnder [] "A" := (h result hresolve).2 scope hscope _
    (List.mem_cons_of_mem _ List.mem_cons_self) ("A", 1) (by decide) (by decide)
  rw [harity] at huse
  cases huse

end SourceFile

end GoSignatures

import GoSignatures.Proofs.Recursion.ByValue
import GoSignatures.Proofs.Resolution.Functions
import GoSignatures.Ty.Equality

/-!
# Detecting recursive types

A file in which a type contains itself by value is to be refused. The check searches for such a
type, and the search opens each declared type only for the arguments under which it meets it first.
So the check is exact where this loses nothing, in particular where no type is held under different
arguments.

* `SourceFile.DetectsRecursion` — the check refuses exactly the files with a type that holds itself
* `SourceFile.detectsRecursion_iff` — when it does
* `SourceFile.detectsRecursion_of_uniform` — it does so if types are held under one list of
  arguments each
-/

namespace GoSignatures

open Resolve

variable {env : Env} {p q : Progress}

/-! ## Types without parts -/

theorem Table.not_holds_nil {t : Table} {P : Ty.Instance → Prop} {part : Ty.Instance} :
    ¬ t.HoldsThrough P [] part := by
  intro h
  cases h with
  | direct h => cases h
  | inside h => cases h

/-- Only types of the file hold themselves. -/
theorem Env.Consistent.entered_of_holdsItself (h : env.Consistent [] [] p) {t : Table}
    (ht : p.table.Settles t p.pending []) {id : Nat} (hid : t.HoldsItself id) :
    ∃ e ∈ p.entered, e.id = id := by
  obtain ⟨args, hargs⟩ := hid
  by_cases hsize : p.table.size ≤ id
  · rw [← ht.size] at hsize
    have hinner : t.inner (id, []) = [] := Table.inner_eq_nil hsize
    rw [hinner] at hargs
    exact absurd hargs Table.not_holds_nil
  · refine h.exists_entered (Nat.lt_of_not_le fun hle => ?_) (Nat.lt_of_not_le hsize)
    obtain ⟨iface, hiface⟩ := h.underlying?_predeclared hle
    have hinner : t.inner (id, []) = [] := by
      simp [Table.inner, Table.underlying, Table.instance?, ht.known id _ hiface, Ty.components]
    rw [hinner] at hargs
    exact Table.not_holds_nil hargs

/-! ## The check -/

/-- The check refuses a type exactly if the search finds one. -/
theorem Env.checkContainment_eq_error_iff :
    (∃ error name, env.checkContainment.run p = .error error ∧
        error.cause = .invalidRecursiveType name) ↔
      ∃ e ∈ p.entered, p.table.containsItself e.id = true := by
  constructor
  · rintro ⟨error, name, herror, -⟩
    by_contra hnone
    have hok : env.checkContainment p = .ok ((), p) :=
      Env.checkContainment_eq_ok fun e he => Bool.eq_false_iff.mpr fun h => hnone ⟨e, he, h⟩
    cases herror.symm.trans hok
  · rintro ⟨e, he, h⟩
    obtain ⟨e', -, -, hfails⟩ := env.checkContainment_eq_failRecursive he h
    obtain ⟨error, name, herror, hcause⟩ := env.failRecursive_eq e'.id
    exact ⟨error, name, hfails.trans herror, hcause⟩

namespace SourceFile

/-- A file whose declarations resolve otherwise is refused exactly if a type of it contains itself
by value, and so in a file that is accepted none does. -/
structure DetectsRecursion (file : SourceFile) (config : Config) : Prop where
  refused_iff : ∀ env p, file.settleTypes config = .ok (env, p) →
    ((∃ error name, env.checkContainment.run p = .error error ∧
        error.cause = .invalidRecursiveType name) ↔
      ∃ e ∈ p.entered, p.table.HoldsItself e.id)
  accepted : ∀ result, file.resolve config = .ok result → ∀ id, ¬ result.table.HoldsItself id

variable {file : SourceFile} {config : Config}

/-- The check is exact as soon as what holds itself is found. -/
theorem detectsRecursion_of_found
    (h : ∀ env p, file.settleTypes config = .ok (env, p) →
      (∃ e ∈ p.entered, p.table.HoldsItself e.id) →
        ∃ e ∈ p.entered, p.table.containsItself e.id = true) : file.DetectsRecursion config where
  refused_iff env p hsettle := by
    rw [Env.checkContainment_eq_error_iff]
    refine ⟨fun ⟨e, he, hfound⟩ => ⟨e, he, Table.holdsItself_of_containsItself hfound⟩,
      h env p hsettle⟩
  accepted result hresolve id hid := by
    obtain ⟨env, p, -, -, hsettle, hcontained, -, -, -, htable, -⟩ := resolve_ok hresolve
    obtain ⟨p₀, henter, hsettles, hp⟩ := settleTypes_ok hsettle
    rw [htable] at hid
    obtain ⟨e, he, rfl⟩ := (enterTypes_ok henter).consistent.entered_of_holdsItself hsettles hid
    have he : e ∈ p.entered := by
      rw [hp]
      exact he
    obtain ⟨e', he', hfound⟩ := h env p hsettle ⟨e, he, hid⟩
    rw [hcontained e' he'] at hfound
    cases hfound

/-- The check is exact if and only if, where a type contains itself by value, one does so through
instances that are each the first of their type to be met. -/
theorem detectsRecursion_iff (file : SourceFile) (config : Config) :
    file.DetectsRecursion config ↔
      ∀ env p, file.settleTypes config = .ok (env, p) →
        (∃ e ∈ p.entered, p.table.HoldsItself e.id) →
          ∃ e ∈ p.entered, ∃ args, p.table.HoldsThrough (· ∈ p.table.firstMet e.id)
            (p.table.inner (e.id, [])) (e.id, args) := by
  simp only [← Table.containsItself_iff]
  constructor
  · intro h env p hsettle hholds
    rw [← h.refused_iff env p hsettle, Env.checkContainment_eq_error_iff] at hholds
    exact hholds
  · exact detectsRecursion_of_found

/-- The check is exact where no type is held under different arguments. -/
theorem detectsRecursion_of_uniform
    (h : ∀ env p, file.settleTypes config = .ok (env, p) →
      ∀ e ∈ p.entered, p.table.HoldsUniformly e.id) : file.DetectsRecursion config :=
  detectsRecursion_of_found fun env p hsettle ⟨e, he, hid⟩ =>
    ⟨e, he, (Table.containsItself_iff_holdsItself (h env p hsettle e he)).mpr hid⟩

/-! ## A type within its own argument -/

/-- The file `type G[T any] struct { x T }; type D struct { a G[int]; b G[D] }`. -/
def ofTwoInstances : SourceFile where
  path := "a.go"
  packageName := "p"
  declarations :=
    [.type ⟨⟨"G", ⟨16, 3, 6⟩⟩, false, [⟨["T"], [.named (.plain ⟨"any", ⟨20, 3, 10⟩⟩) []]⟩],
        .struct [.named ["x"] (.named (.plain ⟨"T", ⟨35, 3, 25⟩⟩) []) none]⟩,
      .type ⟨⟨"D", ⟨44, 4, 6⟩⟩, false, [],
        .struct [
          .named ["a"] (.named (.plain ⟨"G", ⟨57, 4, 19⟩⟩)
            [⟨"int", [.named (.plain ⟨"int", ⟨59, 4, 21⟩⟩) []]⟩]) none,
          .named ["b"] (.named (.plain ⟨"G", ⟨67, 4, 29⟩⟩)
            [⟨"D", [.named (.plain ⟨"D", ⟨69, 4, 31⟩⟩) []]⟩]) none]⟩]

/-- The type `D` contains itself as the field of `G[D]`, but the search opens `G` for `G[int]` only,
and the file is accepted. -/
theorem not_detectsRecursion_ofTwoInstances :
    ¬ ofTwoInstances.DetectsRecursion {} ∧
      ∃ result, ofTwoInstances.resolve {} = .ok result ∧ result.table.HoldsItself 3 := by
  have hinner : (ofTwoInstances.resolve {}).toOption.map (fun result =>
      (result.table.inner (3, []), result.table.inner (2, [.named 3 []]))) =
      some ([(2, [.basic .int]), (2, [.named 3 []])], [(3, [])]) := by
    decide +kernel
  obtain ⟨result, hresult, hinner⟩ := Option.map_eq_some_iff.mp hinner
  obtain ⟨houter, hinner⟩ := Prod.mk.injEq .. ▸ hinner
  have hresolve : ofTwoInstances.resolve {} = .ok result :=
    Except.toOption_eq_some_iff.mp hresult
  have hholds : result.table.HoldsItself 3 := by
    have hpart : (2, [.named 3 []]) ∈ result.table.inner (3, []) := by
      rw [houter]
      simp
    have hself : (3, []) ∈ result.table.inner (2, [.named 3 []]) := by
      rw [hinner]
      simp
    exact ⟨[], .inside hpart trivial (.direct hself)⟩
  exact ⟨fun h => h.accepted result hresolve 3 hholds, result, hresolve, hholds⟩

end SourceFile

end GoSignatures

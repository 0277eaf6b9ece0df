import GoSignatures.Proofs.Resolution.Comparing
import GoSignatures.Proofs.Resolution.Reordering

/-!
# The order of type declarations

The types of a file may be declared in another order, among the other declarations or apart from
them. If it makes no difference which type is reached first, then both files are refused, or both
accepted, and all reports are the same except for positions. It does make a difference where the
constraint of a generic type leads back to it: the type has no type parameters yet when it is
reached first.

* `FileScope.ChecksOrder.orderFree` — how it is checked that the order makes no difference
* `SourceFile.Retyped` — the same declarations, with the types in another order
* `SourceFile.Retyped.exists_reordered` — a file between both, with the declarations of the one in
  the order of the other
* `SourceFile.Retyped.resolvesAlike` — both files are refused, or both accepted with the same
  reports
* `SourceFile.exists_retyped_refused` — a file that is refused in one order only
-/

namespace GoSignatures

/-! ## Checking the order of a scope -/

namespace FileScope

variable {scope : FileScope} {name other : String}

/-- A check that it makes no difference which type is reached first. For each name, `closed` lists
at least the names that its declaration leads to. No constraint leads back to its type, and no type
is defined through a name that leads to a generic type from where it is led back to. -/
structure ChecksOrder (scope : FileScope) (closed : String → List String) : Prop where
  uses : ∀ e ∈ scope.entries, ∀ u ∈ scope.usesOf e.1, u.1 ∈ closed e.1 ∧ closed u.1 ⊆ closed e.1
  back : ∀ e ∈ scope.entries, ∀ u ∈ scope.constraintUsesOf e.1, u.1 ≠ e.1 → e.1 ∉ closed u.1
  instances : ∀ e ∈ scope.entries, ∀ head ∈ scope.headOf e.1, ∀ target ∈ head :: closed head,
    e.1 ∈ closed target → scope.arityOf target = 0

instance (scope : FileScope) (closed : String → List String) :
    Decidable (scope.ChecksOrder closed) :=
  decidable_of_iff ((∀ e ∈ scope.entries, ∀ u ∈ scope.usesOf e.1,
        u.1 ∈ closed e.1 ∧ closed u.1 ⊆ closed e.1) ∧
      (∀ e ∈ scope.entries, ∀ u ∈ scope.constraintUsesOf e.1, u.1 ≠ e.1 → e.1 ∉ closed u.1) ∧
      ∀ e ∈ scope.entries, ∀ head ∈ scope.headOf e.1, ∀ target ∈ head :: closed head,
        e.1 ∈ closed target → scope.arityOf target = 0)
    ⟨fun h => ⟨h.1, h.2.1, h.2.2⟩, fun h => ⟨h.uses, h.back, h.instances⟩⟩

/-- Only what is in scope has a declaration. -/
theorem mem_entries_of_spec? {spec : TypeSpec} (h : scope.spec? name = some spec) :
    (name, .type spec) ∈ scope.entries := by
  obtain ⟨l, r, hentries, -⟩ := List.lookup_eq_some_iff.mp (spec?_eq_some_iff.mp h)
  rw [hentries]
  exact List.mem_append_right _ List.mem_cons_self

theorem Uses.mem_entries (h : scope.Uses name other) : ∃ e ∈ scope.entries, e.1 = name := by
  obtain ⟨u, hu, -⟩ := h
  cases hspec : scope.spec? name with
  | none => simp [usesOf, hspec] at hu
  | some spec => exact ⟨_, mem_entries_of_spec? hspec, rfl⟩

variable {closed : String → List String}

theorem ChecksOrder.mem_of_transGen (h : scope.ChecksOrder closed)
    (huses : Relation.TransGen scope.Uses name other) : other ∈ closed name := by
  induction huses using Relation.TransGen.head_induction_on with
  | single hused =>
    obtain ⟨e, he, rfl⟩ := hused.mem_entries
    obtain ⟨u, hu, rfl⟩ := hused
    exact (h.uses e he u hu).1
  | head hused _ ih =>
    obtain ⟨e, he, rfl⟩ := hused.mem_entries
    obtain ⟨u, hu, rfl⟩ := hused
    exact (h.uses e he u hu).2 ih

/-- What leads back to a generic type is used by one of its constraints, or reached from there. -/
theorem LeadsBack.exists_constraint {generic : String} (h : scope.LeadsBack generic) :
    ∃ u ∈ scope.constraintUsesOf generic, u.1 ≠ generic ∧
      Relation.TransGen scope.Uses u.1 generic := by
  obtain ⟨name, hreached, huses⟩ := h
  replace huses := Relation.TransGen.single huses
  induction hreached with
  | @constraint u hu hne => exact ⟨u, hu, hne, huses⟩
  | use _ hu _ ih => exact ih (.head ⟨_, hu, rfl⟩ huses)

/-- A type is defined as one that the name in front of its right-hand side leads to. -/
theorem Leads.exists_head {target : String} (h : scope.Leads name target) :
    ∃ head, scope.headOf name = some head ∧
      (target = head ∨ Relation.TransGen scope.Uses head target) := by
  cases h with
  | here hhead _ _ => exact ⟨target, hhead, .inl rfl⟩
  | through hhead _ h => exact ⟨_, hhead, .inr h.transGen_uses⟩

/-- If the check passes, it makes no difference which type is reached first. -/
theorem ChecksOrder.orderFree (h : scope.ChecksOrder closed) : scope.OrderFree where
  back generic hleads := by
    obtain ⟨u, hu, hne, huses⟩ := hleads.exists_constraint
    obtain ⟨e, he, rfl⟩ : ∃ e ∈ scope.entries, e.1 = generic := by
      cases hspec : scope.spec? generic with
      | none => simp [constraintUsesOf, hspec] at hu
      | some spec => exact ⟨_, mem_entries_of_spec? hspec, rfl⟩
    exact h.back e he u hu hne (h.mem_of_transGen huses)
  instances name target hleads huses := by
    obtain ⟨head, hhead, htarget⟩ := hleads.exists_head
    obtain ⟨e, he, rfl⟩ := (uses_of_headOf hhead).mem_entries
    refine h.instances e he head hhead target ?_ (h.mem_of_transGen huses)
    rcases htarget with rfl | htarget
    · exact List.mem_cons_self
    · exact List.mem_cons_of_mem _ (h.mem_of_transGen htarget)

end FileScope

/-! ## Files with their types in another order -/

theorem Declaration.isType_of_alike {declared : List String} {d d' : Declaration}
    (h : d.alike declared d' = true) : d.isType = d'.isType := by
  cases d <;> cases d' <;> first | rfl | cases h

/-- Declarations are alike in files that declare the same names, in whatever order. -/
theorem Declaration.alike_of_perm {declared declared' : List String}
    (h : declared'.Perm declared) (d d' : Declaration) :
    d.alike declared' d' = d.alike declared d' := by
  have hcontains : ∀ name, declared'.contains name = declared.contains name := by
    intro name
    rw [Bool.eq_iff_iff, List.contains_iff_mem, List.contains_iff_mem, h.mem_iff]
  have hreceiver : ReceiverExpr.alike declared' = ReceiverExpr.alike declared := by
    funext used receiver receiver'
    simp only [ReceiverExpr.alike, hcontains]
  cases d <;> cases d' <;> first | rfl | skip
  next decl decl' =>
    simp only [alike, MethodDecl.alike]
    cases decl.receiver <;> cases decl'.receiver <;> first | rfl | skip
    simp only [ReceiverExpr.optionAlike, hreceiver]

namespace SourceFile

/-- Two files have the same declarations, all in the same order but the types, which stand in the
other file as `specs` lists them. What is moved stands at other places, but of any two functions the
same one stands first. -/
structure RetypedAs (file : SourceFile) (specs : List TypeSpec) (file' : SourceFile) : Prop where
  packageName : file.packageName = file'.packageName
  types : List.Forall₂ (fun spec spec' => spec.alike spec' = true) specs file'.typeSpecs
  others : List.Forall₂ (fun d d' => d.alike file.declaredNames d' = true)
    (file.declarations.filter fun d => !d.isType) (file'.declarations.filter fun d => !d.isType)
  order : (file.functionPlaces.map fun place => file.functionPlaces.map place.le) =
    file'.functionPlaces.map fun place => file'.functionPlaces.map place.le

instance (file : SourceFile) (specs : List TypeSpec) (file' : SourceFile) :
    Decidable (file.RetypedAs specs file') :=
  decidable_of_iff (file.packageName = file'.packageName ∧
      List.Forall₂ (fun spec spec' => spec.alike spec' = true) specs file'.typeSpecs ∧
      List.Forall₂ (fun d d' => d.alike file.declaredNames d' = true)
        (file.declarations.filter fun d => !d.isType)
        (file'.declarations.filter fun d => !d.isType) ∧
      (file.functionPlaces.map fun place => file.functionPlaces.map place.le) =
        file'.functionPlaces.map fun place => file'.functionPlaces.map place.le)
    ⟨fun h => ⟨h.1, h.2.1, h.2.2.1, h.2.2.2⟩,
      fun h => ⟨h.packageName, h.types, h.others, h.order⟩⟩

/-- Two files have the same declarations, all in the same order but the types. -/
def Retyped (file file' : SourceFile) : Prop :=
  ∃ specs, specs.Perm file.typeSpecs ∧ file.RetypedAs specs file'

theorem filter_isType (file : SourceFile) :
    file.declarations.filter Declaration.isType = file.typeSpecs.map .type := by
  unfold typeSpecs
  induction file.declarations with
  | nil => rfl
  | cons d ds ih =>
    cases d with
    | type spec => exact congrArg (_ :: ·) ih
    | _ => exact ih

namespace Retyped

variable {file file' : SourceFile} (h : file.Retyped file')
include h

/-! ## A file between both -/

/-- The declarations of the one file can be put in the order of the other. -/
theorem exists_reordered :
    ∃ between : SourceFile, file.Reordered between ∧ between.Alike file' := by
  obtain ⟨specs, hperm, h⟩ := h
  have htypes : List.Forall₂ (fun d d' => d.alike file.declaredNames d' = true)
      (specs.map Declaration.type) (file'.declarations.filter Declaration.isType) := by
    rw [filter_isType, List.forall₂_map_left_iff, List.forall₂_map_right_iff]
    exact h.types
  have hsplit : ∀ d d' : Declaration, d.alike file.declaredNames d' = true →
      d.isType = d'.isType := fun _ _ => Declaration.isType_of_alike
  obtain ⟨ds, hds, hfilter, hothers⟩ := exists_forall₂_of_filter hsplit htypes h.others
  have hdeclarations : ds.Perm file.declarations := by
    refine (List.filter_append_perm Declaration.isType ds).symm.trans ?_
    rw [hfilter, hothers]
    refine ((hperm.map Declaration.type).append_right _).trans ?_
    rw [← filter_isType]
    exact List.filter_append_perm Declaration.isType file.declarations
  have hreordered : file.Reordered { file with declarations := ds } :=
    ⟨rfl, rfl, hdeclarations, hothers⟩
  refine ⟨_, hreordered, h.packageName, hds.imp fun d d' hd => ?_, ?_⟩
  · exact (Declaration.alike_of_perm (hreordered.introduced.map Prod.fst) d d').trans hd
  · rw [functionPlaces, hreordered.funcDecls, hreordered.methodDecls]
    exact h.order

/-! ## Both files -/

/-- Files with their types in another order are both refused, or both accepted with the same
reports, if it makes no difference which type is reached first. -/
theorem resolvesAlike (config : Config) (hfree : (file.env config).scope.OrderFree) :
    (∃ e e', file.resolve config = .error e ∧ file'.resolve config = .error e') ∨
    ∃ result result', file.resolve config = .ok result ∧ file'.resolve config = .ok result' ∧
      ∀ path requested, (result.report path requested).withoutPositions =
        (result'.report path requested).withoutPositions := by
  obtain ⟨between, hreordered, halike⟩ := h.exists_reordered
  rcases hreordered.acceptedAlike hfree with ⟨result, found, hok, hfound, hreports⟩ |
    ⟨e, e', herror, herror'⟩
  · rcases Except.of_told_eq_told (halike.told_resolve config) with
      ⟨_, _, herror, -⟩ | ⟨_, result', hfound', hok', -⟩
    · rw [hfound] at herror
      cases herror
    · cases hfound.symm.trans hfound'
      refine .inr ⟨result, result', hok, hok', fun path requested => ?_⟩
      rw [← hreports, (halike.matches_of_resolve hfound hok').report]
  · rcases Except.of_told_eq_told (halike.told_resolve config) with
      ⟨_, e'', herror'', hrefused, -⟩ | ⟨_, _, hfound, -⟩
    · exact .inl ⟨e, e'', herror, hrefused⟩
    · rw [herror'] at hfound
      cases hfound

end Retyped

/-! ## A file whose types may be reordered -/

/-- A file with types of all kinds: generic ones, one of them recursive, an instance, another name
for an instance, and two types that use each other, of which one is defined as the other. -/
def typesFirstText : String :=
  "package a\ntype N interface\x7b~int\x7d\ntype L[T any] struct\x7bl *L[T]\x7d\n" ++
    "type S[T N] L[T]\ntype I = L[int]\ntype A struct\x7bb *B\x7d\ntype B A\n" ++
    "func F(B, I, S[int])\n"

/-- The same file with its types behind the function, in another order. -/
def typesLastText : String :=
  "package a\nfunc F(B, I, S[int])\ntype B A\ntype A struct\x7bb *B\x7d\n" ++
    "type I = L[int]\ntype S[T N] L[T]\ntype L[T any] struct\x7bl *L[T]\x7d\n" ++
    "type N interface\x7b~int\x7d\n"

/-- What the types of the file lead to. -/
def typesFirstClosed (name : String) : List String :=
  match name with
  | "N" => ["int"]
  | "L" => ["any", "L"]
  | "S" => ["N", "int", "L", "any"]
  | "I" => ["L", "any", "int"]
  | "A" => ["B", "A"]
  | "B" => ["A", "B"]
  | _ => []

/-- The types of the file may be declared in any order, and the reports stay. -/
theorem Retyped.resolvesAlike_ofTexts :
    ∃ file file', read "a.go" typesFirstText = .ok file ∧ read "a.go" typesLastText = .ok file' ∧
      file.Retyped file' ∧ (file.env {}).scope.OrderFree ∧
      ∃ result result', file.resolve {} = .ok result ∧ file'.resolve {} = .ok result' ∧
        (result.report "a.go" []).withoutPositions =
          (result'.report "a.go" []).withoutPositions := by
  have hread : ((read "a.go" typesFirstText).toOption.bind fun file =>
      (read "a.go" typesLastText).toOption.map fun file' =>
        decide (file.RetypedAs file.typeSpecs.reverse file' ∧
          (file.env {}).scope.ChecksOrder typesFirstClosed ∧
          (file.resolve {}).toOption.isSome = true)) = some true := by decide +kernel
  obtain ⟨file, hfile, hread⟩ := Option.bind_eq_some_iff.mp hread
  obtain ⟨file', hfile', hread⟩ := Option.map_eq_some_iff.mp hread
  obtain ⟨htypes, hchecks, hok⟩ := of_decide_eq_true hread
  obtain ⟨result, hresult⟩ := Option.isSome_iff_exists.mp hok
  rw [Except.toOption_eq_some_iff] at hfile hfile' hresult
  have hretyped : file.Retyped file' := ⟨_, List.reverse_perm _, htypes⟩
  refine ⟨file, file', hfile, hfile', hretyped, hchecks.orderFree, ?_⟩
  rcases resolvesAlike hretyped {} hchecks.orderFree with ⟨e, -, herror, -⟩ |
    ⟨result, result', hleft, hright, hreports⟩
  · rw [hresult] at herror
    cases herror
  · exact ⟨result, result', hleft, hright, hreports "a.go" []⟩

/-! ## A file that is refused in one order -/

/-- A generic type whose constraint uses the type with an argument. -/
def genericFirstText : String :=
  "package a\ntype A[T B] struct\x7b\x7d\ntype B interface\x7bm(*A[int])\x7d\n"

/-- The same file with the constraint in front. -/
def constraintFirstText : String :=
  "package a\ntype B interface\x7bm(*A[int])\x7d\ntype A[T B] struct\x7b\x7d\n"

/-- The order of two types decides whether a file is accepted. -/
theorem exists_retyped_refused :
    ∃ file file', read "a.go" genericFirstText = .ok file ∧
      read "a.go" constraintFirstText = .ok file' ∧ file.Retyped file' ∧
      (∃ e, file.resolve {} = .error e) ∧ ∃ result', file'.resolve {} = .ok result' := by
  have hread : ((read "a.go" genericFirstText).toOption.bind fun file =>
      (read "a.go" constraintFirstText).toOption.map fun file' =>
        decide (file.RetypedAs file.typeSpecs.reverse file' ∧
          (file.resolve {}).toOption.isSome = false ∧
          (file'.resolve {}).toOption.isSome = true)) = some true := by decide +kernel
  obtain ⟨file, hfile, hread⟩ := Option.bind_eq_some_iff.mp hread
  obtain ⟨file', hfile', hread⟩ := Option.map_eq_some_iff.mp hread
  obtain ⟨htypes, hrefused, haccepted⟩ := of_decide_eq_true hread
  obtain ⟨result', hresult'⟩ := Option.isSome_iff_exists.mp haccepted
  rw [Except.toOption_eq_some_iff] at hfile hfile' hresult'
  refine ⟨file, file', hfile, hfile', ⟨_, List.reverse_perm _, htypes⟩, ?_, result', hresult'⟩
  cases hresolve : file.resolve {} with
  | error e => exact ⟨e, rfl⟩
  | ok result =>
    rw [hresolve] at hrefused
    cases hrefused

end SourceFile

end GoSignatures

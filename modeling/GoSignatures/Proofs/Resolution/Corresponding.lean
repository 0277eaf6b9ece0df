import GoSignatures.Proofs.Resolution.Outlining

/-!
# One definition for each declaration

`SourceFile.count_outlines` says how often something is defined. Definitions and declarations
correspond one to one exactly where none of the differences in it is there.

* `SourceFile.Corresponds` — definitions and declarations correspond one to one
* `SourceFile.corresponds_iff` — when they do
* `SourceFile.timesFound_eq_one` — another name that does not lead back to itself is found once
* `SourceFile.not_corresponds_ofReachedAlias` — one that does may be found twice
-/

namespace GoSignatures

open Resolve

/-- Whether a definition is that of a function, a method or a method element. -/
def Outline.isFunc (o : Outline) : Bool :=
  o.kind == .function || o.kind == .element

theorem Outline.ofElement_injective : Function.Injective Outline.ofElement := by
  intro name other h
  cases h
  rfl

theorem Definition.positions_func? (definitions : List Definition) :
    (definitions.filterMap Definition.func?).map FuncDef.position =
      ((definitions.map Definition.outline).filter Outline.isFunc).map
        fun o => o.name.position := by
  induction definitions with
  | nil => rfl
  | cons d definitions ih =>
    rw [List.filterMap_cons, List.map_cons, List.filter_cons]
    cases d with
    | func f =>
      have hfunc : (Definition.func f).outline.isFunc = true := by
        cases hscope : f.scope <;>
        · simp only [Definition.outline, hscope]
          rfl
      rw [if_pos hfunc, List.map_cons, ← ih]
      rfl
    | type d => exact ih
    | var d => exact ih
    | const d => exact ih

namespace SourceFile

/-- The names of functions, methods and method elements stand at different places. -/
def NamesApart (file : SourceFile) : Prop :=
  ((file.outlines.filter Outline.isFunc).map fun o => o.name.position).Nodup

instance (file : SourceFile) : Decidable file.NamesApart :=
  inferInstanceAs (Decidable (List.Nodup _))

/-- What is defined corresponds one to one to what is declared, and no two functions, methods or
method elements are defined at one place. -/
structure Corresponds (file : SourceFile) (result : ResolvedFile) : Prop where
  definitions : (result.definitions.map Definition.outline).Perm file.outlines
  places : ((result.definitions.filterMap Definition.func?).map FuncDef.position).Nodup

variable {file : SourceFile} {config : Config} {env : Env} {p : Progress} {result : ResolvedFile}

/-! ## Differences -/

theorem kind_of_mem_commas {o : Outline} (h : o ∈ file.commas) : o.kind = .const := by
  obtain ⟨spec, -, ho⟩ := List.mem_flatMap.mp h
  obtain ⟨name, hname, rfl⟩ := List.mem_map.mp ho
  have hconstant : spec.constant = true := by
    by_contra hconstant
    rw [ValueSpec.commas, if_neg hconstant] at hname
    cases hname
  rw [ValueSpec.outlineOf, if_pos hconstant]

/-- Where names are apart, no element of a constraint is an element of the type of a declaration. -/
theorem NamesApart.not_mem (h : file.NamesApart) {name : Piece} {spec other : TypeSpec}
    (hspec : spec ∈ file.typeSpecs) (hname : name ∈ TypeParamDecl.allElements spec.typeParams)
    (hother : other ∈ file.typeSpecs) : name ∉ other.type.elements := by
  intro hmem
  have hparts : (file.typeSpecs.flatMap TypeSpec.outlines).Perm
      (file.typeSpecs.flatMap (fun spec => (TypeParamDecl.allElements spec.typeParams).map
          Outline.ofElement) ++
        file.typeSpecs.flatMap fun spec => spec.type.elements.map Outline.ofElement ++
          [⟨.type, spec.name⟩]) := by
    refine .trans (.of_eq ?_) (List.flatMap_append_perm ..).symm
    refine List.flatMap_congr fun spec _ => ?_
    rw [TypeSpec.outlines, List.map_append, List.append_assoc]
  have hconstraint : 0 < (file.typeSpecs.flatMap fun spec =>
      (TypeParamDecl.allElements spec.typeParams).map Outline.ofElement).count
        (.ofElement name) :=
    List.count_pos_iff.mpr (List.mem_flatMap.mpr ⟨spec, hspec, List.mem_map_of_mem hname⟩)
  have htype : 0 < (file.typeSpecs.flatMap fun spec => spec.type.elements.map Outline.ofElement ++
      [⟨.type, spec.name⟩]).count (.ofElement name) :=
    List.count_pos_iff.mpr (List.mem_flatMap.mpr ⟨other, hother,
      List.mem_append_left _ (List.mem_map_of_mem hmem)⟩)
  have htwice : 2 ≤ file.outlines.count (.ofElement name) := by
    rw [outlines, List.append_assoc, List.append_assoc, List.count_append, hparts.count_eq,
      List.count_append]
    omega
  have honce : (file.outlines.filter Outline.isFunc).count (.ofElement name) ≤ 1 :=
    List.nodup_iff_count_le_one.mp (List.Nodup.of_map _ h) _
  rw [List.count_filter (by rfl)] at honce
  omega

/-- An element that is found again stands in another name for a type that is found again. -/
theorem mem_elementsAgain (h : file.Entered config env p) {name : Piece} :
    name ∈ file.elementsAgain env p ↔
      ∃ spec ∈ file.typeSpecs, spec.name.text ≠ "_" ∧ spec.isAlias = true ∧
        p.timesFound spec.name.text ≠ 1 ∧ name ∈ spec.type.elements := by
  have helements : ∀ {spec : TypeSpec}, spec ∈ file.typeSpecs → spec.name.text ≠ "_" →
      spec.isAlias = true → env.scope.elementsOf spec.name.text = spec.type.elements := by
    intro spec hspec hblank halias
    rw [FileScope.elementsOf_eq (h.lookup_eq_some.mpr ⟨hspec, rfl, hblank⟩), TypeSpec.elements,
      if_pos halias, List.nil_append]
  rw [elementsAgain, List.mem_flatMap]
  constructor
  · rintro ⟨found, hfound, hname⟩
    obtain ⟨hdeclared, halias, hagain⟩ := h.mem_foundAgain hfound
    obtain ⟨spec, hspec, rfl, hblank⟩ := mem_typeNames.mp hdeclared
    rw [FileScope.isAlias_eq (h.lookup_eq_some.mpr ⟨hspec, rfl, hblank⟩)] at halias
    exact ⟨spec, hspec, hblank, halias, hagain, helements hspec hblank halias ▸ hname⟩
  · rintro ⟨spec, hspec, hblank, halias, hagain, hname⟩
    refine ⟨spec.name.text, ?_, (helements hspec hblank halias).symm ▸ hname⟩
    have hdeclared : spec.name.text ∈ file.typeNames := mem_typeNames.mpr ⟨spec, hspec, rfl, hblank⟩
    have hscope : env.scope.isAlias spec.name.text = true :=
      (FileScope.isAlias_eq (h.lookup_eq_some.mpr ⟨hspec, rfl, hblank⟩)).trans halias
    have hpos := h.timesFound_pos hdeclared hscope
    have hcount := h.perm_foundNames.count_eq spec.name.text
    rw [List.count_append, List.count_eq_one_of_mem (nodup_typeNames h.scope) hdeclared,
      h.count_foundNames hdeclared, if_pos hscope] at hcount
    rw [← List.count_pos_iff]
    omega

/-! ## When there are none -/

/-- Where no two names stand at one place, the definitions of an accepted file correspond one to one
to its declarations if and only if no comma is kept as the name of a constant, no method element
stands in constraints that are passed over, and every other name for a type in which a method
element stands is found once. -/
theorem corresponds_iff (hapart : file.NamesApart) (hresolve : file.resolve config = .ok result)
    (henter : file.enterTypes config = .ok (env, p)) :
    file.Corresponds result ↔
      file.commas = [] ∧ file.ignoredElements = [] ∧
        ∀ spec ∈ file.typeSpecs, spec.name.text ≠ "_" → spec.isAlias = true →
          spec.type.elements ≠ [] → p.timesFound spec.name.text = 1 := by
  have hcount := count_outlines hresolve henter
  have hentered := enterTypes_ok henter
  constructor
  · intro h
    have hequal : ∀ o, (file.ignoredElements.map Outline.ofElement).count o =
        file.commas.count o + ((file.elementsAgain env p).map Outline.ofElement).count o := by
      intro o
      have ho := hcount o
      rw [h.definitions.count_eq] at ho
      omega
    have hcommas : file.commas = [] := by
      rw [List.eq_nil_iff_forall_not_mem]
      intro o ho
      have hpos := List.count_pos_iff.mpr ho
      have hignored : 0 < (file.ignoredElements.map Outline.ofElement).count o := by
        have := hequal o
        omega
      obtain ⟨name, -, rfl⟩ := List.mem_map.mp (List.count_pos_iff.mp hignored)
      cases kind_of_mem_commas ho
    have hperm : (file.ignoredElements.map Outline.ofElement).Perm
        ((file.elementsAgain env p).map Outline.ofElement) := by
      refine List.perm_iff_count.mpr fun o => ?_
      rw [hequal o, hcommas, List.count_nil, Nat.zero_add]
    have hsame := (List.map_perm_map_iff Outline.ofElement_injective).mp hperm
    -- no element is both passed over and found again
    have hignored : file.ignoredElements = [] := by
      rw [List.eq_nil_iff_forall_not_mem]
      intro name hname
      obtain ⟨other, hother, -, -, -, hagain⟩ :=
        (mem_elementsAgain hentered).mp (hsame.mem_iff.mp hname)
      obtain ⟨spec, hspec, hconstraint⟩ := List.mem_flatMap.mp hname
      have hmem : name ∈ TypeParamDecl.allElements spec.typeParams := by
        unfold TypeSpec.ignoredElements at hconstraint
        split at hconstraint
        · exact hconstraint
        · cases hconstraint
      exact hapart.not_mem hspec hmem hother hagain
    refine ⟨hcommas, hignored, fun spec hspec hblank halias helements => ?_⟩
    rw [hignored, List.nil_perm] at hsame
    obtain ⟨name, hname⟩ := List.exists_mem_of_ne_nil _ helements
    by_contra hagain
    have hmem : name ∈ file.elementsAgain env p :=
      (mem_elementsAgain hentered).mpr ⟨spec, hspec, hblank, halias, hagain, hname⟩
    rw [hsame] at hmem
    cases hmem
  · rintro ⟨hcommas, hignored, honce⟩
    have hagain : file.elementsAgain env p = [] := by
      rw [List.eq_nil_iff_forall_not_mem]
      intro name hname
      obtain ⟨spec, hspec, hblank, halias, hagain, hmem⟩ := (mem_elementsAgain hentered).mp hname
      exact hagain (honce spec hspec hblank halias (List.ne_nil_of_mem hmem))
    have hperm : (result.definitions.map Definition.outline).Perm file.outlines := by
      refine List.perm_iff_count.mpr fun o => ?_
      simpa [hcommas, hignored, hagain] using hcount o
    refine ⟨hperm, ?_⟩
    rw [Definition.positions_func?]
    exact ((hperm.filter _).map _).nodup_iff.mpr hapart

/-- The file `type A = interface { m() }; func F(a A)`. -/
def ofMethodElement : SourceFile where
  path := "a.go"
  packageName := "p"
  declarations :=
    [.type ⟨⟨"A", ⟨16, 3, 6⟩⟩, true, [],
        .interface [.method ⟨"m", ⟨32, 3, 22⟩⟩ ⟨[], .list []⟩]⟩,
      .func ⟨⟨"F", ⟨44, 5, 6⟩⟩, [],
        ⟨[⟨["a"], .named (.plain ⟨"A", ⟨48, 5, 10⟩⟩) [], false⟩], .list []⟩⟩]

theorem corresponds_ofMethodElement :
    ∃ result, ofMethodElement.resolve {} = .ok result ∧ ofMethodElement.Corresponds result ∧
      result.definitions.map Definition.outline =
        [⟨.element, ⟨"m", ⟨32, 3, 22⟩⟩⟩, ⟨.type, ⟨"A", ⟨16, 3, 6⟩⟩⟩,
          ⟨.function, ⟨"F", ⟨44, 5, 6⟩⟩⟩] := by
  have hresolves : (ofMethodElement.resolve {}).toOption.map (fun result =>
      result.definitions.map Definition.outline) =
        some [⟨.element, ⟨"m", ⟨32, 3, 22⟩⟩⟩, ⟨.type, ⟨"A", ⟨16, 3, 6⟩⟩⟩,
          ⟨.function, ⟨"F", ⟨44, 5, 6⟩⟩⟩] := by
    decide +kernel
  have henters : (ofMethodElement.enterTypes {}).toOption.map (fun entered =>
      entered.2.timesFound "A") = some 1 := by
    decide +kernel
  obtain ⟨result, hresolve, houtlines⟩ := Option.map_eq_some_iff.mp hresolves
  obtain ⟨⟨env, p⟩, henter, hfound⟩ := Option.map_eq_some_iff.mp henters
  rw [Except.toOption_eq_some_iff] at hresolve henter
  refine ⟨result, hresolve, ?_, houtlines⟩
  refine (corresponds_iff (by decide) hresolve henter).mpr ⟨by decide, by decide, ?_⟩
  intro spec hspec _ _ _
  cases List.mem_singleton.mp hspec
  exact hfound

/-- Another name for a type that does not lead back to itself is found once. -/
theorem timesFound_eq_one (henter : file.enterTypes config = .ok (env, p)) {spec : TypeSpec}
    (hspec : spec ∈ file.typeSpecs) (hname : spec.name.text ≠ "_") (halias : spec.isAlias = true)
    (hfree : ¬ Relation.TransGen env.scope.Uses spec.name.text spec.name.text) :
    p.timesFound spec.name.text = 1 := by
  have hentered := enterTypes_ok henter
  have hnamed := FileScope.named_ofDeclarations hentered.scope
  have hnames : ∀ name, Records env (fun p => p.timesFound spec.name.text ≤ 1) []
      (env.enter name) := by
    intro name p type q hp hrun
    exact ⟨(Env.enterType_timesFound hnamed hfree _ [] name hrun).2 hp,
      (Env.enterType_records hnamed _ [] name p type q trivial hrun).2⟩
  obtain ⟨hatMost, -⟩ := enterTypes_records henter (fun _ _ h => h) hnames (Nat.zero_le 1)
  have hpos := hentered.timesFound_pos (mem_typeNames.mpr ⟨spec, hspec, rfl, hname⟩)
    ((FileScope.isAlias_eq (hentered.lookup_eq_some.mpr ⟨hspec, rfl, hname⟩)).trans halias)
  omega

/-! ## Another name that is reached again -/

/-- The file `type A = interface { m(d D) }; type D struct { a A }`. -/
def ofReachedAlias : SourceFile where
  path := "a.go"
  packageName := "p"
  declarations :=
    [.type ⟨⟨"A", ⟨16, 3, 6⟩⟩, true, [],
        .interface [.method ⟨"m", ⟨32, 3, 22⟩⟩
          ⟨[⟨["d"], .named (.plain ⟨"D", ⟨36, 3, 26⟩⟩) [], false⟩], .list []⟩]⟩,
      .type ⟨⟨"D", ⟨47, 5, 6⟩⟩, false, [],
        .struct [.named ["a"] (.named (.plain ⟨"A", ⟨60, 5, 19⟩⟩) []) none]⟩]

/-- The method of `A` is declared once and defined twice: before `A` is found, its right-hand side
is resolved, and from there that of `D`, where `A` is met again. -/
theorem not_corresponds_ofReachedAlias :
    ∃ result, ofReachedAlias.resolve {} = .ok result ∧ ofReachedAlias.NamesApart ∧
      ofReachedAlias.outlines =
        [⟨.element, ⟨"m", ⟨32, 3, 22⟩⟩⟩, ⟨.type, ⟨"A", ⟨16, 3, 6⟩⟩⟩, ⟨.type, ⟨"D", ⟨47, 5, 6⟩⟩⟩] ∧
      result.definitions.map Definition.outline =
        [⟨.element, ⟨"m", ⟨32, 3, 22⟩⟩⟩, ⟨.element, ⟨"m", ⟨32, 3, 22⟩⟩⟩,
          ⟨.type, ⟨"A", ⟨16, 3, 6⟩⟩⟩, ⟨.type, ⟨"D", ⟨47, 5, 6⟩⟩⟩] ∧
      ¬ ofReachedAlias.Corresponds result := by
  have hresolves : (ofReachedAlias.resolve {}).toOption.map (fun result =>
      result.definitions.map Definition.outline) =
        some [⟨.element, ⟨"m", ⟨32, 3, 22⟩⟩⟩, ⟨.element, ⟨"m", ⟨32, 3, 22⟩⟩⟩,
          ⟨.type, ⟨"A", ⟨16, 3, 6⟩⟩⟩, ⟨.type, ⟨"D", ⟨47, 5, 6⟩⟩⟩] := by
    decide +kernel
  obtain ⟨result, hresolve, houtlines⟩ := Option.map_eq_some_iff.mp hresolves
  rw [Except.toOption_eq_some_iff] at hresolve
  refine ⟨result, hresolve, by decide, by decide, houtlines, fun h => ?_⟩
  have hlength := h.definitions.length_eq
  rw [houtlines] at hlength
  revert hlength
  decide

end SourceFile

end GoSignatures

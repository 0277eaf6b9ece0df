import GoSignatures.Proofs.Resolution.Functions
import GoSignatures.Proofs.Resolution.Recording
import GoSignatures.Proofs.Scope.Constants
import Mathlib.Data.List.Perm.Subperm

/-!
# Definitions and declarations

Every declaration asks for certain definitions: one for each name that it declares, and one for each
method element of an interface literal in it. What a file defines can differ from that in three
ways. The commas between the names of constants are defined as well. Type parameters that are passed
over are not resolved, so that the method elements in their constraints are missing. And another
name for a type is found only when its right-hand side is resolved: if it is reached again from
there, its right-hand side is resolved again, and its method elements are defined twice.

* `SourceFile.outlines` — the definitions that the declarations of a file ask for
* `SourceFile.commas`, `.ignoredElements`, `.elementsAgain` — the three differences
* `SourceFile.count_outlines` — how often something is defined
-/

namespace GoSignatures

open Resolve

/-! ## What declarations ask for -/

/-- The definitions that a declaration of a type asks for. -/
def TypeSpec.outlines (spec : TypeSpec) : List Outline :=
  (TypeParamDecl.allElements spec.typeParams ++ spec.type.elements).map .ofElement ++
    [⟨.type, spec.name⟩]

/-- The method elements in a declaration of a type that no resolution goes through: those in the
constraints of another name for a type, or of a blank name. -/
def TypeSpec.ignoredElements (spec : TypeSpec) : List Piece :=
  if spec.isAlias || spec.name.text == "_" then TypeParamDecl.allElements spec.typeParams else []

namespace ValueSpec

/-- The outline of a variable or constant. -/
def outlineOf (spec : ValueSpec) (name : Piece) : Outline :=
  ⟨if spec.constant then .const else .var, name⟩

/-- The method elements in the type of a declaration of variables or constants. -/
def elements (spec : ValueSpec) : List Piece :=
  (spec.type.map TypeExpr.elements).getD []

/-- The definitions that a declaration of variables or constants asks for. -/
def outlines (spec : ValueSpec) : List Outline :=
  spec.elements.map .ofElement ++ spec.identifiers.map spec.outlineOf

/-- The commas that a declaration of constants keeps as names. -/
def commas (spec : ValueSpec) : List Piece :=
  if spec.constant then spec.names.filter (·.text == ",") else []

end ValueSpec

/-- The definitions that a function declaration asks for. -/
def FuncDecl.outlines (decl : FuncDecl) : List Outline :=
  (TypeParamDecl.allElements decl.typeParams ++ decl.signature.elements).map .ofElement ++
    [⟨.function, decl.name⟩]

/-- The method elements in the type of a receiver. -/
def MethodDecl.receiverElements (decl : MethodDecl) : List Piece :=
  (decl.receiver.map fun receiver => receiver.type.elements).getD []

/-- The definitions that a method declaration asks for. -/
def MethodDecl.outlines (decl : MethodDecl) : List Outline :=
  (decl.receiverElements ++ decl.signature.elements).map .ofElement ++ [⟨.function, decl.name⟩]

namespace SourceFile

/-- The definitions that the declarations of a file ask for. -/
def outlines (file : SourceFile) : List Outline :=
  file.typeSpecs.flatMap TypeSpec.outlines ++ file.valueSpecs.flatMap ValueSpec.outlines ++
    file.funcDecls.flatMap FuncDecl.outlines ++ file.methodDecls.flatMap MethodDecl.outlines

/-- The method elements in a file that no resolution goes through. -/
def ignoredElements (file : SourceFile) : List Piece :=
  file.typeSpecs.flatMap TypeSpec.ignoredElements

/-- The commas that are defined as if they were constants. -/
def commas (file : SourceFile) : List Outline :=
  file.valueSpecs.flatMap fun spec => spec.commas.map spec.outlineOf

/-- The names of the types that a file declares. -/
def typeNames (file : SourceFile) : List String :=
  (file.typeSpecs.filter fun spec => spec.name.text != "_").map fun spec => spec.name.text

/-- The method elements of the declarations that were found again, once they were found. -/
def elementsAgain (file : SourceFile) (env : Env) (p : Progress) : List Piece :=
  (p.foundNames.diff file.typeNames).flatMap env.scope.elementsOf

end SourceFile

/-! ## What the stages record -/

variable {env : Env} {I : Progress → Prop} {α : Type} {os : List Outline} {p q r : Progress}

namespace Resolve.Records

theorem forM {f : α → Resolve Unit} {os : α → List Outline} (hf : ∀ a, Records env I (os a) (f a))
    (l : List α) : Records env I (l.flatMap os) (l.forM f) := by
  induction l with
  | nil => exact .pure
  | cons a l ih => exact (hf a).bind fun _ => ih

/-- Recording a definition at the end of a step. -/
theorem define (hdefine : ∀ p d, I p → I (p.define d)) (d : Definition) :
    Records env I [d.outline] (modify fun p => p.define d) := by
  intro p a q hp hrun
  rw [modify_eq_ok_iff] at hrun
  subst hrun
  exact ⟨hdefine p d hp, .define p d⟩

end Resolve.Records

/-- The definitions that a declaration of a type makes besides those of the name. -/
def TypeSpec.recorded (spec : TypeSpec) : List Outline :=
  (if spec.name.text = "_" then spec.type.elements.map .ofElement else []) ++ [⟨.type, spec.name⟩]

theorem Env.resolveTypeSpec_records (hdefine : ∀ p d, I p → I (p.define d))
    (henter : ∀ name, Records env I [] (env.enter name)) (spec : TypeSpec) :
    Records env I spec.recorded (env.resolveTypeSpec spec) := by
  rw [resolveTypeSpec_eq]
  refine .bind ?_ fun type => .define hdefine
    (.type ⟨spec.name.text, type, spec.isAlias, spec.name.position⟩)
  split
  · exact TypeExpr.records (Q := fun _ => True) (fun p f => hdefine p (.func f))
      (fun name _ => henter name) spec.type fun _ _ => trivial
  · exact henter spec.name

/-- Between two moments of a run no type is found. -/
def Progress.SameFound (p q : Progress) : Prop :=
  q.entered = p.entered ∧ q.aliases = p.aliases

theorem Progress.SameFound.found (h : p.SameFound q) : env.found q = env.found p := by
  rw [Env.found, Env.found, foundNames, foundNames, h.1, h.2]

section

variable (h : env.TypesKnown p)
include h

/-- Names of types that are known are not found again. -/
theorem Env.TypesKnown.enter_records (name : Piece) :
    Records env p.SameFound [] (env.enter name) := by
  intro q type r hq hrun
  have htypeOf : ∀ name, env.typeOf? q name = env.typeOf? p name := by
    intro name
    rw [typeOf?, typeOf?, Progress.enteredType?, Progress.enteredType?, hq.1, hq.2]
  obtain ⟨spec, hspec⟩ := lookup_of_enterType hrun
  obtain ⟨type', -, henter⟩ := h.enter_eq htypeOf (FileScope.isType_iff.mpr ⟨spec, hspec⟩)
  rw [henter] at hrun
  cases hrun
  exact ⟨hq, .of_same rfl rfl⟩

theorem Env.TypesKnown.typeExpr_records (params : List String) (e : TypeExpr) :
    Records env p.SameFound (e.elements.map .ofElement) (e.resolve env env.enter params) :=
  TypeExpr.records (Q := fun _ => True) (fun _ _ hq => hq) (fun name _ => h.enter_records name) e
    fun _ _ => trivial

theorem Env.TypesKnown.signature_records (params : List String) (sig : SignatureExpr) :
    Records env p.SameFound (sig.elements.map .ofElement) (sig.resolve env env.enter params) :=
  SignatureExpr.records (Q := fun _ => True) (fun _ _ hq => hq) (fun name _ => h.enter_records name)
    sig fun _ _ => trivial

theorem ValueSpec.resolveType_records (spec : ValueSpec) :
    Records env p.SameFound (spec.elements.map .ofElement) (spec.resolveType env) := by
  unfold resolveType elements
  cases spec.type with
  | none => exact .pure
  | some type => exact (h.typeExpr_records [] type).map fun _ => ()

theorem Env.TypesKnown.resolveFunc_records (decl : FuncDecl) :
    Records env p.SameFound decl.outlines (env.resolveFunc decl) := by
  unfold Env.resolveFunc FuncDecl.outlines
  rw [List.map_append, List.append_assoc]
  refine .bind (TypeParamDecl.records (Q := fun _ => True) (fun _ _ hq => hq)
    (fun name _ => h.enter_records name) decl.typeParams fun _ _ => trivial) fun params => ?_
  refine .bind (h.signature_records _ decl.signature) fun sig => ?_
  exact .define (fun _ _ hq => hq)
    (.func ⟨decl.name.text, { sig with typeParams := params }, decl.name.position, .package⟩)

theorem Env.TypesKnown.resolveMethod_records (decl : MethodDecl) :
    Records env p.SameFound decl.outlines (env.resolveMethod decl) := by
  unfold Env.resolveMethod MethodDecl.outlines MethodDecl.receiverElements
  cases decl.receiver with
  | none => exact .fail
  | some receiver =>
    have hbase : Records env p.SameFound [] (env.checkReceiverBase receiver.base) := by
      intro q u r hq hrun
      obtain ⟨-, rfl⟩ := env.of_checkReceiverBase_eq_ok hrun
      exact ⟨hq, .of_same rfl rfl⟩
    rw [Option.map_some, Option.getD_some, List.map_append, List.append_assoc,
      ← List.nil_append (_ ++ _)]
    refine .bind hbase fun _ => ?_
    refine .bind (h.typeExpr_records _ receiver.type) fun type => ?_
    refine .bind (h.signature_records _ decl.signature) fun sig => ?_
    exact (Records.define (fun _ _ hq => hq) (.func ⟨decl.name.text,
      { sig with receiver := some ⟨receiver.name, type⟩ }, decl.name.position, .package⟩)).map
        fun _ => receiver.base.text

theorem Env.TypesKnown.resolveMethods_records (decls : List MethodDecl)
    (seen : List (String × String)) :
    Records env p.SameFound (decls.flatMap MethodDecl.outlines)
      (env.resolveMethods seen decls) := by
  induction decls generalizing seen with
  | nil => exact .pure
  | cons decl decls ih =>
    refine .bind (h.resolveMethod_records decl) fun base => ?_
    split
    · exact ih seen
    · split
      · exact .fail
      · exact ih _

/-- What is recorded after the types. -/
theorem Env.TypesKnown.resolveOthers_records (file : SourceFile) :
    Records env p.SameFound
      ((file.valueSpecs.flatMap ValueSpec.elements).map .ofElement ++
        (file.valueSpecs.flatMap (fun spec => spec.names.map spec.outlineOf) ++
          (file.funcDecls.flatMap FuncDecl.outlines ++
            file.methodDecls.flatMap MethodDecl.outlines)))
      (env.resolveOthers file) := by
  have hvalues : Records env p.SameFound
      (file.valueSpecs.flatMap fun spec => spec.names.map spec.outlineOf)
      (modify fun p => { p with
        definitions := p.definitions ++ file.valueSpecs.flatMap ValueSpec.definitions }) := by
    intro q u r hq hrun
    rw [modify_eq_ok_iff] at hrun
    subst hrun
    refine ⟨hq, fun o => ?_⟩
    have houtlines : (file.valueSpecs.flatMap ValueSpec.definitions).map Definition.outline =
        file.valueSpecs.flatMap fun spec => spec.names.map spec.outlineOf := by
      rw [List.map_flatMap]
      refine List.flatMap_congr fun spec _ => ?_
      rw [ValueSpec.definitions, List.map_map]
      refine List.map_congr_left fun name _ => ?_
      simp only [Function.comp, ValueSpec.outlineOf]
      split <;> rfl
    show ((q.definitions ++ file.valueSpecs.flatMap ValueSpec.definitions).map
      Definition.outline).count o + _ = _
    rw [List.map_append, List.count_append, houtlines]
    rfl
  unfold Env.resolveOthers
  rw [List.map_flatMap]
  refine .bind (.forM (ValueSpec.resolveType_records h) _) fun _ => ?_
  refine .bind hvalues fun _ => ?_
  exact .bind (.forM h.resolveFunc_records _) fun _ => h.resolveMethods_records _ _

end

/-! ## Names that are found -/

namespace SourceFile

variable {file : SourceFile} {config : Config}

theorem nodup_typeNames {scope : FileScope}
    (h : FileScope.ofDeclarations file.path file.declarations = .ok scope) :
    file.typeNames.Nodup := by
  obtain ⟨-, hnodup, -⟩ := FileScope.ofDeclarations_eq_ok_iff.mp h
  refine List.Nodup.sublist ?_ hnodup
  unfold typeNames typeSpecs
  generalize file.declarations = ds
  induction ds with
  | nil => exact .slnil
  | cons d ds ih =>
    unfold FileScope.introduced at ih ⊢
    rw [List.flatMap_cons, List.map_append]
    cases d with
    | type spec =>
      by_cases hblank : spec.name.text = "_"
      · simpa [hblank, Declaration.introduced, Declaration.names, FileScope.entered,
          FileScope.introducesNothing] using ih
      · simpa [hblank, Declaration.introduced, Declaration.names, FileScope.entered,
          FileScope.introducesNothing] using ih.cons_cons spec.name.text
    | _ => exact ih.trans (List.sublist_append_right _ _)

theorem mem_typeNames {name : String} : name ∈ file.typeNames ↔
    ∃ spec ∈ file.typeSpecs, spec.name.text = name ∧ name ≠ "_" := by
  simp only [typeNames, List.mem_map, List.mem_filter, bne_iff_ne]
  constructor
  · rintro ⟨spec, ⟨hspec, hblank⟩, rfl⟩
    exact ⟨spec, hspec, rfl, hblank⟩
  · rintro ⟨spec, hspec, rfl, hblank⟩
    exact ⟨spec, ⟨hspec, hblank⟩, rfl⟩

section

variable (h : file.Entered config env p)
include h

theorem Entered.lookup_eq_some {name : String} {spec : TypeSpec} :
    env.scope.lookup name = some (.type spec) ↔
      spec ∈ file.typeSpecs ∧ spec.name.text = name ∧ name ≠ "_" := by
  rw [mem_typeSpecs]
  exact FileScope.lookup_eq_type_iff h.scope

/-- How often a name is found: a defined type once, and another name for a type as often as its
right-hand side is resolved, which is once at least. -/
theorem Entered.count_foundNames {name : String} (hname : name ∈ file.typeNames) :
    p.foundNames.count name = if env.scope.isAlias name then p.timesFound name else 1 := by
  obtain ⟨spec, hspec, rfl, hblank⟩ := mem_typeNames.mp hname
  have hconsistent := h.consistent
  obtain ⟨type, htype⟩ := (h.specs spec hspec).named hblank
  rw [Progress.foundNames, List.count_append]
  split
  · next halias =>
    have hnot : spec.name.text ∉ p.entered.map fun e => e.name.text := by
      intro hmem
      obtain ⟨e, he, hename⟩ := List.mem_map.mp hmem
      have hdefined := hconsistent.isAlias_entered he
      rw [hename, halias] at hdefined
      cases hdefined
    rw [List.count_eq_zero_of_not_mem hnot, Nat.zero_add]
    rfl
  · next halias =>
    rw [Bool.not_eq_true] at halias
    obtain ⟨e, he, hename, -⟩ := Env.entered_of_typeOf? halias htype
    have hmem : spec.name.text ∈ p.entered.map fun e => e.name.text := by
      rw [← hename]
      exact List.mem_map_of_mem he
    have hnot : spec.name.text ∉ p.aliases.map Prod.fst := by
      intro hmem
      obtain ⟨a, ha, haname⟩ := List.mem_map.mp hmem
      obtain ⟨-, spec', hspec', halias', -⟩ := hconsistent.aliases a ha
      rw [← haname, FileScope.isAlias_eq hspec', halias'] at halias
      cases halias
    rw [List.count_eq_one_of_mem hconsistent.distinct hmem, List.count_eq_zero_of_not_mem hnot]

theorem Entered.timesFound_pos {name : String} (hname : name ∈ file.typeNames)
    (halias : env.scope.isAlias name = true) : 0 < p.timesFound name := by
  obtain ⟨spec, hspec, rfl, hblank⟩ := mem_typeNames.mp hname
  obtain ⟨type, htype⟩ := (h.specs spec hspec).named hblank
  rw [Env.typeOf?, if_pos halias] at htype
  obtain ⟨l, r, hlr, -⟩ := List.lookup_eq_some_iff.mp htype
  refine List.count_pos_iff.mpr ?_
  simp [hlr]

theorem Entered.mem_typeNames_of_found {name : String} (hname : name ∈ p.foundNames) :
    name ∈ file.typeNames := by
  have hlookup : ∃ spec, env.scope.lookup name = some (.type spec) := by
    rcases List.mem_append.mp hname with hname | hname
    · obtain ⟨e, he, rfl⟩ := List.mem_map.mp hname
      obtain ⟨spec, hspec, -⟩ := h.consistent.declared e he
      exact ⟨spec, hspec⟩
    · obtain ⟨a, ha, rfl⟩ := List.mem_map.mp hname
      obtain ⟨-, spec, hspec, -⟩ := h.consistent.aliases a ha
      exact ⟨spec, hspec⟩
  obtain ⟨spec, hspec⟩ := hlookup
  exact mem_typeNames.mpr ⟨spec, h.lookup_eq_some.mp hspec⟩

/-- The names that are found are the declared ones, and those that are found again. -/
theorem Entered.perm_foundNames :
    p.foundNames.Perm (file.typeNames ++ p.foundNames.diff file.typeNames) := by
  refine (List.subperm_append_diff_self_of_count_le fun name hname => ?_).symm
  have hnodup := nodup_typeNames h.scope
  rw [List.count_eq_one_of_mem hnodup hname, h.count_foundNames hname]
  split
  · next halias => exact h.timesFound_pos hname halias
  · exact Nat.le_refl 1

/-- Only other names for types are found again. -/
theorem Entered.mem_foundAgain {name : String} (hname : name ∈ p.foundNames.diff file.typeNames) :
    name ∈ file.typeNames ∧ env.scope.isAlias name = true ∧ p.timesFound name ≠ 1 := by
  have hmem := h.mem_typeNames_of_found (List.diff_subset _ _ hname)
  have hagain := List.count_pos_iff.mpr hname
  have hcount := h.perm_foundNames.count_eq name
  rw [List.count_append, List.count_eq_one_of_mem (nodup_typeNames h.scope) hmem,
    h.count_foundNames hmem] at hcount
  refine ⟨hmem, ?_⟩
  split at hcount
  · next halias => exact ⟨halias, by omega⟩
  · omega

end

end SourceFile

/-! ## How often something is defined -/

/-- What declarations of types record at their places, and when their names are found, is what they
ask for, apart from the elements that are ignored. -/
theorem TypeSpec.count_outlines (specs : List TypeSpec) (o : Outline) :
    (specs.flatMap recorded).count o +
        (((specs.filter fun spec => spec.name.text != "_").flatMap elements).map
          Outline.ofElement).count o +
        ((specs.flatMap ignoredElements).map Outline.ofElement).count o =
      (specs.flatMap outlines).count o := by
  induction specs with
  | nil => rfl
  | cons spec specs ih =>
    rw [List.filter_cons]
    by_cases hblank : spec.name.text = "_"
    · simp only [hblank, List.flatMap_cons, List.map_append, List.count_append, recorded,
        ignoredElements, outlines, bne_self_eq_false, Bool.false_eq_true, if_false, if_true,
        beq_self_eq_true, Bool.or_true]
      omega
    · have hnamed : (spec.name.text != "_") = true := by simpa using hblank
      have hbeq : (spec.name.text == "_") = false := by simpa using hblank
      cases halias : spec.isAlias <;>
      · simp only [hblank, hnamed, hbeq, halias, List.flatMap_cons, List.map_append,
          List.count_append, recorded, ignoredElements, elements, outlines, if_true, if_false,
          Bool.false_eq_true, List.map_nil, List.count_nil, Bool.or_false]
        omega

/-- The names of a declaration are its identifiers and the commas between them. -/
theorem ValueSpec.count_names (spec : ValueSpec) (o : Outline) :
    (spec.names.map spec.outlineOf).count o =
      (spec.identifiers.map spec.outlineOf).count o + (spec.commas.map spec.outlineOf).count o := by
  rw [← List.count_append, ← List.map_append]
  refine List.Perm.count_eq (.map _ ?_) o
  unfold identifiers commas
  by_cases hconstant : spec.constant = true
  · rw [if_pos hconstant, if_pos hconstant]
    simpa [bne] using
      (List.filter_append_perm (fun name : Piece => name.text != ",") spec.names).symm
  · rw [if_neg hconstant, if_neg hconstant, List.append_nil]

theorem ValueSpec.count_outlines (specs : List ValueSpec) (o : Outline) :
    ((specs.flatMap elements).map Outline.ofElement).count o +
        (specs.flatMap fun spec => spec.names.map spec.outlineOf).count o =
      (specs.flatMap outlines).count o +
        (specs.flatMap fun spec => spec.commas.map spec.outlineOf).count o := by
  induction specs with
  | nil => rfl
  | cons spec specs ih =>
    have hnames := spec.count_names o
    simp only [List.flatMap_cons, List.map_append, List.count_append, outlines] at *
    omega

namespace SourceFile

variable {file : SourceFile} {config : Config} {result : ResolvedFile}

/-- What is found is what the declarations of the names ask for, and again what those ask for that
are found again. -/
theorem Entered.count_found (h : file.Entered config env p) (o : Outline) :
    (env.found p).count o =
      (((file.typeSpecs.filter fun spec => spec.name.text != "_").flatMap TypeSpec.elements).map
          Outline.ofElement).count o +
        ((file.elementsAgain env p).map Outline.ofElement).count o := by
  have hnamed : file.typeNames.flatMap env.scope.elementsOf =
      (file.typeSpecs.filter fun spec => spec.name.text != "_").flatMap TypeSpec.elements := by
    rw [typeNames, List.flatMap_map]
    refine List.flatMap_congr fun spec hspec => ?_
    obtain ⟨hmem, hblank⟩ := List.mem_filter.mp hspec
    exact FileScope.elementsOf_eq (h.lookup_eq_some.mpr ⟨hmem, rfl, by simpa using hblank⟩)
  rw [Env.found, ((h.perm_foundNames.flatMap_right _).map _).count_eq, List.flatMap_append,
    List.map_append, List.count_append, hnamed, elementsAgain]

/-- Entering the types keeps what every step keeps. When it is done, the outlines of the type
declarations are recorded, and of what their names found. -/
theorem enterTypes_records (henter : file.enterTypes config = .ok (env, p))
    (hdefine : ∀ p d, I p → I (p.define d)) (hnames : ∀ name, Records env I [] (env.enter name))
    (hempty : I {}) :
    I p ∧ ∀ o, p.outlines.count o =
      (file.typeSpecs.flatMap TypeSpec.recorded).count o + (env.found p).count o := by
  obtain ⟨scope, hscope, henter⟩ := Except.bind_eq_ok_iff.mp henter
  obtain ⟨⟨_, p'⟩, hrun, henter⟩ := Except.bind_eq_ok_iff.mp henter
  cases henter
  obtain ⟨hp, hbalance⟩ :=
    Records.forM (Env.resolveTypeSpec_records hdefine hnames) file.typeSpecs {} () p hempty hrun
  refine ⟨hp, fun o => ?_⟩
  simpa [Progress.outlines, Env.found, Progress.foundNames] using hbalance o

/-- A definition is made as often as the declarations ask for it, and further for commas that are
kept as names and for names that are found again; the elements that are ignored are missing. -/
theorem count_outlines (h : file.resolve config = .ok result)
    (henter : file.enterTypes config = .ok (env, p)) (o : Outline) :
    (result.definitions.map Definition.outline).count o +
        (file.ignoredElements.map Outline.ofElement).count o =
      file.outlines.count o + file.commas.count o +
        ((file.elementsAgain env p).map Outline.ofElement).count o := by
  rw [resolve_eq] at h
  obtain ⟨⟨env', q⟩, hsettle, h⟩ := Except.bind_eq_ok_iff.mp h
  obtain ⟨⟨_, q'⟩, hcheck, h⟩ := Except.bind_eq_ok_iff.mp h
  obtain ⟨⟨_, r⟩, hothers, h⟩ := Except.bind_eq_ok_iff.mp h
  cases h
  obtain ⟨-, hsame⟩ := Env.of_checkContainment_eq_ok hcheck
  subst hsame
  obtain ⟨p', henter', hsettled⟩ := settled_of_settleTypes hsettle
  cases henter'.symm.trans henter
  have hentered := enterTypes_ok henter
  obtain ⟨-, hrecorded⟩ := enterTypes_records (I := fun _ => True) henter (fun _ _ h => h)
    (Env.enterType_records (FileScope.named_ofDeclarations hentered.scope) _ []) trivial
  have hfirst := hrecorded o
  have hfound := hentered.count_found o
  -- settling leaves the definitions and what was found
  have houtlines : q.outlines = p.outlines := by
    rw [hsettled.same]
    rfl
  obtain ⟨hkept, hbalance⟩ :=
    hsettled.known.resolveOthers_records file q () r ⟨rfl, rfl⟩ hothers
  have hrest := hbalance o
  rw [hkept.found, houtlines] at hrest
  have htypes := TypeSpec.count_outlines file.typeSpecs o
  have hvalues := ValueSpec.count_outlines file.valueSpecs o
  simp only [List.count_append] at hrest
  simp only [outlines, ignoredElements, commas, List.count_append]
  show r.outlines.count o + _ = _
  omega

end SourceFile

end GoSignatures

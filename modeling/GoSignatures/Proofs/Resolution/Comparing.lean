import GoSignatures.Proofs.Recursion.Erasing
import GoSignatures.Proofs.Report.Erasing
import GoSignatures.Proofs.Report.Parting
import GoSignatures.Proofs.Resolution.Failing
import GoSignatures.Proofs.Resolution.Matching

/-!
# Only declarations matter

Two files with the same declarations are both refused, with errors of one kind, or both accepted,
and then every report on the one is written as that on the other. So neither comments nor the bodies
of functions nor the values of variables have any influence, on what is reported and on what is
refused, although they move what follows them. Imports have one only as far as unqualified names of
imported types come from them.

* `Env.Matches.enterType` — declared names are entered alike
* `Env.Matches.resolveAll` — all declarations are resolved alike, stage by stage
* `SourceFile.Reimported.told_resolve` — what is found in both files looks alike
* `SourceFile.Alike.matches_of_resolve` — the same functions are found, in the same order
* `SourceFile.Alike.sameOutcome` — the same errors and the same reports
-/

namespace GoSignatures

open Resolve

/-! ## Type parameters -/

theorem TypeParamDecl.allNames_of_allAlike {decls decls' : List TypeParamDecl}
    (h : allAlike decls decls' = true) : allNames decls = allNames decls' := by
  induction decls generalizing decls' with
  | nil =>
    cases decls' with
    | nil => rfl
    | cons => cases h
  | cons decl decls ih =>
    cases decls' with
    | nil => cases h
    | cons decl' decls' =>
      simp only [allAlike, Bool.and_eq_true, beq_iff_eq] at h
      obtain ⟨⟨hnames, -⟩, hdecls⟩ := h
      have ih := ih hdecls
      simp only [allNames, List.flatMap_cons] at ih ⊢
      rw [hnames, ih]

theorem TypeParamDecl.isEmpty_of_allAlike {decls decls' : List TypeParamDecl}
    (h : allAlike decls decls' = true) : decls.isEmpty = decls'.isEmpty := by
  cases decls <;> cases decls' <;> first | rfl | cases h

/-! ## Declared types -/

variable {v : Ty → Ty} {N : String → Prop} {env env' : Env}

section

variable (hv : Ty.View v) (h : env.Matches v N env') {enter enter' : EnterType}
  (henter : enter.Matches v enter')
include hv h henter

theorem TypeSpec.resolveParams_matches {spec spec' : TypeSpec}
    (halike : TypeParamDecl.allAlike spec.typeParams spec'.typeParams = true)
    (hN : ∀ u ∈ TypeParamDecl.allUses (TypeParamDecl.allNames spec.typeParams) spec.typeParams,
      N u.1) (place : Nat) :
    Matches v id (spec.resolveParams env enter place) (spec'.resolveParams env' enter' place) := by
  have hnames := TypeParamDecl.allNames_of_allAlike halike
  have hempty := TypeParamDecl.isEmpty_of_allAlike halike
  have hreads := readAlike_of_uses (TypeParamDecl.allUses_eq_filter spec.typeParams) hN
    fun _ _ => rfl
  unfold TypeSpec.resolveParams
  rw [← hempty, ← hnames]
  split
  · exact .pure rfl
  · exact (TypeParamDecl.resolveAll_matches hv h henter halike hreads).bind
      fun _ _ hparams => .modify fun p p' hp => hp.setTypeParams place hparams

theorem TypeSpec.resolveDefined_matches {spec spec' : TypeSpec} (hspecs : spec.alike spec' = true)
    (halias : spec.isAlias = false) (hN : ∀ u ∈ spec.uses, N u.1) {place : Nat}
    (hplace : place ≠ errorId) :
    Matches v id (spec.resolveDefined env enter place)
      (spec'.resolveDefined env' enter' place) := by
  obtain ⟨-, -, hparams, htype⟩ := TypeSpec.of_alike hspecs
  have hnames := TypeParamDecl.allNames_of_allAlike hparams
  have hscope : spec.params = TypeParamDecl.allNames spec.typeParams := by
    simp [TypeSpec.params, halias]
  obtain ⟨hconstraints, hright⟩ := List.forall_mem_append.mp hN
  rw [TypeSpec.constraintUses, halias, if_neg (by simp), hscope] at hconstraints
  rw [TypeSpec.rightUses, hscope] at hright
  have hreads := readAlike_of_uses (TypeExpr.uses_eq_filter spec.type) hright fun _ _ => rfl
  rw [resolveDefined_eq, resolveDefined_eq, ← hnames]
  refine (resolveParams_matches hv h henter hparams hconstraints place).bind fun _ _ _ => ?_
  refine (TypeExpr.resolve_matches hv h henter spec.type spec'.type htype hreads).bind
    fun type type' htypes => ?_
  exact .modify fun p p' hp => hp.finish hv hplace htypes

end

/-- A name stands for alike types in alike scopes, or for a type in neither. -/
theorem FileScope.Alike.lookup_type {scope scope' : FileScope} (h : scope.Alike scope')
    (name : String) :
    (∃ spec spec', scope.lookup name = some (.type spec) ∧
      scope'.lookup name = some (.type spec') ∧ spec.alike spec' = true) ∨
        (∀ spec, scope.lookup name ≠ some (.type spec)) ∧
          ∀ spec, scope'.lookup name ≠ some (.type spec) := by
  have hlookup := h.lookup name
  generalize scope.lookup name = found, scope'.lookup name = found' at hlookup
  cases hlookup with
  | none => exact .inr ⟨nofun, nofun⟩
  | @some e e' hentry =>
    cases e <;> cases e' <;> first
      | exact .inl ⟨_, _, rfl, rfl, hentry⟩
      | exact absurd hentry Bool.false_ne_true
      | exact .inr ⟨nofun, nofun⟩

theorem Progress.view_settled (p : Progress) (table : Table) :
    view v { p with table, pending := [] } =
      { p.view v with table := table.view v, pending := [] } := rfl

/-- The same type is the first to contain itself in tables that look alike. -/
theorem Progress.Matches.find?_containsItself {p p' : Progress} (hp : p.Matches v p')
    (hv : Ty.View v) :
    (p.entered.find? fun e => p.table.containsItself e.id).map EnteredType.erase =
      (p'.entered.find? fun e => p'.table.containsItself e.id).map EnteredType.erase := by
  have hmap : ∀ p : Progress,
      (p.entered.map EnteredType.erase).find? (fun e => p.table.containsItself e.id) =
        (p.entered.find? fun e => p.table.containsItself e.id).map EnteredType.erase :=
    fun _ => List.find?_map ..
  have htest : (fun e : EnteredType => p.table.containsItself e.id) =
      fun e => p'.table.containsItself e.id :=
    funext fun e => hv.containsItself hp.table e.id
  rw [← hmap, ← hmap, hp.entered, htest]

namespace Env.Matches

variable (h : env.Matches v N env')
include h

section

variable (hv : Ty.View v) {depth : Nat}
  (ih : ∀ resolving, EnterType.Matches v (env.enterType depth resolving)
    (env'.enterType depth resolving))
  {name name' : Piece} (hname : name.text = name'.text) {spec spec' : TypeSpec}
  (hspec : env.scope.lookup name.text = some (.type spec))
  (hspec' : env'.scope.lookup name'.text = some (.type spec'))
  (hspecs : spec.alike spec' = true) (hN : ∀ u ∈ spec.uses, N u.1) (resolving : List String)
include hv ih hname hspec hspec' hspecs hN

/-- Another name for a type is resolved through once, unless that is in progress. -/
theorem enterType_alias (halias : spec.isAlias = true) :
    Resolve.Matches v v (env.enterType (depth + 1) resolving name)
      (env'.enterType (depth + 1) resolving name') := by
  obtain ⟨-, haliases, -, htype⟩ := TypeSpec.of_alike hspecs
  have halias' : spec'.isAlias = true := haliases ▸ halias
  have hright : spec.rightUses = spec.type.uses [] := by
    rw [TypeSpec.rightUses, TypeSpec.params, if_pos halias]
  have hreads : ∀ u ∈ spec.type.uses [], ReadAlike N [] [] u.1 :=
    fun u hu => ⟨rfl, fun _ => hN u (List.mem_append_right _ (hright.symm ▸ hu))⟩
  intro p p' hp
  rcases Option.of_map_eq_map (hp.lookup_aliases name.text) with
    ⟨hleft, hright⟩ | ⟨type, type', hleft, hright, hsame⟩
  · rw [hname] at hright
    rw [enterType_alias_new hspec halias hleft, enterType_alias_new hspec' halias' hright, ← hname]
    split
    · exact .inl ⟨_, _, rfl, rfl, rfl⟩
    · exact (TypeExpr.resolve_matches hv h (ih _) spec.type spec'.type htype hreads).bind
        (fun _ _ htypes => (Resolve.Matches.modify
          fun q q' hq => hq.addAlias name.text htypes).bind fun _ _ _ => .pure htypes) p p' hp
  · rw [hname] at hright
    rw [enterType_alias_known hspec halias hleft, enterType_alias_known hspec' halias' hright]
    exact Resolve.Matches.pure hsame p p' hp

/-- A defined type is entered once, at the same place of both tables. -/
theorem enterType_defined (halias : spec.isAlias = false) :
    Resolve.Matches v v (env.enterType (depth + 1) resolving name)
      (env'.enterType (depth + 1) resolving name') := by
  obtain ⟨hspecName, haliases, -, -⟩ := TypeSpec.of_alike hspecs
  have halias' : spec'.isAlias = false := haliases ▸ halias
  intro p p' hp
  rcases Option.of_map_eq_map (hp.enteredType? name.text) with
    ⟨hleft, hright⟩ | ⟨e, e', hleft, hright, hsame⟩
  · rw [hname] at hright
    have hplace : p.table.size ≠ errorId := Nat.ne_of_gt hp.hasError.lt_size
    rw [enterType_new hspec halias hleft, enterType_new hspec' halias' hright, ← hp.size,
      ← h.packageName]
    exact (TypeSpec.resolveDefined_matches hv h (ih []) hspecs halias hN hplace).bind
      (fun _ _ _ => .pure rfl) _ _ (hp.enter hspecName env.packageName)
  · rw [hname] at hright
    have hid : e.id = e'.id := by
      show e.erase.id = e'.erase.id
      rw [hsame]
    rw [enterType_entered hspec halias hleft, enterType_entered hspec' halias' hright, hid]
    exact Resolve.Matches.pure rfl p p' hp

end

/-- Declared names are entered alike, however deep the declarations nest. -/
theorem enterType (hv : Ty.View v) (hN : env.UsesOnly N) (depth : Nat) (resolving : List String) :
    EnterType.Matches v (env.enterType depth resolving) (env'.enterType depth resolving) := by
  induction depth generalizing resolving with
  | zero => exact fun _ _ _ => .fail rfl
  | succ depth ih =>
    intro name name' hname
    rcases h.scope.lookup_type name.text with ⟨spec, spec', hspec, hspec', hspecs⟩ | ⟨hno, hno'⟩
    · rw [hname] at hspec'
      have huses := hN _ _ hspec
      cases halias : spec.isAlias with
      | true => exact h.enterType_alias hv ih hname hspec hspec' hspecs huses resolving halias
      | false => exact h.enterType_defined hv ih hname hspec hspec' hspecs huses resolving halias
    · rw [hname] at hno'
      rw [enterType_of_no_type hno, enterType_of_no_type hno']
      exact .fail rfl

theorem enter (hv : Ty.View v) (hN : env.UsesOnly N) :
    EnterType.Matches v env.enter env'.enter := by
  unfold Env.enter
  rw [← h.scope.nesting]
  exact h.enterType hv hN env.scope.nesting []

/-! ## Types of a file -/

theorem resolveTypeSpec (hv : Ty.View v) (hN : env.UsesOnly N) {spec spec' : TypeSpec}
    (hspecs : spec.alike spec' = true)
    (hblank : spec.name.text = "_" → ∀ u ∈ spec.type.uses [], N u.1) :
    Resolve.Matches v id (env.resolveTypeSpec spec) (env'.resolveTypeSpec spec') := by
  obtain ⟨hname, halias, -, htype⟩ := TypeSpec.of_alike hspecs
  have hdefine : ∀ type type' : Ty, v type = v type' → Resolve.Matches v id
      (modify fun p : Progress => p.define
        (.type ⟨spec.name.text, type, spec.isAlias, spec.name.position⟩) : Resolve Unit)
      (modify fun p : Progress => p.define
        (.type ⟨spec.name.text, type', spec'.isAlias, spec'.name.position⟩) : Resolve Unit) := by
    refine fun type type' htypes => .modify fun p p' hp => hp.define ?_
    simp only [Definition.view, halias, htypes]
  simp only [Env.resolveTypeSpec, ← hname]
  split
  · next hunnamed =>
    have hreads : ∀ u ∈ spec.type.uses [], ReadAlike N [] [] u.1 :=
      fun u hu => ⟨rfl, fun _ => hblank hunnamed u hu⟩
    exact (TypeExpr.resolve_matches hv h (h.enter hv hN) spec.type spec'.type htype hreads).bind
      hdefine
  · exact (h.enter hv hN spec.name spec'.name hname).bind hdefine

omit h in
/-- A recursive type is refused with an error of the same kind, whichever it is. -/
theorem failRecursive (place place' : Nat) :
    Resolve.Matches v id (env.failRecursive place) (env'.failRecursive place') := by
  intro p p' _
  obtain ⟨e, name, he, hcause⟩ := @failRecursive_eq env p place
  obtain ⟨e', name', he', hcause'⟩ := @failRecursive_eq env' p' place'
  exact .inl ⟨e, e', he, he', by rw [hcause, hcause']; rfl⟩

omit h in
theorem settlePending : Resolve.Matches v id env.settlePending env'.settlePending := by
  unfold Env.settlePending
  refine .get fun p p' hp => ?_
  have hsettle : (p.table.settle p.pending).map (Table.view v) =
      (p'.table.settle p'.pending).map (Table.view v) := by
    rw [← Table.settle_view, ← Table.settle_view, hp.table, hp.pending]
  cases hleft : p.table.settle p.pending with
  | error place =>
    cases hright : p'.table.settle p'.pending with
    | error place' => exact failRecursive place place'
    | ok table' =>
      rw [hleft, hright] at hsettle
      cases hsettle
  | ok table =>
    cases hright : p'.table.settle p'.pending with
    | error place' =>
      rw [hleft, hright] at hsettle
      cases hsettle
    | ok table' =>
      rw [hleft, hright] at hsettle
      have htables : table.view v = table'.view v := Except.ok.inj hsettle
      refine .set ⟨?_, hp.hasError.settle hp.waiting hleft,
        hp.hasError'.settle (hp.pending ▸ hp.waiting) hright, List.forall_mem_nil _⟩
      rw [Progress.view_settled, Progress.view_settled, hp.view, htables]

omit h in
theorem checkContainment (hv : Ty.View v) :
    Resolve.Matches v id env.checkContainment env'.checkContainment := by
  unfold Env.checkContainment
  refine .get fun p p' hp => ?_
  rcases Option.of_map_eq_map (hp.find?_containsItself hv) with
    ⟨hleft, hright⟩ | ⟨e, e', hleft, hright, -⟩
  · rw [hleft, hright]
    exact .pure rfl
  · rw [hleft, hright]
    exact failRecursive e.id e'.id

/-! ## Values, functions and methods -/

section

variable (hv : Ty.View v) (hN : env.UsesOnly N)
include hv hN

theorem resolveType {spec spec' : ValueSpec} (hspecs : spec.alike spec' = true)
    (huses : ∀ type, spec.type = some type → ∀ u ∈ type.uses [], N u.1) :
    Resolve.Matches v id (spec.resolveType env) (spec'.resolveType env') := by
  obtain ⟨-, -, htype⟩ := ValueSpec.of_alike hspecs
  unfold ValueSpec.resolveType
  cases hleft : spec.type with
  | none =>
    cases hright : spec'.type with
    | none => exact .pure rfl
    | some type' =>
      rw [hleft, hright] at htype
      cases htype
  | some type =>
    cases hright : spec'.type with
    | none =>
      rw [hleft, hright] at htype
      cases htype
    | some type' =>
      rw [hleft, hright] at htype
      have hreads : ∀ u ∈ type.uses [], ReadAlike N [] [] u.1 :=
        fun u hu => ⟨rfl, fun _ => huses type hleft u hu⟩
      exact (TypeExpr.resolve_matches hv h (h.enter hv hN) type type' htype hreads).bind
        fun _ _ _ => .pure rfl

theorem resolveFunc {decl decl' : FuncDecl} (hdecls : decl.alike decl' = true)
    (huses : ∀ u ∈ decl.uses, N u.1) :
    Resolve.Matches v id (env.resolveFunc decl) (env'.resolveFunc decl') := by
  obtain ⟨hname, hparams, hsig⟩ := FuncDecl.of_alike hdecls
  obtain ⟨hparamUses, hsigUses⟩ := List.forall_mem_append.mp huses
  have hnames := TypeParamDecl.allNames_of_allAlike hparams
  have hparamReads := readAlike_of_uses
    (TypeParamDecl.allUses_eq_filter decl.typeParams) hparamUses fun _ _ => rfl
  have hsigReads := readAlike_of_uses
    (SignatureExpr.uses_eq_filter decl.signature) hsigUses fun _ _ => rfl
  simp only [Env.resolveFunc, ← hnames]
  refine (TypeParamDecl.resolveAll_matches hv h (h.enter hv hN) hparams hparamReads).bind
    fun params params' hparams => (SignatureExpr.resolve_matches hv h (h.enter hv hN)
      decl.signature decl'.signature hsig hsigReads).bind
      fun sig sig' hsig => .modify fun p p' hp => hp.define ?_
  simp only [Signature.view, Signature.mk.injEq] at hsig
  simp only [Definition.view, FuncDef.view, Signature.view, hname, hparams, hsig]

omit hv hN in
theorem checkReceiverBase {base base' : Piece} (hbase : base.text = base'.text) :
    Resolve.Matches v id (env.checkReceiverBase base) (env'.checkReceiverBase base') := by
  have hlookup := h.scope.lookup base.text
  unfold Env.checkReceiverBase
  rw [← hbase]
  generalize env.scope.lookup base.text = found, env'.scope.lookup base.text = found' at hlookup
  cases hlookup with
  | none => exact .fail rfl
  | @some e e' hentry =>
    cases e <;> cases e' <;> first
      | exact .pure rfl
      | exact .fail rfl
      | cases hentry

section

variable {declared : List String} (hdeclared : env.scope.entries.map Prod.fst = declared)
include hdeclared

omit hv hN in
theorem entries_eq : env'.scope.entries.map Prod.fst = declared :=
  hdeclared ▸ (map_eq_map_of_forall₂ h.scope.entries fun _ _ he => he.1).symm

omit hv hN in
/-- Where a receiver has a base that is not declared, a method is refused. -/
theorem resolveMethod_undeclared {decl decl' : MethodDecl} {receiver receiver' : ReceiverExpr}
    (hreceiver : decl.receiver = some receiver) (hreceiver' : decl'.receiver = some receiver')
    (hbase : receiver.base.text ∉ declared) (hbase' : receiver'.base.text ∉ declared) :
    Resolve.Matches v id (env.resolveMethod decl) (env'.resolveMethod decl') := by
  have hlookup := FileScope.lookup_eq_none_iff.mpr (hdeclared ▸ hbase)
  have hlookup' := FileScope.lookup_eq_none_iff.mpr (h.entries_eq hdeclared ▸ hbase')
  intro p p' _
  simp only [Env.resolveMethod, hreceiver, hreceiver', Env.checkReceiverBase, hlookup, hlookup']
  exact .inl ⟨_, _, rfl, rfl, rfl⟩

theorem resolveMethod {decl decl' : MethodDecl} (hdecls : decl.alike declared decl' = true)
    (huses : ∀ u ∈ decl.uses, N u.1) :
    Resolve.Matches v id (env.resolveMethod decl) (env'.resolveMethod decl') := by
  obtain ⟨hreceivers, hname, hsig⟩ := MethodDecl.of_alike hdecls
  cases hreceiver : decl.receiver with
  | none =>
    cases hreceiver' : decl'.receiver with
    | none =>
      simp only [Env.resolveMethod, hreceiver, hreceiver']
      exact .fail rfl
    | some receiver' =>
      rw [hreceiver, hreceiver'] at hreceivers
      cases hreceivers
  | some receiver =>
    cases hreceiver' : decl'.receiver with
    | none =>
      rw [hreceiver, hreceiver'] at hreceivers
      cases hreceivers
    | some receiver' =>
      rw [hreceiver, hreceiver'] at hreceivers
      obtain ⟨hreceiverName, htype, hbase, hparams⟩ := ReceiverExpr.of_alike hreceivers
      have hnames : decl.typeNames =
          (receiver.type.uses [] ++ decl.signature.uses []).map Prod.fst := by
        rw [MethodDecl.typeNames, hreceiver]
        rfl
      have hparams : ∀ u ∈ receiver.type.uses [] ++ decl.signature.uses [],
          receiver.typeParams.contains u.1 = receiver'.typeParams.contains u.1 :=
        fun u hu => hparams u.1 (hnames ▸ List.mem_map_of_mem hu)
      obtain ⟨htypeParams, hsigParams⟩ := List.forall_mem_append.mp hparams
      rw [MethodDecl.uses, MethodDecl.params, hreceiver] at huses
      obtain ⟨htypeUses, hsigUses⟩ := List.forall_mem_append.mp huses
      have htypeReads := readAlike_of_uses (TypeExpr.uses_eq_filter receiver.type)
        htypeUses htypeParams
      have hsigReads := readAlike_of_uses (SignatureExpr.uses_eq_filter decl.signature)
        hsigUses hsigParams
      rcases hbase with hbase | ⟨hbase, hbase'⟩
      · simp only [Env.resolveMethod, hreceiver, hreceiver']
        refine (h.checkReceiverBase hbase).bind fun _ _ _ =>
          (TypeExpr.resolve_matches hv h (h.enter hv hN) receiver.type receiver'.type htype
            htypeReads).bind fun type type' htypes =>
          (SignatureExpr.resolve_matches hv h (h.enter hv hN) decl.signature decl'.signature hsig
            hsigReads).bind fun sig sig' hsigs =>
          (Resolve.Matches.modify fun p p' hp => hp.define ?_).bind fun _ _ _ => .pure hbase
        simp only [Signature.view, Signature.mk.injEq] at hsigs
        simp only [Definition.view, FuncDef.view, Signature.view, Option.map_some, Var.view, hname,
          hreceiverName, htypes, hsigs]
      · exact h.resolveMethod_undeclared hdeclared hreceiver hreceiver' hbase hbase'

/-- Where methods are alike, the same ones are repeated. -/
theorem resolveMethods {decls decls' : List MethodDecl}
    (hdecls : List.Forall₂ (fun d d' => d.alike declared d' = true) decls decls')
    (huses : ∀ decl ∈ decls, ∀ u ∈ decl.uses, N u.1) (seen : List (String × String)) :
    Resolve.Matches v id (env.resolveMethods seen decls) (env'.resolveMethods seen decls') := by
  induction hdecls generalizing seen with
  | nil => exact .pure rfl
  | @cons decl decl' _ _ hdecl _ ih =>
    have hname : decl.name.text = decl'.name.text := (MethodDecl.of_alike hdecl).2.1
    obtain ⟨hfirst, hrest⟩ := List.forall_mem_cons.mp huses
    refine (h.resolveMethod hv hN hdeclared hdecl hfirst).bind fun base base' hbase => ?_
    obtain rfl : base = base' := hbase
    rw [← hname]
    split
    · exact ih hrest seen
    · split
      · exact .fail rfl
      · exact ih hrest _

end

end

end Env.Matches

/-! ## The whole file -/

theorem ValueSpec.definitions_of_alike (v : Ty → Ty) {spec spec' : ValueSpec}
    (h : spec.alike spec' = true) :
    spec.definitions.map (Definition.view v) = spec'.definitions.map (Definition.view v) := by
  obtain ⟨hconstant, hnames, -⟩ := of_alike h
  have hview : ∀ spec : ValueSpec, spec.definitions.map (Definition.view v) =
      (spec.names.map Piece.text).map fun name =>
        if spec.constant then Definition.const ⟨name, {}⟩ else .var ⟨name, {}⟩ := by
    intro spec
    rw [definitions, List.map_map, List.map_map]
    refine List.map_congr_left fun name _ => ?_
    dsimp only [Function.comp]
    split <;> rfl
  rw [hview, hview, hnames, hconstant]

namespace SourceFile.Reimported

variable {file file' : SourceFile} (h : file.Reimported file')
include h

theorem definitions (v : Ty → Ty) :
    (file.valueSpecs.flatMap ValueSpec.definitions).map (Definition.view v) =
      (file'.valueSpecs.flatMap ValueSpec.definitions).map (Definition.view v) := by
  rw [List.map_flatMap, List.map_flatMap, List.flatMap, List.flatMap]
  exact congrArg List.flatten
    (map_eq_map_of_forall₂ h.valueSpecs fun _ _ => ValueSpec.definitions_of_alike v)

/-- All declarations are resolved alike: the types, then the values, the functions and the
methods. -/
theorem resolveAll (hv : Ty.View v) (henv : env.Matches v N env') (hN : env.UsesOnly N)
    (huses : file.UsesOnly N) (hdeclared : env.scope.entries.map Prod.fst = file.declaredNames) :
    Matches v id (env.resolveAll file) (env'.resolveAll file') := by
  have htypes : Matches v id (file.typeSpecs.forM env.resolveTypeSpec)
      (file'.typeSpecs.forM env'.resolveTypeSpec) :=
    .forM h.typeSpecs fun spec hspec _ halike =>
      henv.resolveTypeSpec hv hN halike (huses.blank spec hspec)
  have hvalues : Matches v id (file.valueSpecs.forM (ValueSpec.resolveType env))
      (file'.valueSpecs.forM (ValueSpec.resolveType env')) :=
    .forM h.valueSpecs fun spec hspec _ halike =>
      henv.resolveType hv hN halike (huses.values spec hspec)
  have hfuncs : Matches v id (file.funcDecls.forM env.resolveFunc)
      (file'.funcDecls.forM env'.resolveFunc) :=
    .forM h.funcDecls fun decl hdecl _ halike =>
      henv.resolveFunc hv hN halike (huses.functions decl hdecl)
  have hmethods := henv.resolveMethods hv hN hdeclared h.methodDecls
    (fun decl hdecl => (huses.methods decl hdecl).1) []
  exact htypes.bind fun _ _ _ => Env.Matches.settlePending.bind fun _ _ _ =>
    (Env.Matches.checkContainment hv).bind fun _ _ _ => hvalues.bind fun _ _ _ =>
    (Matches.modify fun p p' hp => hp.addDefinitions (h.definitions v)).bind fun _ _ _ =>
    hfuncs.bind fun _ _ _ => hmethods

end SourceFile.Reimported

/-- What is known about a file without its path and positions, with its types looked at. -/
def ResolvedFile.view (v : Ty → Ty) (file : ResolvedFile) : ResolvedFile where
  path := ""
  packageName := file.packageName
  definitions := file.definitions.map (Definition.view v)
  table := file.table.view v

theorem ResolvedFile.functions_view (v : Ty → Ty) (file : ResolvedFile) :
    (file.view v).functions = file.functions.map (FuncDef.view v) := by
  have hfuncs : (file.view v).definitions.filterMap Definition.func? =
      (file.definitions.filterMap Definition.func?).map (FuncDef.view v) := by
    rw [view, List.filterMap_map, List.map_filterMap]
    exact congrArg (List.filterMap · file.definitions) (funext fun d => by cases d <;> rfl)
  rw [functions, functions, hfuncs, List.filter_map]
  rfl

namespace SourceFile

variable {file file' : SourceFile}

/-- Both files are refused, with errors of one kind, or accepted, and then what is known of them
looks alike through a view through which the types of unqualified names look alike. -/
theorem Reimported.told_resolve (h : file.Reimported file') (hv : Ty.View v)
    (huses : file.UsesOnly N) {config : Config}
    (hdots : ∀ name, N name → ¬ (file.env config).scope.Knows name →
      ((file.env config).dotType? name).map v = ((file'.env config).dotType? name).map v) :
    Except.told (ResolvedFile.view v) (file.resolve config) =
      Except.told (ResolvedFile.view v) (file'.resolve config) := by
  unfold SourceFile.resolve
  rcases h.ofDeclarations with ⟨scope, scope', hscope, hscope', hscopes⟩ |
    ⟨e, e', hscope, hscope'⟩
  · obtain ⟨-, -, rfl⟩ := FileScope.ofDeclarations_eq_ok_iff.mp hscope
    obtain ⟨-, -, rfl⟩ := FileScope.ofDeclarations_eq_ok_iff.mp hscope'
    have henv : (file.env config).Matches v N (file'.env config) :=
      ⟨h.packageName, rfl, hscopes, hdots⟩
    rw [hscope, hscope', Except.ok_bind, Except.ok_bind]
    have hall := (h.resolveAll hv henv (huses.types hscope) huses rfl).told (.initial v)
    refine Except.told_bind hall fun a b hab => ?_
    have hprogress : a.2.view v = b.2.view v := congrArg Prod.snd hab
    have htable : a.2.table.view v = b.2.table.view v := congrArg Progress.table hprogress
    have hdefinitions : a.2.definitions.map (Definition.view v) =
        b.2.definitions.map (Definition.view v) := congrArg Progress.definitions hprogress
    show Except.ok (ResolvedFile.view v _) = Except.ok (ResolvedFile.view v _)
    rw [ResolvedFile.view, ResolvedFile.view, h.packageName, htable, hdefinitions]
  · obtain ⟨name, hcause⟩ := FileScope.cause_of_ofDeclarations_error hscope
    obtain ⟨name', hcause'⟩ := FileScope.cause_of_ofDeclarations_error hscope'
    rw [hscope, hscope']
    exact congrArg Except.error (by rw [hcause, hcause']; rfl)

/-- The unqualified names of imported types that a file uses stand for types of which the same is
known, whether they come from the dot import that is first in the one file or from that which is
first in the other. -/
def ReadsDotsAlike (file file' : SourceFile) (config : Config) : Prop :=
  file.UsesOnly fun name => (file.env config).scope.Knows name ∨
    ((file.env config).dotType? name).map Ty.erase =
      ((file'.env config).dotType? name).map Ty.erase

theorem readsDotsAlike_of_first {config : Config}
    (h : (file.env config).scope.imports.dotImport? =
      (file'.env config).scope.imports.dotImport?) : file.ReadsDotsAlike file' config := by
  refine (UsesOnly.all file).mono fun name _ => .inr ?_
  rw [Env.dotType?, h]
  rfl

end SourceFile

/-! ## Reports -/

theorem FuncDecl.position_of_meaning? {env : Env} {t : Table} {m : Meanings} {decl : FuncDecl}
    {f : FuncDef} (h : decl.meaning? env t m = some f) : f.position = decl.name.position := by
  obtain ⟨_, _, -, -, rfl⟩ := Option.of_return₂_eq_some h
  rfl

theorem MethodDecl.position_of_meaning? {env : Env} {t : Table} {m : Meanings} {decl : MethodDecl}
    {f : FuncDef} (h : decl.meaning? env t m = some f) : f.position = decl.name.position := by
  obtain ⟨_, -, h⟩ := Option.bind_eq_some_iff.mp h
  obtain ⟨_, _, -, -, rfl⟩ := Option.of_return₂_eq_some h
  rfl

/-- Functions are found where they are declared. -/
theorem SourceFile.positions_of_resolve {file : SourceFile} {config : Config}
    {result : ResolvedFile} (h : file.resolve config = .ok result) :
    result.functions.map FuncDef.position = file.functionPlaces := by
  obtain ⟨env, p, functions, methods, -, -, hread, -, -, -, hdeclared⟩ := resolve_ok h
  rw [functions_of_declared hdeclared, List.map_append, functionPlaces,
    map_eq_of_mapM hread.functions fun _ _ => FuncDecl.position_of_meaning?,
    map_eq_of_mapM hread.methods fun _ _ => MethodDecl.position_of_meaning?]

theorem FuncDef.erase_eq_view : FuncDef.erase = FuncDef.view Ty.erase := by
  funext f
  rw [erase, view, Signature.erase_eq_view]

namespace SourceFile

variable {file file' : SourceFile}

/-- Files that are accepted have the same functions in the same order, if they read dot imports
alike. -/
theorem Reimported.matches_of_resolve (h : file.Reimported file') {config : Config}
    (hreads : file.ReadsDotsAlike file' config) {result result' : ResolvedFile}
    (hok : file.resolve config = .ok result) (hok' : file'.resolve config = .ok result') :
    result.Matches result' := by
  have hview : result.view Ty.erase = result'.view Ty.erase := by
    have htold := h.told_resolve Ty.view_erase hreads fun _ => Or.resolve_left
    rw [hok, hok'] at htold
    exact Except.ok.inj htold
  have hfunctions : result.functions.map FuncDef.erase = result'.functions.map FuncDef.erase := by
    rw [FuncDef.erase_eq_view, ← ResolvedFile.functions_view, hview, ResolvedFile.functions_view]
  have horder := h.order
  rw [← positions_of_resolve hok, ← positions_of_resolve hok', List.map_map, List.map_map] at horder
  have hrows := forall₂_of_map_eq_map horder
  refine ⟨?_, ?_, forall₂_of_map_eq_map hfunctions, fun d hd e he => ?_⟩
  · show (result.view Ty.erase).packageName = (result'.view Ty.erase).packageName
    rw [hview]
  · rw [Table.erase_eq_view]
    show (result.view Ty.erase).table = (result'.view Ty.erase).table
    rw [hview]
  · have hrow := (List.forall₂_iff_zip.mp hrows).2 hd
    simp only [Function.comp, List.map_map] at hrow
    exact (List.forall₂_iff_zip.mp (forall₂_of_map_eq_map hrow)).2 he

end SourceFile

namespace SourceFile.Alike

variable {file file' : SourceFile} (h : file.Alike file')
include h

/-- Where the imports are in the same order, the same dot import is first. -/
theorem readsDotsAlike (config : Config) : file.ReadsDotsAlike file' config := by
  refine readsDotsAlike_of_first ?_
  show (Imports.ofDeclarations file.declarations).dots.head? =
    (Imports.ofDeclarations file'.declarations).dots.head?
  rw [Imports.dots_ofDeclarations, Imports.dots_ofDeclarations, h.imports]

theorem told_resolve (config : Config) :
    Except.told (ResolvedFile.view Ty.erase) (file.resolve config) =
      Except.told (ResolvedFile.view Ty.erase) (file'.resolve config) :=
  h.reimported.told_resolve Ty.view_erase (h.readsDotsAlike config) fun _ => Or.resolve_left

theorem matches_of_resolve {config : Config} {result result' : ResolvedFile}
    (hok : file.resolve config = .ok result) (hok' : file'.resolve config = .ok result') :
    result.Matches result' :=
  h.reimported.matches_of_resolve (h.readsDotsAlike config) hok hok'

/-- Two files with the same declarations are both refused, with errors of one kind, or both
accepted, and then all reports on the one are written as those on the other. -/
theorem sameOutcome (config : Config) :
    (∃ e e', file.resolve config = .error e ∧ file'.resolve config = .error e' ∧
      e.cause.ctorIdx = e'.cause.ctorIdx) ∨
    ∃ result result', file.resolve config = .ok result ∧ file'.resolve config = .ok result' ∧
      ∀ path requested,
        (result.report path requested).render = (result'.report path requested).render := by
  rcases Except.of_told_eq_told (h.told_resolve config) with
    herror | ⟨result, result', hok, hok', -⟩
  · exact .inl herror
  · exact .inr ⟨result, result', hok, hok', (h.matches_of_resolve hok hok').render_report⟩

end SourceFile.Alike

/-- A file without comments, with short bodies. -/
def SourceFile.plainText : String :=
  "package a\ntype T struct \x7b n [2]int \x7d\nvar v = 1\nfunc (t *T) M()\n" ++
    "func F(n int) error \x7b return nil \x7d\n"

/-- The same declarations with comments, another value and other bodies. -/
def SourceFile.commentedText : String :=
  "// a\npackage a\ntype T struct \x7b n [/* two */ 2]int \x7d\n" ++
    "var v = f(func(n int) \x7b n++ \x7d)\nfunc (t /* here */ *T) M() \x7b t.n[0] = 1 \x7d\n" ++
    "/* F */ func F(\n\tn int) error \x7b panic(n) \x7d\n"

/-- Comments, bodies and values move the functions, and the report stays. -/
theorem SourceFile.Alike.sameOutcome_ofTexts :
    ∃ file file', read "a.go" plainText = .ok file ∧ read "b.go" commentedText = .ok file' ∧
      file.Alike file' ∧ file.functionPlaces ≠ file'.functionPlaces ∧
      ∃ result result', file.resolve {} = .ok result ∧ file'.resolve {} = .ok result' ∧
        (result.report "c.go" ["F"]).render = (result'.report "c.go" ["F"]).render := by
  have hread : ((read "a.go" plainText).toOption.bind fun file =>
      (read "b.go" commentedText).toOption.map fun file' =>
        decide (file.Alike file' ∧ file.functionPlaces ≠ file'.functionPlaces ∧
          (file.resolve {}).toOption.isSome = true)) = some true := by decide +kernel
  obtain ⟨file, hfile, hread⟩ := Option.bind_eq_some_iff.mp hread
  obtain ⟨file', hfile', hread⟩ := Option.map_eq_some_iff.mp hread
  obtain ⟨halike, hplaces, hok⟩ := of_decide_eq_true hread
  obtain ⟨result, hresult⟩ := Option.isSome_iff_exists.mp hok
  rw [Except.toOption_eq_some_iff] at hfile hfile' hresult
  refine ⟨file, file', hfile, hfile', halike, hplaces, ?_⟩
  rcases sameOutcome halike {} with ⟨e, -, herror, -⟩ | ⟨result, result', hleft, hright, hreports⟩
  · rw [hresult] at herror
    cases herror
  · exact ⟨result, result', hleft, hright, hreports "c.go" ["F"]⟩

end GoSignatures

import GoSignatures.Proofs.Resolution.Failing
import GoSignatures.Proofs.Resolution.Following

/-!
# Resolving in a wider scope

What does not use the name that is added to a scope is resolved alike in both scopes. While types
are entered this goes by the depth up to which declarations nest, which is the same on both sides.
The declarations that follow are resolved when all types are known, so depth plays no part there.

* `Progress.Copied.enter`, `Progress.Copied.finish` — changes on both sides
* `Env.enterType_follows` — names that are entered up to the same depth
* `Env.resolveOthers_follow` — declarations of values, functions and methods
-/

namespace GoSignatures

open Resolve

/-! ## Changes of the progress -/

namespace Progress.Copied

variable {f : Nat → Nat} {extra : List String} {p p' : Progress} (h : p.Copied f extra p')
include h

theorem enter {name : Piece} (hname : extra.contains name.text = false) (packageName : String) :
    (p.enter name packageName).Copied f extra (p'.enter name packageName) where
  table := h.table.declare h.size _ _
  grows n := by
    have hgrows := h.grows (n + 1)
    simp only [Progress.enter, Table.size_declare]
    rw [Nat.add_assoc, Nat.add_comm 1 n, hgrows, Nat.add_assoc, Nat.add_comm 1 n]
  entered := by
    simp only [Progress.enter, List.filter_append, h.entered, List.map_append]
    simp only [List.filter_cons, hname, List.filter_nil, List.map_cons, List.map_nil,
      EnteredType.rename, h.size]
    rfl
  outside := by
    refine List.forall_mem_append.mpr ⟨h.outside, List.forall_mem_singleton.mpr fun hextra => ?_⟩
    rw [hname] at hextra
    cases hextra
  aliases := h.aliases
  waits := h.waits
  waited w hw := (h.waited w hw).imp_right fun ⟨hother, id, hid, htarget⟩ =>
    ⟨hother, id, by
      simp only [Progress.enter, Table.size_declare]
      omega, htarget⟩
  functions := h.functions

theorem addAlias {name : String} (hname : extra.contains name = false) (type : Ty) :
    Copied { p with aliases := p.aliases ++ [(name, type)] } f extra
      { p' with aliases := p'.aliases ++ [(name, type.rename f)] } where
  table := h.table
  grows := h.grows
  entered := h.entered
  outside := h.outside
  aliases := by
    simp only [List.filter_append, h.aliases, List.map_append]
    simp only [List.filter_cons, hname, List.filter_nil, List.map_cons, List.map_nil]
    rfl
  waits := h.waits
  waited := h.waited
  functions := h.functions

theorem setTypeParams (id : Nat) (params : List TypeParam) :
    Copied { p with table := p.table.setTypeParams id params } f extra
      { p' with table := p'.table.setTypeParams (f id) (TypeParam.renames f params) } where
  table := h.table.setTypeParams id params
  grows n := by simpa using h.grows n
  entered := h.entered
  outside := h.outside
  aliases := h.aliases
  waits := h.waits
  waited := by simpa using h.waited
  functions := h.functions

theorem setUnderlying (id : Nat) (type : Ty) :
    Copied { p with table := p.table.setUnderlying id type } f extra
      { p' with table := p'.table.setUnderlying (f id) (type.rename f) } where
  table := h.table.setUnderlying id type
  grows n := by simpa using h.grows n
  entered := h.entered
  outside := h.outside
  aliases := h.aliases
  waits := h.waits
  waited := by simpa using h.waited
  functions := h.functions

theorem addPending (id target : Nat) :
    Copied { p with pending := p.pending ++ [(id, target)] } f extra
      { p' with pending := p'.pending ++ [(f id, f target)] } where
  table := h.table
  grows := h.grows
  entered := h.entered
  outside := h.outside
  aliases := h.aliases
  waits w hw := by
    rcases List.mem_append.mp hw with hw | hw
    · exact List.mem_append_left _ (h.waits w hw)
    · obtain rfl := List.mem_singleton.mp hw
      exact List.mem_append_right _ List.mem_cons_self
  waited w hw := by
    rcases List.mem_append.mp hw with hw | hw
    · exact (h.waited w hw).imp_left fun ⟨v, hv, heq⟩ => ⟨v, List.mem_append_left _ hv, heq⟩
    · exact .inl ⟨(id, target), List.mem_append_right _ List.mem_cons_self,
        List.mem_singleton.mp hw⟩
  functions := h.functions

/-- The right-hand side of a type becomes known in the same way on both sides. -/
theorem finish_cases (place place' : Nat) (type : Ty) :
    (∃ target args, type = .named target args ∧
      p.finish place type = { p with pending := p.pending ++ [(place, target)] } ∧
      p'.finish place' (type.rename f) =
        { p' with pending := p'.pending ++ [(place', f target)] }) ∨
    (p.finish place type =
        { p with table := p.table.setUnderlying place (p.table.underlying type) } ∧
      p'.finish place' (type.rename f) =
        { p' with
          table := p'.table.setUnderlying place' ((p.table.underlying type).rename f) }) := by
  rw [← h.table.underlying]
  rcases p.finish_eq place type with ⟨target, args, rfl, hnone, hfinish⟩ | ⟨hknown, hfinish⟩
  · have hnone' : p'.table.underlying? (f target) = none := by
      rw [h.table.underlying?, hnone, Option.map_none]
    exact .inl ⟨target, args, rfl, hfinish, by simp only [Progress.finish, Ty.rename, hnone']⟩
  · refine .inr ⟨hfinish, ?_⟩
    rcases p'.finish_eq place' (type.rename f) with
      ⟨target', args', htype, hnone, -⟩ | ⟨-, hfinish'⟩
    · cases type <;> cases htype
      next target args =>
        obtain ⟨known, htarget⟩ := hknown target args rfl
        rw [h.table.underlying?, htarget] at hnone
        cases hnone
    · exact hfinish'

theorem finish (id : Nat) (type : Ty) :
    (p.finish id type).Copied f extra (p'.finish (f id) (type.rename f)) := by
  rcases h.finish_cases id (f id) type with ⟨target, args, -, hleft, hright⟩ | ⟨hleft, hright⟩
  · rw [hleft, hright]
    exact h.addPending id target
  · rw [hleft, hright]
    exact h.setUnderlying id _

end Progress.Copied

/-! ## Declared names -/

section

variable {env env' : Env} {fresh : String} {f : Nat → Nat} {extra : List String}

/-- The declarations of types do not use a name, neither for a type nor for a type parameter. -/
def Env.Avoids (env : Env) (fresh : String) : Prop :=
  ∀ name spec, env.scope.lookup name = some (.type spec) →
    fresh ∉ spec.params ∧ ∀ u ∈ spec.uses, u.1 ≠ fresh

/-- The second progress is a copy of the first one. -/
abbrev Progress.Copies (f : Nat → Nat) (extra : List String) (p p' : Progress) : Prop :=
  p.Copied f extra p'

theorem EnterType.parallel_of_copied (hwidens : env.Widens env' fresh) {p p' : Progress}
    (h : p.Copied f extra p') {enter enter' : EnterType}
    (henter : ∀ name : Piece, name.text ≠ fresh →
      Follows (Progress.Copies f extra) (Ty.rename f) (enter name) (enter' name)) :
    EnterType.Parallel env env' fresh f (Progress.Copies f extra) enter enter' where
  widens := hwidens
  error := h.table.error
  comparable := h.table.comparable
  table _ _ h := h.table
  define _ _ h _ _ hd hd' := h.defineMethod hd hd'
  enter := henter

variable (hwidens : env.Widens env' fresh) (hnamed : env.scope.Named) (havoids : env.Avoids fresh)
  (hextra : ∀ name, name ≠ fresh → extra.contains name = false)
include hwidens hnamed havoids hextra

omit hwidens hnamed havoids hextra in
/-- The declaration of a defined type that does not use the additional name is resolved alike. -/
theorem TypeSpec.resolveDefined_follows {enter enter' : EnterType}
    (h : EnterType.Parallel env env' fresh f (Progress.Copies f extra) enter enter')
    {spec : TypeSpec} (halias : spec.isAlias = false) (hparams : fresh ∉ spec.params)
    (huses : ∀ u ∈ spec.uses, u.1 ≠ fresh) (id : Nat) :
    Follows (Progress.Copies f extra) (fun u => u) (spec.resolveDefined env enter id)
      (spec.resolveDefined env' enter' (f id)) := by
  have hnames : spec.params = TypeParamDecl.allNames spec.typeParams := by
    simp [TypeSpec.params, halias]
  obtain ⟨hconstraints, hright⟩ := List.forall_mem_append.mp huses
  rw [TypeSpec.constraintUses, if_neg (by simp [halias]), hnames] at hconstraints
  rw [TypeSpec.rightUses, hnames] at hright
  rw [hnames] at hparams
  have hset : Follows (Progress.Copies f extra) (fun u => u) (spec.resolveParams env enter id)
      (spec.resolveParams env' enter' (f id)) := by
    unfold TypeSpec.resolveParams
    split
    · exact .pure rfl
    · exact (TypeParamDecl.resolveAll_follows h hparams spec.typeParams hconstraints).bind
        fun params => .modify fun p p' hp => hp.setTypeParams id params
  rw [TypeSpec.resolveDefined_eq, TypeSpec.resolveDefined_eq]
  exact hset.bind fun _ => (TypeExpr.resolve_follows h hparams spec.type hright).bind fun type =>
    .modify fun p p' hp => hp.finish id type

theorem Env.enterType_follows (depth : Nat) {resolving resolving' : List String}
    (hresolving : ∀ name, name ≠ fresh → resolving'.contains name = resolving.contains name)
    (name : Piece) (hname : name.text ≠ fresh) :
    Follows (Progress.Copies f extra) (Ty.rename f) (env.enterType depth resolving name)
      (env'.enterType depth resolving' name) := by
  -- both sides stand at the same depth, so what differs is where types are entered
  induction depth generalizing resolving resolving' name with
  | zero => exact .fail
  | succ depth ih =>
    intro p p' hp
    have hparallel : ∀ {resolving resolving' : List String},
        (∀ name, name ≠ fresh → resolving'.contains name = resolving.contains name) →
        EnterType.Parallel env env' fresh f (Progress.Copies f extra)
          (env.enterType depth resolving) (env'.enterType depth resolving') := fun hresolving =>
      EnterType.parallel_of_copied hwidens hp fun name hname => ih hresolving name hname
    cases hlookup : env.scope.lookup name.text with
    | none =>
      simp only [enterType, hwidens.lookup _ hname, hlookup]
      exact Follows.fail p p' hp
    | some entry =>
      have hlookup' := (hwidens.lookup _ hname).trans hlookup
      cases entry with
      | type spec =>
        obtain ⟨hparams, huses⟩ := havoids _ _ hlookup
        by_cases halias : spec.isAlias = true
        · have hnone : spec.params = [] := if_pos halias
          cases hknown : p.aliases.lookup name.text with
          | some type =>
            have hknown' : p'.aliases.lookup name.text = some (type.rename f) := by
              rw [hp.lookup_aliases (hextra _ hname), hknown, Option.map_some]
            rw [enterType_alias_known hlookup halias hknown,
              enterType_alias_known hlookup' halias hknown']
            exact .ok ⟨rfl, hp⟩
          | none =>
            have hknown' : p'.aliases.lookup name.text = none := by
              rw [hp.lookup_aliases (hextra _ hname), hknown, Option.map_none]
            rw [enterType_alias_new hlookup halias hknown,
              enterType_alias_new hlookup' halias hknown', hresolving _ hname]
            split
            · exact .error _ _
            · have hcons : ∀ other, other ≠ fresh → (name.text :: resolving').contains other =
                  (name.text :: resolving).contains other := by
                intro other hother
                rw [List.contains_cons, List.contains_cons, hresolving other hother]
              have hright : ∀ u ∈ spec.type.uses [], u.1 ≠ fresh := by
                rw [← hnone]
                exact (List.forall_mem_append.mp huses).2
              refine Follows.bind (R := Progress.Copies f extra) (TypeExpr.resolve_follows
                (hparallel hcons) List.not_mem_nil spec.type hright) (fun type => ?_) p p' hp
              exact (Follows.modify fun p p' h => h.addAlias (hextra _ hname) type).bind fun _ =>
                .pure rfl
        · rw [Bool.not_eq_true] at halias
          cases hknown : p.enteredType? name.text with
          | some e =>
            have hknown' : p'.enteredType? name.text = some (e.rename f) := by
              rw [hp.enteredType? (hextra _ hname), hknown, Option.map_some]
            rw [enterType_entered hlookup halias hknown,
              enterType_entered hlookup' halias hknown']
            exact .ok ⟨rfl, hp⟩
          | none =>
            have hknown' : p'.enteredType? name.text = none := by
              rw [hp.enteredType? (hextra _ hname), hknown, Option.map_none]
            have hspec : spec.name.text ≠ fresh := hnamed _ _ hlookup ▸ hname
            have hentered := hp.enter (hextra _ hspec) env.packageName
            rw [enterType_new hlookup halias hknown, enterType_new hlookup' halias hknown',
              hwidens.packageName, ← hp.size]
            refine (TypeSpec.resolveDefined_follows (hparallel fun _ _ => rfl) halias hparams huses
              p.table.size).bind (fun _ => ?_) _ _ hentered
            exact .pure rfl
      | _ =>
        simp only [enterType, hlookup, hlookup']
        exact Follows.fail p p' hp

end

/-! ## Declarations that follow the types -/

/-- A function that is defined on both sides with its places renumbered. -/
theorem Progress.Copied.defineFunc {f : Nat → Nat} {extra : List String} {p p' : Progress}
    (h : p.Copied f extra p') {d : FuncDef} (hd : d.isTopLevel = true) :
    (p.define (.func d)).Copied f extra (p'.define (.func (d.rename f))) := by
  have happend : ∀ (p : Progress) (d : FuncDef), d.isTopLevel = true →
      (p.define (.func d)).functions = p.functions ++ [d] := by
    intro p d hd
    simp [Progress.functions, Progress.define, List.filterMap_append, List.filter_append,
      Definition.func?, hd]
  have hd' : (d.rename f).isTopLevel = true := hd
  exact { h with functions := by rw [happend p d hd, happend p' _ hd', h.functions, List.map_append,
    List.map_singleton] }

/-- What is no function is defined on both sides. -/
theorem Progress.Copied.defineAll {f : Nat → Nat} {extra : List String} {p p' : Progress}
    (h : p.Copied f extra p') {ds : List Definition} (hds : ∀ d ∈ ds, d.func? = none) :
    Copied { p with definitions := p.definitions ++ ds } f extra
      { p' with definitions := p'.definitions ++ ds } := by
  have hnone : ds.filterMap Definition.func? = [] := List.filterMap_eq_nil_iff.mpr hds
  refine { h with functions := ?_ }
  have hfunctions := h.functions
  simp only [Progress.functions, List.filterMap_append, hnone, List.append_nil] at hfunctions ⊢
  exact hfunctions

section

variable {env env' : Env} {fresh : String} {f : Nat → Nat} {extra : List String}
  (hwidens : env.Widens env' fresh) (hextra : ∀ name, name ≠ fresh → extra.contains name = false)

/-- The second progress is a copy of the first one, in which all types are known. -/
def Progress.CopiesComplete (env : Env) (f : Nat → Nat) (extra : List String) (p p' : Progress) :
    Prop :=
  p.Copied f extra p' ∧ env.Complete p

include hwidens hextra

/-- Names of types that are known are entered alike, however deep declarations nest. -/
theorem Env.enter_follows {name : Piece} (hname : name.text ≠ fresh) :
    Follows (Progress.CopiesComplete env f extra) (Ty.rename f) (env.enter name)
      (env'.enter name) := by
  rintro p p' ⟨hp, hcomplete⟩
  obtain ⟨depth, hdepth⟩ := env.scope.exists_nesting_eq
  obtain ⟨depth', hdepth'⟩ := env'.scope.exists_nesting_eq
  rw [Env.enter, Env.enter, hdepth, hdepth']
  cases hlookup : env.scope.lookup name.text with
  | none =>
    simp only [enterType, hwidens.lookup _ hname, hlookup]
    exact .error _ _
  | some entry =>
    have hlookup' := (hwidens.lookup _ hname).trans hlookup
    cases entry with
    | type spec =>
      obtain ⟨type, htype⟩ := hcomplete name.text (FileScope.isType_iff.mpr ⟨spec, hlookup⟩)
      rw [typeOf?, FileScope.isAlias_eq hlookup] at htype
      by_cases halias : spec.isAlias = true
      · rw [if_pos halias] at htype
        have htype' : p'.aliases.lookup name.text = some (type.rename f) := by
          rw [hp.lookup_aliases (hextra _ hname), htype, Option.map_some]
        rw [enterType_alias_known hlookup halias htype,
          enterType_alias_known hlookup' halias htype']
        exact .ok ⟨rfl, hp, hcomplete⟩
      · rw [if_neg halias] at htype
        rw [Bool.not_eq_true] at halias
        obtain ⟨e, he, rfl⟩ := Option.map_eq_some_iff.mp htype
        have he' : p'.enteredType? name.text = some (e.rename f) := by
          rw [hp.enteredType? (hextra _ hname), he, Option.map_some]
        rw [enterType_entered hlookup halias he, enterType_entered hlookup' halias he']
        exact .ok ⟨rfl, hp, hcomplete⟩
    | _ =>
      simp only [enterType, hlookup, hlookup']
      exact .error _ _

theorem EnterType.parallel_enter {p p' : Progress} (h : p.Copied f extra p') :
    EnterType.Parallel env env' fresh f (Progress.CopiesComplete env f extra) env.enter
      env'.enter where
  widens := hwidens
  error := h.table.error
  comparable := h.table.comparable
  table _ _ h := h.1.table
  define _ _ h _ _ hd hd' := ⟨h.1.defineMethod hd hd', h.2⟩
  enter _ hname := Env.enter_follows hwidens hextra hname

theorem ValueSpec.resolveType_follows {spec : ValueSpec}
    (huses : ∀ type, spec.type = some type → ∀ u ∈ type.uses [], u.1 ≠ fresh) :
    Follows (Progress.CopiesComplete env f extra) id (spec.resolveType env)
      (spec.resolveType env') := by
  intro p p' hp
  unfold ValueSpec.resolveType
  cases htype : spec.type with
  | none => exact .ok ⟨rfl, hp⟩
  | some type =>
    have htype := TypeExpr.resolve_follows (EnterType.parallel_enter hwidens hextra hp.1)
      List.not_mem_nil type (huses type htype)
    have hrun : Follows (Progress.CopiesComplete env f extra) id
        (do let _ ← type.resolve env env.enter []; return () : Resolve Unit)
        (do let _ ← type.resolve env' env'.enter []; return () : Resolve Unit) :=
      htype.bind fun _ => .pure rfl
    exact hrun p p' hp

theorem Env.resolveFunc_follows {decl : FuncDecl} (hparams : fresh ∉ decl.params)
    (huses : ∀ u ∈ decl.uses, u.1 ≠ fresh) :
    Follows (Progress.CopiesComplete env f extra) id (env.resolveFunc decl)
      (env'.resolveFunc decl) := by
  intro p p' hp
  have hparallel := EnterType.parallel_enter hwidens hextra hp.1
  obtain ⟨hconstraints, hsig⟩ := List.forall_mem_append.mp huses
  refine ((TypeParamDecl.resolveAll_follows hparallel hparams decl.typeParams hconstraints).bind
    fun params => (SignatureExpr.resolve_follows hparallel hparams decl.signature hsig).bind
      fun sig => .modify fun p p' h => ?_) p p' hp
  obtain ⟨receiver, typeParams, vars, results, variadic⟩ := sig
  let d : FuncDef := ⟨decl.name.text, ⟨receiver, params, vars, results, variadic⟩,
    decl.name.position, .package⟩
  have hd : d.isTopLevel = true := rfl
  exact ⟨h.1.defineFunc hd, h.2⟩

omit hextra in
theorem Env.checkReceiverBase_follows {base : Piece} (hbase : base.text ≠ fresh) :
    Follows (Progress.CopiesComplete env f extra) id (env.checkReceiverBase base)
      (env'.checkReceiverBase base) := by
  unfold checkReceiverBase
  rw [hwidens.lookup _ hbase]
  cases env.scope.lookup base.text with
  | none => exact .fail
  | some entry =>
    cases entry with
    | type spec => exact .pure rfl
    | _ => exact .fail

theorem Env.resolveMethod_follows {decl : MethodDecl} (hparams : fresh ∉ decl.params)
    (huses : ∀ u ∈ decl.uses, u.1 ≠ fresh) (hbase : decl.baseText ≠ fresh) :
    Follows (Progress.CopiesComplete env f extra) id (env.resolveMethod decl)
      (env'.resolveMethod decl) := by
  intro p p' hp
  have hparallel := EnterType.parallel_enter hwidens hextra hp.1
  unfold resolveMethod
  cases hreceiver : decl.receiver with
  | none => exact Follows.fail p p' hp
  | some receiver =>
    have hnames : decl.params = receiver.typeParams := by
      rw [MethodDecl.params, hreceiver]
      rfl
    have hbaseText : decl.baseText = receiver.base.text := by
      rw [MethodDecl.baseText, hreceiver]
    rw [MethodDecl.uses, hreceiver] at huses
    obtain ⟨htype, hsig⟩ := List.forall_mem_append.mp huses
    rw [hnames] at hparams hsig
    refine ((Env.checkReceiverBase_follows hwidens (hbaseText ▸ hbase)).bind fun _ =>
      (TypeExpr.resolve_follows hparallel hparams receiver.type htype).bind fun type =>
        (SignatureExpr.resolve_follows hparallel hparams decl.signature hsig).bind fun sig =>
          ?_) p p' hp
    obtain ⟨_, typeParams, vars, results, variadic⟩ := sig
    dsimp only
    refine (Follows.modify fun p p' h => ?_).bind (k := id) fun _ => .pure rfl
    let d : FuncDef := ⟨decl.name.text, ⟨some ⟨receiver.name, type⟩, typeParams, vars, results,
      variadic⟩, decl.name.position, .package⟩
    have hd : d.isTopLevel = true := rfl
    exact ⟨h.1.defineFunc hd, h.2⟩

theorem Env.resolveMethods_follow {decls : List MethodDecl}
    (hdecls : ∀ decl ∈ decls, fresh ∉ decl.params ∧ (∀ u ∈ decl.uses, u.1 ≠ fresh) ∧
      decl.baseText ≠ fresh) (seen : List (String × String)) :
    Follows (Progress.CopiesComplete env f extra) id (env.resolveMethods seen decls)
      (env'.resolveMethods seen decls) := by
  induction decls generalizing seen with
  | nil => exact .pure rfl
  | cons decl decls ih =>
    obtain ⟨⟨hparams, huses, hbase⟩, hrest⟩ := List.forall_mem_cons.mp hdecls
    refine (Env.resolveMethod_follows hwidens hextra hparams huses hbase).bind fun base => ?_
    dsimp only [id]
    split
    · exact ih hrest seen
    · split
      · exact .fail
      · exact ih hrest _

/-- The declarations that follow the types are resolved alike when all types are known. -/
theorem Env.resolveOthers_follow {file file' : SourceFile}
    (huses : file.UsesOnly (· ≠ fresh))
    (hfunctions : ∀ decl ∈ file.funcDecls, fresh ∉ decl.params)
    (hmethods : ∀ decl ∈ file.methodDecls, fresh ∉ decl.params)
    (hvalues' : file'.valueSpecs = file.valueSpecs) (hfunctions' : file'.funcDecls = file.funcDecls)
    (hmethods' : file'.methodDecls = file.methodDecls) :
    Follows (Progress.CopiesComplete env f extra) id (env.resolveOthers file)
      (env'.resolveOthers file') := by
  have hnone : ∀ d ∈ file.valueSpecs.flatMap ValueSpec.definitions, d.func? = none := by
    intro d hd
    obtain ⟨spec, -, hd⟩ := List.mem_flatMap.mp hd
    exact ValueSpec.func?_of_mem hd
  unfold resolveOthers
  rw [hvalues', hfunctions', hmethods']
  refine (Follows.forM fun spec hspec => ValueSpec.resolveType_follows hwidens hextra
    (huses.values spec hspec)).bind fun _ => ?_
  refine (Follows.modify fun p p' h => ⟨h.1.defineAll hnone, h.2⟩).bind fun _ => ?_
  refine (Follows.forM fun decl hdecl => Env.resolveFunc_follows hwidens hextra
    (hfunctions decl hdecl) (huses.functions decl hdecl)).bind fun _ => ?_
  exact Env.resolveMethods_follow hwidens hextra (fun decl hdecl =>
    ⟨hmethods decl hdecl, (huses.methods decl hdecl).1, (huses.methods decl hdecl).2⟩) []

end

end GoSignatures

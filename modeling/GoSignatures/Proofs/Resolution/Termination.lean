import GoSignatures.Proofs.Recursion.Bounds
import GoSignatures.Proofs.Resolution.Completeness
import GoSignatures.Proofs.Resolution.Nesting

/-!
# Resolution ends

Stage by stage, a file is resolved under guard as it is without guards. While types are entered, the
bound for nested declarations is above the measure. When all types are known, entering a name ends
at once. In between, the recursions over the table stay within their bounds. So whatever circles the
declarations of a file form, resolving it ends by itself, and every place that is looked up exists.

* `Env.settlePendingGuarded_eq`, `Env.checkContainmentGuarded_eq` — the stages over the table
* `Env.TypesKnown.enterGuarded_agrees` — names that are entered when all types are known
* `SourceFile.resolveGuarded_eq` — the whole file
-/

namespace GoSignatures

open Resolve

variable {broken : ResolveError} {more : Nat} {env : Env} {p q : Progress}

/-- Steps over the same list do the same if each does so, and the invariant lasts. -/
theorem Resolve.Agrees.forM {β : Type} {I : Progress → Prop} {f g : β → Resolve Unit} {l : List β}
    (hfg : ∀ b ∈ l, Agrees I (f b) (g b))
    (hI : ∀ b ∈ l, ∀ p q, I p → g b p = .ok ((), q) → I q) : Agrees I (l.forM f) (l.forM g) := by
  induction l with
  | nil => exact .refl _
  | cons b l ih =>
    obtain ⟨hfg, hrest⟩ := List.forall_mem_cons.mp hfg
    obtain ⟨hI, hlasts⟩ := List.forall_mem_cons.mp hI
    exact fun p hp => bind_congr_run (hfg p hp) fun _ q hrun =>
      ih hrest hlasts q (hI p q hp hrun)

/-! ## Entering types -/

namespace Env

/-- Where no declaration is in progress, a name is entered under guard as it is without. -/
theorem enterGuarded_entersAlike (hnamed : env.scope.Named) (broken : ResolveError) (more : Nat)
    (p : Progress) :
    env.EntersAlike (env.undeclared p) (env.enterGuarded broken more) env.enter :=
  have hlt := env.nestable_lt_nesting p
  enterTypeGuarded_eq hnamed broken env.scope.nesting hlt (Nat.lt_of_lt_of_le hlt (by simp))

theorem resolveTypeSpecGuarded_agrees (hnamed : env.scope.Named) (spec : TypeSpec) :
    Agrees (env.Consistent [] []) (env.resolveTypeSpecGuarded broken more spec)
      (env.resolveTypeSpec spec) := by
  intro p hp
  have halike := enterGuarded_entersAlike hnamed broken more p
  unfold resolveTypeSpecGuarded resolveTypeSpec
  split
  · exact bind_congr_run (halike.typeExpr (enterType_enters hnamed _ _) (fun _ _ => .none _) hp
      (Nat.le_refl _)) fun _ _ _ => rfl
  · exact bind_congr_run (halike [] [] spec.name (.none _) p ⟨hp, Nat.le_refl _⟩) fun _ _ _ => rfl

/-! ## The stages over the table -/

theorem failRecursiveGuarded_eq {id : Nat} (hid : id < p.table.size) :
    env.failRecursiveGuarded broken id p = env.failRecursive id p :=
  guardPlace_bind hid _

/-- A type that waits has a place, and so has the one that it waits for. -/
theorem Consistent.inPlace (h : env.Consistent [] [] p) : p.table.InPlace p.pending := by
  rintro ⟨id, target⟩ hw
  obtain ⟨hnone, e, he, rfl, -⟩ := h.waiting _ hw
  refine ⟨(h.bounds he).2, ?_⟩
  obtain ⟨type, hright, ⟨known, hknown, -⟩ | ⟨target', args, rfl, -, hwaits⟩⟩ :=
    h.right e he (by simp)
  · exact absurd (hnone.symm.trans hknown) (by simp)
  · have hsame := List.inj_on_of_nodup_map h.pending hw hwaits rfl
    cases hsame
    obtain ⟨spec, -, hreads⟩ := hright
    have hproper := Consistent.keeps.proper_meaning h (hreads p (.refl p)).meaning
    exact hproper.1

theorem settlePendingGuarded_eq (h : env.Consistent [] [] p) :
    env.settlePendingGuarded broken more p = env.settlePending p := by
  unfold settlePendingGuarded settlePending
  rw [get_bind, get_bind, Table.settleGuarded_eq h.waits h.inPlace (Nat.le_add_right _ _)]
  cases hsettle : p.table.settle p.pending with
  | ok table => rfl
  | error id =>
    obtain ⟨t, remaining, hsettles, hid, -⟩ := Table.settle_error h.waits hsettle
    obtain ⟨w, hw, rfl⟩ := List.mem_map.mp hid
    exact failRecursiveGuarded_eq (h.waits.size w (hsettles.sublist.subset hw))

theorem checkContainmentGuarded_eq (h : env.Settled p q) :
    env.checkContainmentGuarded broken more q = env.checkContainment q := by
  have hplaces : ∀ e ∈ q.entered, e.id < q.table.size := by
    intro e he
    rw [h.entered] at he
    rw [h.settles.size]
    exact (h.consistent.bounds he).2
  unfold checkContainmentGuarded checkContainment
  rw [get_bind, get_bind,
    Table.findRecursiveGuarded_eq (fun _ htype => h.proper_underlying htype) more hplaces]
  cases hfind : q.entered.find? fun e => q.table.containsItself e.id with
  | none => rfl
  | some e => exact failRecursiveGuarded_eq (hplaces e (List.mem_of_find?_eq_some hfind))

end Env

/-! ## When all types are known -/

namespace Env.TypesKnown

/-- A name that is entered when all types are known ends at once. -/
theorem enterGuarded_agrees (h : env.TypesKnown p) (name : Piece) :
    Agrees (env.SameTypes p) (env.enterGuarded broken more name) (env.enter name) := by
  intro q hq
  obtain ⟨depth, hdepth⟩ := env.scope.exists_nesting_eq
  have hmore : (depth + 1) + more = (depth + more) + 1 := Nat.succ_add _ _
  rw [enterGuarded, enter, hdepth, hmore]
  cases hlookup : env.scope.lookup name.text with
  | none => simp only [enterTypeGuarded, enterType, hlookup]
  | some entry =>
    cases entry with
    | type spec =>
      have hisType : env.scope.isType name.text = true := FileScope.isType_iff.mpr ⟨spec, hlookup⟩
      obtain ⟨type, htype⟩ := h.complete name.text hisType
      rw [← hq.typeOf?] at htype
      simp only [enterTypeGuarded, enterType, hlookup]
      by_cases halias : spec.isAlias = true
      · rw [typeOf?, if_pos (by simp [FileScope.isAlias, hlookup, halias])] at htype
        simp only [halias, if_true, get_bind, htype]
      · rw [Bool.not_eq_true] at halias
        rw [typeOf?, if_neg (by simp [FileScope.isAlias, hlookup, halias])] at htype
        obtain ⟨e, he, -⟩ := Option.map_eq_some_iff.mp htype
        simp only [halias, Bool.false_eq_true, if_false, get_bind, he]
    | _ => simp only [enterTypeGuarded, enterType, hlookup]

section

variable (h : env.TypesKnown p)
include h

theorem typeExpr_agrees (params : List String) (e : TypeExpr) :
    Agrees (env.SameTypes p) (e.resolveGuarded broken env (env.enterGuarded broken more) params)
      (e.resolve env env.enter params) :=
  TypeExpr.resolveGuarded_agrees h.keeps (fun name _ => h.enter_yields name)
    (fun name _ => h.enterGuarded_agrees name) e fun _ _ => trivial

theorem signature_agrees (params : List String) (sig : SignatureExpr) :
    Agrees (env.SameTypes p) (sig.resolveGuarded broken env (env.enterGuarded broken more) params)
      (sig.resolve env env.enter params) :=
  SignatureExpr.resolveGuarded_agrees h.keeps (fun name _ => h.enter_yields name)
    (fun name _ => h.enterGuarded_agrees name) sig fun _ _ => trivial

theorem resolveValueGuarded_agrees (spec : ValueSpec) :
    Agrees (env.SameTypes p) (env.resolveValueGuarded broken more spec)
      (ValueSpec.resolveType env spec) := by
  intro q hq
  unfold resolveValueGuarded ValueSpec.resolveType
  cases spec.type with
  | none => rfl
  | some type => exact bind_congr_run (h.typeExpr_agrees [] type q hq) fun _ _ _ => rfl

theorem resolveFuncGuarded_agrees (decl : FuncDecl) :
    Agrees (env.SameTypes p) (env.resolveFuncGuarded broken more decl) (env.resolveFunc decl) := by
  refine (TypeParamDecl.resolveAllGuarded_agrees h.keeps (fun name _ => h.enter_yields name)
    (fun name _ => h.enterGuarded_agrees name) decl.typeParams fun _ _ => trivial).bind
    (h.typeParams_yields _ decl.typeParams) fun params => ?_
  rintro q ⟨hq, -⟩
  exact bind_congr_run (h.signature_agrees _ decl.signature q hq) fun _ _ _ => rfl

theorem resolveMethodGuarded_agrees (decl : MethodDecl) :
    Agrees (env.SameTypes p) (env.resolveMethodGuarded broken more decl)
      (env.resolveMethod decl) := by
  intro q hq
  unfold resolveMethodGuarded resolveMethod
  cases decl.receiver with
  | none => rfl
  | some receiver =>
    refine bind_congr_run rfl fun _ q₀ hbase => ?_
    obtain ⟨-, rfl⟩ := env.of_checkReceiverBase_eq_ok hbase
    refine bind_congr_run (h.typeExpr_agrees _ receiver.type q₀ hq) fun type q₁ htype => ?_
    obtain ⟨hq₁, -⟩ := h.typeExpr_yields _ receiver.type q₀ type q₁ hq htype
    exact bind_congr_run (h.signature_agrees _ decl.signature q₁ hq₁) fun _ _ _ => rfl

theorem resolveMethodsGuarded_agrees (seen : List (String × String)) (decls : List MethodDecl) :
    Agrees (env.SameTypes p) (env.resolveMethodsGuarded broken more seen decls)
      (env.resolveMethods seen decls) := by
  induction decls generalizing seen with
  | nil => exact .refl _
  | cons decl decls ih =>
    intro q hq
    refine bind_congr_run (h.resolveMethodGuarded_agrees decl q hq) fun base q₁ hfirst => ?_
    obtain ⟨hq₁, -⟩ := h.resolveMethod_ok hq hfirst
    split
    · exact ih seen q₁ hq₁
    · split
      · rfl
      · exact ih _ q₁ hq₁

/-- The declarations that follow the types are resolved under guard as they are without. -/
theorem resolveOthersGuarded_eq (file : SourceFile) :
    env.resolveOthersGuarded broken more file p = env.resolveOthers file p := by
  unfold resolveOthersGuarded resolveOthers
  refine bind_congr_run (Agrees.forM (fun spec _ => h.resolveValueGuarded_agrees spec)
    (fun spec _ q r hq hrun => ?_) p h.sameTypes) fun _ q hvalues => ?_
  · have hone : [spec].forM (ValueSpec.resolveType env) q = .ok ((), r) :=
      bind_eq_of_eq_ok hrun _
    exact (h.resolveValues_ok hq hone).1
  obtain ⟨hq, -⟩ := h.resolveValues_ok h.sameTypes hvalues
  rw [modify_bind, modify_bind]
  have hq := hq.defineValues file.valueSpecs
  refine bind_congr_run (Agrees.forM (fun decl _ => h.resolveFuncGuarded_agrees decl)
    (fun decl _ q r hq hrun => (h.resolveFunc_ok hq hrun).1) _ hq) fun _ q₁ hfunctions => ?_
  obtain ⟨hq₁, -⟩ := h.resolveFuncs_ok hq hfunctions
  exact h.resolveMethodsGuarded_agrees [] file.methodDecls q₁ hq₁

end

end Env.TypesKnown

/-! ## The whole file -/

namespace SourceFile

variable {file : SourceFile} {config : Config}

/-- A file is resolved in stages. -/
theorem resolveAll_eq (env : Env) (file : SourceFile) :
    env.resolveAll file = (do
      file.typeSpecs.forM env.resolveTypeSpec
      env.settlePending
      env.checkContainment
      env.resolveOthers file) := rfl

section

variable (hscope : FileScope.ofDeclarations file.path file.declarations = .ok env.scope)
  (henv : env = ⟨file.path, file.packageName, config, env.scope⟩)
include hscope henv

theorem enterTypes_eq_ok (hrun : file.typeSpecs.forM env.resolveTypeSpec {} = .ok ((), p)) :
    file.enterTypes config = .ok (env, p) := by
  have hrun : (file.typeSpecs.forM env.resolveTypeSpec).run {} = .ok ((), p) := hrun
  rw [enterTypes, hscope, Except.ok_bind, ← henv]
  dsimp only
  rw [hrun]
  rfl

theorem settleTypes_eq_ok (henter : file.typeSpecs.forM env.resolveTypeSpec {} = .ok ((), p))
    (hsettle : env.settlePending p = .ok ((), q)) : file.settleTypes config = .ok (env, q) := by
  have hsettle : env.settlePending.run p = .ok ((), q) := hsettle
  rw [settleTypes, enterTypes_eq_ok hscope henv henter, Except.ok_bind]
  dsimp only
  rw [hsettle]
  rfl

omit henv in
/-- The types of a file are entered under guard as they are without. -/
theorem resolveTypeSpecsGuarded_eq :
    file.typeSpecs.forM (env.resolveTypeSpecGuarded broken more) {} =
      file.typeSpecs.forM env.resolveTypeSpec {} := by
  have hnamed := FileScope.named_ofDeclarations hscope
  refine Agrees.forM (I := env.Consistent [] [])
    (fun spec _ => Env.resolveTypeSpecGuarded_agrees hnamed spec) (fun spec hspec p q hp hrun => ?_)
    {} .initial
  refine (Env.resolveTypeSpec_ok hnamed (fun hname => ?_) hp hrun).1
  exact (FileScope.lookup_eq_type_iff hscope).mpr ⟨mem_typeSpecs.mp hspec, rfl, hname⟩

/-- The declarations of a file are resolved under guard as they are without. -/
theorem resolveAllGuarded_eq :
    env.resolveAllGuarded broken more file {} = env.resolveAll file {} := by
  rw [Env.resolveAllGuarded, resolveAll_eq]
  refine bind_congr_run (resolveTypeSpecsGuarded_eq hscope) fun _ p henter => ?_
  have hp := (enterTypes_ok (enterTypes_eq_ok hscope henv henter)).consistent
  refine bind_congr_run (Env.settlePendingGuarded_eq hp) fun _ q hsettle => ?_
  obtain ⟨p', -, hsettled⟩ := settled_of_settleTypes (settleTypes_eq_ok hscope henv henter hsettle)
  refine bind_congr_run (Env.checkContainmentGuarded_eq hsettled) fun _ q' hcheck => ?_
  obtain ⟨-, rfl⟩ := Env.of_checkContainment_eq_ok hcheck
  exact hsettled.known.resolveOthersGuarded_eq file

end

/-- Resolving a file ends by itself, with what is known about it or with an error in its
declarations, and on the way every place that is looked up exists: whatever a run under guard does
where a place is missing or a bound is reached, and however far the bounds are raised, it ends in
the same way. -/
theorem resolveGuarded_eq (broken : ResolveError) (more : Nat) (file : SourceFile)
    (config : Config) : file.resolveGuarded broken more config = file.resolve config := by
  unfold resolveGuarded resolve
  refine Except.bind_congr fun scope hscope => ?_
  let env : Env := ⟨file.path, file.packageName, config, scope⟩
  have hrun : (env.resolveAllGuarded broken more file).run {} = (env.resolveAll file).run {} :=
    resolveAllGuarded_eq hscope rfl
  dsimp only
  rw [hrun]

end SourceFile

end GoSignatures

import GoSignatures.Proofs.Resolution.Functions

/-!
# Meanings are found

A type expression that is resolved has a meaning, and its uses have the right numbers of arguments.
Once all types of a file are known, that is enough: resolving such an expression succeeds, and finds
the meaning.

* `Progress.Alike` — two progresses that know the same types
* `Progress.Finds` — a step succeeds with a result, wherever the same types are known
* `TypeExpr.resolve_finds` — resolving finds the meaning of a type expression
* `Env.resolveOthers_finds` — the declarations that follow the types are resolved
-/

namespace GoSignatures

open Resolve

/-- The progress `q` knows the types as `p` does. -/
structure Progress.Alike (p q : Progress) : Prop where
  table : q.table = p.table
  entered : q.entered = p.entered
  aliases : q.aliases = p.aliases

/-- From every progress that knows the types as `p` does, a step succeeds with the result `a`. -/
def Progress.Finds {α : Type} (p : Progress) (x : Resolve α) (a : α) : Prop :=
  ∀ q, p.Alike q → ∃ r, x q = .ok (a, r) ∧ p.Alike r

variable {env : Env} {p q : Progress} {params : List String} {α β γ : Type}

theorem Progress.Alike.refl (p : Progress) : p.Alike p := ⟨rfl, rfl, rfl⟩

theorem Progress.Alike.typeOf? (h : p.Alike q) (name : String) :
    env.typeOf? q name = env.typeOf? p name := by
  simp only [Env.typeOf?, Progress.enteredType?, h.entered, h.aliases]

/-! ## Steps -/

namespace Progress.Finds

theorem pure (a : α) : p.Finds (Pure.pure a) a :=
  fun q hq => ⟨q, pure_eq_ok_iff.mpr ⟨rfl, rfl⟩, hq⟩

theorem bind {x : Resolve α} {f : α → Resolve β} {a : α} {b : β} (hx : p.Finds x a)
    (hf : p.Finds (f a) b) : p.Finds (x >>= f) b := by
  intro q hq
  obtain ⟨r, hr, hq⟩ := hx q hq
  obtain ⟨r', hr', hq⟩ := hf r hq
  exact ⟨r', bind_eq_ok_iff.mpr ⟨a, r, hr, hr'⟩, hq⟩

theorem get_bind {f : Progress → Resolve α} {a : α} (h : ∀ q, p.Alike q → p.Finds (f q) a) :
    p.Finds (get >>= f) a :=
  fun q hq => h q hq q hq

theorem define (d : Definition) : p.Finds (modify fun p => p.define d) () :=
  fun q hq => ⟨q.define d, rfl, hq.table, hq.entered, hq.aliases⟩

theorem defineAll (ds : List Definition) :
    p.Finds (modify fun p => { p with definitions := p.definitions ++ ds }) () :=
  fun _ hq => ⟨_, rfl, hq.table, hq.entered, hq.aliases⟩

theorem forM {f : α → Resolve Unit} {l : List α} (h : ∀ a ∈ l, p.Finds (f a) ()) :
    p.Finds (l.forM f) () := by
  induction l with
  | nil => exact .pure _
  | cons a l ih =>
    obtain ⟨ha, hl⟩ := List.forall_mem_cons.mp h
    exact ha.bind (ih hl)

theorem map (f : α → β) {x : Resolve α} {a : α} (hx : p.Finds x a) :
    p.Finds (do return f (← x)) (f a) :=
  hx.bind (.pure _)

theorem map₂ (f : α → β → γ) {x : Resolve α} {y : Resolve β} {a : α} {b : β} (hx : p.Finds x a)
    (hy : p.Finds y b) : p.Finds (do return f (← x) (← y)) (f a b) :=
  hx.bind (hy.bind (.pure _))

end Progress.Finds

/-! ## Names -/

namespace Env.TypesKnown

/-- A declared type that is used with a number of arguments that fits has as many parameters. -/
theorem length_typeParams (h : env.TypesKnown p) {name : String} {id count : Nat} {args : List Ty}
    (htype : env.scope.isType name = true) (hargs : args = [])
    (hmeans : Ty.ofName? env (env.typeOf? p) params name = some (.named id args))
    (hfits : params.contains name = false → env.Fits [] p (name, count)) :
    (p.table.typeParams id).length = count := by
  subst hargs
  obtain ⟨hparam, hknown⟩ := Ty.ofName?_of_isType htype hmeans
  obtain ⟨type, htype', hcount⟩ := hfits hparam htype
  cases hknown.symm.trans htype'
  rw [h.arity id (h.keeps.lt_size h.sameTypes hknown)]
  exact ((hcount id rfl).2 List.not_mem_nil).symm

/-- A predeclared type has no parameters. -/
theorem typeParams_predeclared (h : env.TypesKnown p) {name : String} {id : Nat} {args : List Ty}
    (htype : env.scope.isType name = false)
    (hmeans : Ty.ofName? env (env.typeOf? p) params name = some (.named id args)) :
    (p.table.typeParams id).length = 0 := by
  have hid : id ≤ comparableId := Ty.le_comparableId_of_ofName? htype hmeans
  rw [h.arity id (Nat.lt_of_le_of_lt hid h.size), Env.arity, if_pos hid]

end Env.TypesKnown

theorem Ty.ofName_finds (h : env.TypesKnown p) {name : Piece} {type : Ty}
    (hmeans : Ty.ofName? env (env.typeOf? p) params name.text = some type) :
    p.Finds (Ty.ofName env env.enter params name) type := by
  unfold Ty.ofName? at hmeans
  unfold Ty.ofName
  split at hmeans
  · next hparam =>
    cases hmeans
    rw [if_pos hparam]
    exact .pure _
  · next hparam =>
    rw [if_neg hparam]
    cases hlookup : env.scope.lookup name.text with
    | some entry =>
      rw [hlookup] at hmeans
      cases entry with
      | type spec =>
        intro q hq
        obtain ⟨type', htype, henter⟩ :=
          h.enter_eq hq.typeOf? (FileScope.isType_iff.mpr ⟨spec, hlookup⟩)
        cases htype.symm.trans hmeans
        exact ⟨q, henter, hq⟩
      | _ => cases hmeans
    | none =>
      rw [hlookup] at hmeans
      cases huniverse : Universe.type? name.text with
      | some predeclared =>
        simp only [huniverse, Option.some.injEq] at hmeans
        subst hmeans
        exact .pure _
      | none =>
        simp only [huniverse] at hmeans
        obtain ⟨hother, hmeans⟩ := Option.ite_none_left_eq_some.mp hmeans
        obtain ⟨path, hpath, rfl⟩ := Option.map_eq_some_iff.mp hmeans
        simp only [hother, hpath]
        exact .pure _

theorem Ty.ofBareName_finds (h : env.TypesKnown p) {name : Piece} {type : Ty}
    (hfits : params.contains name.text = false → env.Fits [] p (name.text, 0))
    (hmeans : Ty.ofName? env (env.typeOf? p) params name.text = some type) :
    p.Finds (Ty.ofBareName env env.enter params name) type := by
  refine (Ty.ofName_finds h hmeans).bind ?_
  cases type with
  | named id args =>
    refine .get_bind fun q hq => ?_
    have hcount : args = [] → (p.table.typeParams id).length = 0 := by
      intro hargs
      cases htype : env.scope.isType name.text with
      | true => exact h.length_typeParams htype hargs hmeans hfits
      | false => exact h.typeParams_predeclared htype hmeans
    have hcheck : ¬ (args.isEmpty && (q.table.typeParams id).length > 0) = true := by
      rw [hq.table]
      simp only [Bool.and_eq_true, List.isEmpty_iff, decide_eq_true_eq, not_and]
      intro hargs
      rw [hcount hargs]
      exact Nat.lt_irrefl 0
    rw [if_neg hcheck]
    exact .pure _
  | _ => exact .pure _

theorem Ty.ofGenericName_finds (h : env.TypesKnown p) {name : Piece} {args : List Ty} {type : Ty}
    (hfits : params.contains name.text = false → env.Fits [] p (name.text, args.length))
    (hmeans : Ty.ofGenericName? env (env.typeOf? p) params name.text args = some type) :
    p.Finds (Ty.ofGenericName env env.enter params name args) type := by
  obtain ⟨head, hhead, hmeans⟩ := Option.bind_eq_some_iff.mp hmeans
  refine (Ty.ofName_finds h hhead).bind ?_
  split at hmeans
  · next id =>
    obtain ⟨htype, hmeans⟩ := Option.ite_none_right_eq_some.mp hmeans
    cases hmeans
    refine .get_bind fun q hq => ?_
    rw [hq.table, if_pos (h.length_typeParams htype rfl hhead hfits)]
    exact .pure _
  · next hnot =>
    obtain ⟨halias, hmeans⟩ := Option.ite_none_right_eq_some.mp hmeans
    cases hmeans
    have halias : p.Finds (if env.scope.isAlias name.text then pure type else
        env.fail name.position (.typeArgumentCount name.text 0 args.length)) type := by
      rw [if_pos halias]
      exact .pure _
    cases type with
    | named id as =>
      cases as with
      | nil => exact absurd rfl (hnot id)
      | cons a as => exact halias
    | _ => exact halias

/-- Resolving finds what a name with type arguments means. -/
theorem TypeName.resolve_finds (h : env.TypesKnown p) (name : TypeName) {args : List Ty}
    {type : Ty} (hfits : ∀ u ∈ name.uses params args.length, env.Fits [] p u)
    (hmeans : name.meaning? env p.table (env.typeOf? p) params args = some type) :
    p.Finds (name.resolve env env.enter params args) type := by
  cases name with
  | qualified package name =>
    obtain ⟨entry, hentry, rfl⟩ := Option.map_eq_some_iff.mp hmeans
    simp only [resolve, Ty.ofQualifiedName, hentry]
    refine .get_bind fun q hq => ?_
    rw [hq.table]
    exact .pure _
  | plain name =>
    have hfits : params.contains name.text = false → env.Fits [] p (name.text, args.length) :=
      fun hparam => hfits (name.text, args.length) (by simpa [uses] using hparam)
    simp only [meaning?] at hmeans
    simp only [resolve]
    split at hmeans
    · next hempty =>
      rw [if_pos hempty]
      rw [List.isEmpty_iff] at hempty
      subst hempty
      exact Ty.ofBareName_finds h hfits hmeans
    · next hempty =>
      rw [if_neg hempty]
      exact Ty.ofGenericName_finds h hfits hmeans

/-! ## Expressions -/

section

variable (h : env.TypesKnown p)
include h

-- each lemma of the block has the assumptions for the others, which the linter does not see
set_option linter.unusedSectionVars false in
mutual

/-- Resolving finds what a type expression means, if its uses have the right numbers of
arguments. -/
theorem TypeExpr.resolve_finds : ∀ (e : TypeExpr) {type : Ty},
    (∀ u ∈ e.uses params, env.Fits [] p u) →
      e.meaning? env p.table (env.typeOf? p) params = some type →
        p.Finds (e.resolve env env.enter params) type
  | .named name args, type, hfits, hmeans => by
    obtain ⟨hargs, hname⟩ := List.forall_mem_append.mp hfits
    obtain ⟨types, htypes, hmeans⟩ := Option.bind_eq_some_iff.mp hmeans
    exact (TypeArg.resolveAll_finds args hargs htypes).bind
      (name.resolve_finds h (TypeArg.length_meanings? htypes ▸ hname) hmeans)
  | .pointer elem, type, hfits, hmeans => by
    obtain ⟨_, helem, rfl⟩ := Option.of_return_eq_some hmeans
    exact (TypeExpr.resolve_finds elem hfits helem).map _
  | .slice elem, type, hfits, hmeans => by
    obtain ⟨_, helem, rfl⟩ := Option.of_return_eq_some hmeans
    exact (TypeExpr.resolve_finds elem hfits helem).map _
  | .array length elem, type, hfits, hmeans => by
    obtain ⟨_, helem, rfl⟩ := Option.of_return_eq_some hmeans
    exact (TypeExpr.resolve_finds elem hfits helem).map _
  | .map key value, type, hfits, hmeans => by
    obtain ⟨hkeyFits, hvalueFits⟩ := List.forall_mem_append.mp hfits
    obtain ⟨_, _, hkey, hvalue, rfl⟩ := Option.of_return₂_eq_some hmeans
    exact (TypeExpr.resolve_finds key hkeyFits hkey).map₂ _
      (TypeExpr.resolve_finds value hvalueFits hvalue)
  | .chan dir elem, type, hfits, hmeans => by
    obtain ⟨_, helem, rfl⟩ := Option.of_return_eq_some hmeans
    exact (TypeExpr.resolve_finds elem hfits helem).map _
  | .func sig, type, hfits, hmeans => by
    obtain ⟨_, hsig, rfl⟩ := Option.of_return_eq_some hmeans
    exact (SignatureExpr.resolve_finds sig hfits hsig).map _
  | .struct fields, type, hfits, hmeans => by
    obtain ⟨_, hfields, rfl⟩ := Option.of_return_eq_some hmeans
    exact (FieldDecl.resolveAll_finds fields hfits hfields).map _
  | .interface elems, type, hfits, hmeans => by
    obtain ⟨_, helems, rfl⟩ := Option.of_return_eq_some hmeans
    exact (InterfaceElem.resolveAll_finds elems hfits helems).map _
  | .group inner, type, hfits, hmeans => TypeExpr.resolve_finds inner hfits hmeans
  | .tilde inner, type, hfits, hmeans => by
    obtain ⟨_, hinner, rfl⟩ := Option.of_return_eq_some hmeans
    exact (TypeExpr.resolve_finds inner hfits hinner).map _
termination_by structural e => e

theorem TypeExpr.resolveTerms_finds : ∀ (terms : List TypeExpr) {found : List Term},
    (∀ u ∈ TypeExpr.allUses params terms, env.Fits [] p u) →
      TypeExpr.termMeanings? env p.table (env.typeOf? p) params terms = some found →
        p.Finds (TypeExpr.resolveTerms env env.enter params terms) found
  | [], found, _, hmeans => by
    cases hmeans
    exact .pure _
  | term :: terms, found, hfits, hmeans => by
    obtain ⟨hfirst, hrest⟩ := List.forall_mem_append.mp hfits
    have hterm : ∀ {type}, term.meaning? env p.table (env.typeOf? p) params = some type →
        p.Finds (term.resolve env env.enter params) type := TypeExpr.resolve_finds term hfirst
    have hterms : ∀ {found},
        TypeExpr.termMeanings? env p.table (env.typeOf? p) params terms = some found →
          p.Finds (TypeExpr.resolveTerms env env.enter params terms) found :=
      TypeExpr.resolveTerms_finds terms hrest
    cases term
    case tilde inner =>
      obtain ⟨_, _, hinner, hothers, rfl⟩ := Option.of_return₂_eq_some hmeans
      exact (TypeExpr.resolve_finds inner hfirst hinner).map₂ _ (hterms hothers)
    all_goals
      obtain ⟨_, _, hmeaning, hothers, rfl⟩ := Option.of_return₂_eq_some hmeans
      exact (hterm hmeaning).map₂ _ (hterms hothers)
termination_by structural terms => terms

theorem TypeArg.resolveAll_finds : ∀ (args : List TypeArg) {types : List Ty},
    (∀ u ∈ TypeArg.allUses params args, env.Fits [] p u) →
      TypeArg.meanings? env p.table (env.typeOf? p) params args = some types →
        p.Finds (TypeArg.resolveAll env env.enter params args) types
  | [], types, _, hmeans => by
    cases hmeans
    exact .pure _
  | ⟨_, terms⟩ :: args, types, hfits, hmeans => by
    obtain ⟨htermsFits, hargsFits⟩ := List.forall_mem_append.mp hfits
    obtain ⟨_, _, hterms, hargs, rfl⟩ := Option.of_return₂_eq_some hmeans
    exact (TypeExpr.resolveTerms_finds terms htermsFits hterms).map₂ _
      (TypeArg.resolveAll_finds args hargsFits hargs)
termination_by structural args => args

theorem SignatureExpr.resolve_finds : ∀ (sig : SignatureExpr) {signature : Signature},
    (∀ u ∈ sig.uses params, env.Fits [] p u) →
      sig.meaning? env p.table (env.typeOf? p) params = some signature →
        p.Finds (sig.resolve env env.enter params) signature
  | ⟨decls, results⟩, signature, hfits, hmeans => by
    obtain ⟨hdeclsFits, hresultsFits⟩ := List.forall_mem_append.mp hfits
    obtain ⟨_, _, hdecls, hresults, rfl⟩ := Option.of_return₂_eq_some hmeans
    exact (ParamDecl.resolveAll_finds decls hdeclsFits hdecls).map₂ _
      (ResultExpr.resolve_finds results hresultsFits hresults)
termination_by structural sig => sig

theorem ResultExpr.resolve_finds : ∀ (results : ResultExpr) {vars : List Var},
    (∀ u ∈ results.uses params, env.Fits [] p u) →
      results.meaning? env p.table (env.typeOf? p) params = some vars →
        p.Finds (results.resolve env env.enter params) vars
  | .list decls, vars, hfits, hmeans => ParamDecl.resolveAll_finds decls hfits hmeans
  | .single type, vars, hfits, hmeans => by
    obtain ⟨_, htype, rfl⟩ := Option.of_return_eq_some hmeans
    exact (TypeExpr.resolve_finds type hfits htype).map _
termination_by structural results => results

theorem ParamDecl.resolveAll_finds : ∀ (decls : List ParamDecl) {vars : List Var},
    (∀ u ∈ ParamDecl.allUses params decls, env.Fits [] p u) →
      ParamDecl.meanings? env p.table (env.typeOf? p) params decls = some vars →
        p.Finds (ParamDecl.resolveAll env env.enter params decls) vars
  | [], vars, _, hmeans => by
    cases hmeans
    exact .pure _
  | ⟨names, type, variadic⟩ :: decls, vars, hfits, hmeans => by
    obtain ⟨htypeFits, hdeclsFits⟩ := List.forall_mem_append.mp hfits
    obtain ⟨_, _, htype, hdecls, rfl⟩ := Option.of_return₂_eq_some hmeans
    exact (TypeExpr.resolve_finds type htypeFits htype).map₂ _
      (ParamDecl.resolveAll_finds decls hdeclsFits hdecls)
termination_by structural decls => decls

theorem FieldDecl.resolveAll_finds : ∀ (decls : List FieldDecl) {fields : List Field},
    (∀ u ∈ FieldDecl.allUses params decls, env.Fits [] p u) →
      FieldDecl.meanings? env p.table (env.typeOf? p) params decls = some fields →
        p.Finds (FieldDecl.resolveAll env env.enter params decls) fields
  | [], fields, _, hmeans => by
    cases hmeans
    exact .pure _
  | .named names type tag :: decls, fields, hfits, hmeans => by
    obtain ⟨htypeFits, hdeclsFits⟩ := List.forall_mem_append.mp hfits
    obtain ⟨_, _, htype, hdecls, rfl⟩ := Option.of_return₂_eq_some hmeans
    exact (TypeExpr.resolve_finds type htypeFits htype).map₂ _
      (FieldDecl.resolveAll_finds decls hdeclsFits hdecls)
  | .embedded pointer name args tag :: decls, fields, hfits, hmeans => by
    obtain ⟨hfieldFits, hdeclsFits⟩ := List.forall_mem_append.mp hfits
    obtain ⟨hargsFits, hnameFits⟩ := List.forall_mem_append.mp hfieldFits
    obtain ⟨types, htypes, hmeans⟩ := Option.bind_eq_some_iff.mp hmeans
    obtain ⟨_, _, htype, hdecls, rfl⟩ := Option.of_return₂_eq_some hmeans
    have hargs := TypeArg.resolveAll_finds args hargsFits htypes
    have hname := name.resolve_finds h (TypeArg.length_meanings? htypes ▸ hnameFits) htype
    exact hargs.bind (hname.map₂ _ (FieldDecl.resolveAll_finds decls hdeclsFits hdecls))
termination_by structural decls => decls

theorem InterfaceElem.resolveAll_finds :
    ∀ (elems : List InterfaceElem) {found : List ResolvedElem},
      (∀ u ∈ InterfaceElem.allUses params elems, env.Fits [] p u) →
        InterfaceElem.meanings? env p.table (env.typeOf? p) params elems = some found →
          p.Finds (InterfaceElem.resolveAll env env.enter params elems) found
  | [], found, _, hmeans => by
    cases hmeans
    exact .pure _
  | .method name sig :: elems, found, hfits, hmeans => by
    obtain ⟨hsigFits, helemsFits⟩ := List.forall_mem_append.mp hfits
    obtain ⟨_, _, hsig, helems, rfl⟩ := Option.of_return₂_eq_some hmeans
    exact (SignatureExpr.resolve_finds sig hsigFits hsig).bind
      ((Progress.Finds.define _).bind
        ((InterfaceElem.resolveAll_finds elems helemsFits helems).map _))
  | .union terms :: elems, found, hfits, hmeans => by
    obtain ⟨htermsFits, helemsFits⟩ := List.forall_mem_append.mp hfits
    obtain ⟨_, _, hterms, helems, rfl⟩ := Option.of_return₂_eq_some hmeans
    exact (TypeExpr.resolveTerms_finds terms htermsFits hterms).map₂ _
      (InterfaceElem.resolveAll_finds elems helemsFits helems)
termination_by structural elems => elems

end

/-- Resolving finds what declarations of type parameters mean. -/
theorem TypeParamDecl.resolveAll_finds (decls : List TypeParamDecl) {found : List TypeParam}
    (hfits : ∀ u ∈ TypeParamDecl.allUses params decls, env.Fits [] p u)
    (hmeans : TypeParamDecl.meanings? env p.table (env.typeOf? p) params decls = some found) :
    p.Finds (TypeParamDecl.resolveAll env env.enter params decls) found := by
  induction decls generalizing found with
  | nil =>
    cases hmeans
    exact .pure _
  | cons decl decls ih =>
    obtain ⟨hfirst, hrest⟩ := List.forall_mem_append.mp hfits
    obtain ⟨_, _, hterms, hdecls, rfl⟩ := Option.of_return₂_eq_some hmeans
    exact (TypeExpr.resolveTerms_finds h decl.constraint hfirst hterms).map₂ _ (ih hrest hdecls)

/-! ## Declarations -/

namespace Env

theorem resolveFunc_finds {decl : FuncDecl} {f : FuncDef}
    (hfits : ∀ u ∈ decl.uses, env.Fits [] p u)
    (hmeans : decl.meaning? env p.table (env.typeOf? p) = some f) :
    p.Finds (env.resolveFunc decl) () := by
  obtain ⟨hparamsFits, hsigFits⟩ := List.forall_mem_append.mp hfits
  obtain ⟨_, _, hparams, hsig, -⟩ := Option.of_return₂_eq_some hmeans
  exact (TypeParamDecl.resolveAll_finds h decl.typeParams hparamsFits hparams).bind
    ((SignatureExpr.resolve_finds h decl.signature hsigFits hsig).bind (.define _))

/-- A method that means something is resolved, and its receiver has a base. -/
theorem resolveMethod_finds {decl : MethodDecl} {f : FuncDef}
    (hfits : ∀ u ∈ decl.uses, env.Fits [] p u)
    (hmeans : decl.meaning? env p.table (env.typeOf? p) = some f) :
    ∃ receiver, decl.receiver = some receiver ∧
      p.Finds (env.resolveMethod decl) receiver.base.text := by
  obtain ⟨receiver, hreceiver, hmeans⟩ := Option.bind_eq_some_iff.mp hmeans
  obtain ⟨_, _, hvar, hsig, -⟩ := Option.of_return₂_eq_some hmeans
  obtain ⟨hbase, hvar⟩ := Option.ite_none_right_eq_some.mp hvar
  obtain ⟨type, htype, -⟩ := Option.map_eq_some_iff.mp hvar
  obtain ⟨htypeFits, hsigFits⟩ := List.forall_mem_append.mp hfits
  simp only [MethodDecl.params, hreceiver, Option.map_some, Option.getD_some]
    at htypeFits hsigFits hsig
  obtain ⟨spec, hspec⟩ := FileScope.isType_iff.mp hbase
  refine ⟨receiver, hreceiver, ?_⟩
  simp only [resolveMethod, hreceiver, checkReceiverBase, hspec, pure_bind]
  exact (TypeExpr.resolve_finds h receiver.type htypeFits htype).bind
    ((SignatureExpr.resolve_finds h decl.signature hsigFits hsig).bind
      ((Progress.Finds.define _).bind (.pure _)))

/-- Methods that mean something are resolved if no receiver has two of one name. -/
theorem resolveMethods_finds {decls : List MethodDecl} {fs : List FuncDef}
    {seen : List (String × String)} (hfits : ∀ decl ∈ decls, ∀ u ∈ decl.uses, env.Fits [] p u)
    (hmeans : decls.mapM (MethodDecl.meaning? env p.table (env.typeOf? p)) = some fs)
    (hdistinct : (decls.filterMap MethodDecl.key?).Nodup)
    (hseen : ∀ key ∈ decls.filterMap MethodDecl.key?, key ∉ seen) :
    p.Finds (env.resolveMethods seen decls) () := by
  induction decls generalizing fs seen with
  | nil => exact .pure _
  | cons decl decls ih =>
    obtain ⟨hfirst, hrest⟩ := List.forall_mem_cons.mp hfits
    rw [List.mapM_cons] at hmeans
    obtain ⟨f, fs, hf, hfs, -⟩ := Option.of_return₂_eq_some hmeans
    obtain ⟨receiver, hreceiver, hfinds⟩ := resolveMethod_finds h hfirst hf
    refine hfinds.bind ?_
    by_cases hblank : decl.name.text = "_"
    · have hkey : decl.key? = none := if_pos hblank
      rw [List.filterMap_cons_none hkey] at hdistinct hseen
      rw [if_pos hblank]
      exact ih hrest hfs hdistinct hseen
    · have hkey : decl.key? = some (receiver.base.text, decl.name.text) := by
        simp [MethodDecl.key?, hblank, hreceiver]
      rw [List.filterMap_cons_some hkey] at hdistinct hseen
      obtain ⟨hnew, hdistinct⟩ := List.nodup_cons.mp hdistinct
      obtain ⟨hnotSeen, hseen⟩ := List.forall_mem_cons.mp hseen
      rw [if_neg hblank, if_neg (by simpa using hnotSeen)]
      refine ih hrest hfs hdistinct fun key hmem => ?_
      rw [List.mem_cons, not_or]
      exact ⟨fun heq => hnew (heq ▸ hmem), hseen key hmem⟩

/-- Where all types are known, the declarations that follow them are resolved if they mean
something. -/
theorem resolveOthers_finds {file : SourceFile} {functions methods : List FuncDef}
    (hread : file.OthersRead env p functions methods) : p.Finds (env.resolveOthers file) () := by
  have hvalues : p.Finds (file.valueSpecs.forM (ValueSpec.resolveType env)) () := by
    refine .forM fun spec hspec => ?_
    unfold ValueSpec.resolveType
    cases htype : spec.type with
    | none => exact .pure _
    | some type =>
      obtain ⟨⟨a, hmeans⟩, hfits⟩ := hread.values spec hspec type htype
      exact (TypeExpr.resolve_finds h type hfits hmeans).bind (.pure _)
  have hfunctions : p.Finds (file.funcDecls.forM env.resolveFunc) () := by
    refine .forM fun decl hdecl => ?_
    obtain ⟨f, -, hmeans⟩ := exists_of_mapM_of_mem hread.functions hdecl
    exact resolveFunc_finds h (hread.functionUses decl hdecl) hmeans
  have hmethods : p.Finds (env.resolveMethods [] file.methodDecls) () :=
    resolveMethods_finds h hread.methodUses hread.methods hread.distinct fun _ _ => by simp
  exact hvalues.bind ((Progress.Finds.defineAll _).bind (hfunctions.bind hmethods))

end Env

end

end GoSignatures

import GoSignatures.Proofs.Resolution.Consistent

/-!
# Resolving succeeds

A type expression that means something in one run is resolved without error in any other, provided
that the declared names in it can be entered there, and that each declared type has as many type
parameters at that moment as the use has arguments.

* `Resolve.Succeeds` — a step succeeds wherever an invariant holds
* `Env.Admits` — a use can be resolved
* `TypeExpr.resolve_succeeds` — resolving a type expression
* `TypeParamDecl.resolveAll_succeeds` — the same for declarations of type parameters
-/

namespace GoSignatures

open Resolve

variable {α β γ : Type} {I J : Progress → Prop}

/-! ## Steps -/

namespace Resolve

/-- A step succeeds where `I` holds. -/
def Succeeds (I : Progress → Prop) (x : Resolve α) : Prop :=
  ∀ p, I p → ∃ a q, x p = .ok (a, q)

namespace Succeeds

variable {S : α → Progress → Prop}

theorem mono {x : Resolve α} (hIJ : ∀ p, I p → J p) (h : Succeeds J x) : Succeeds I x :=
  fun p hp => h p (hIJ p hp)

theorem pure (a : α) : Succeeds I (Pure.pure a : Resolve α) :=
  fun p _ => ⟨a, p, rfl⟩

theorem modify (f : Progress → Progress) : Succeeds I (modify f : Resolve Unit) :=
  fun p _ => ⟨(), f p, rfl⟩

theorem get_bind {f : Progress → Resolve α} (h : ∀ p, I p → ∃ a q, f p p = .ok (a, q)) :
    Succeeds I (get >>= f) :=
  h

/-- What follows a step may use what the step yields. -/
theorem bind {x : Resolve α} {f : α → Resolve β} (hx : Succeeds I x) (hyields : Yields I S x)
    (hf : ∀ a, Succeeds (fun p => I p ∧ ∀ q, p.Later q → S a q) (f a)) : Succeeds I (x >>= f) := by
  intro p hp
  obtain ⟨a, p₁, hrun⟩ := hx p hp
  obtain ⟨hp₁, -, hS⟩ := hyields p a p₁ hp hrun
  obtain ⟨b, q, hrun'⟩ := hf a p₁ ⟨hp₁, hS⟩
  exact ⟨b, q, bind_eq_ok_iff.mpr ⟨a, p₁, hrun, hrun'⟩⟩

theorem map (f : α → β) {x : Resolve α} (hx : Succeeds I x) : Succeeds I (do return f (← x)) := by
  intro p hp
  obtain ⟨a, q, hrun⟩ := hx p hp
  exact ⟨f a, q, bind_eq_ok_iff.mpr ⟨a, q, hrun, rfl⟩⟩

/-- The second step succeeds, since the first one keeps the invariant. -/
theorem map₂ (f : α → β → γ) {x : Resolve α} {y : Resolve β} (hx : Succeeds I x)
    (hyields : Yields I S x) (hy : Succeeds I y) : Succeeds I (do return f (← x) (← y)) :=
  hx.bind hyields fun a => (hy.mono fun _ hp => hp.1).map (f a)

end Succeeds

end Resolve

/-! ## Uses -/

/-- A use can be resolved where `I` holds: if the name is that of a declared type, then it can be
entered, and a declared type has as many type parameters as the use has arguments. -/
structure Env.Admits (env : Env) (Q : String → Prop) (I : Progress → Prop) (enter : EnterType)
    (u : TypeUse) : Prop where
  reached : Q u.1
  enters : env.scope.isType u.1 = true → ∀ name : Piece, name.text = u.1 → Succeeds I (enter name)
  count : ∀ p, I p → ∀ id, env.typeOf? p u.1 = some (.named id []) →
    (p.table.typeParams id).length = u.2

variable {env : Env} {enter : EnterType} {params : List String} {unset : List Nat}
  {Q : String → Prop} {t : Table} {m : Meanings}

/-- Only the names of declared types depend on what is known. -/
theorem Ty.ofName?_congr {m' : Meanings} {name : String}
    (h : params.contains name = true ∨ env.scope.isType name = false) :
    Ty.ofName? env m params name = Ty.ofName? env m' params name := by
  unfold Ty.ofName?
  by_cases hparam : params.contains name = true
  · rw [if_pos hparam, if_pos hparam]
  · have htype := h.resolve_left hparam
    unfold FileScope.isType at htype
    split at htype
    · cases htype
    · next hnot =>
      cases hlookup : env.scope.lookup name with
      | none => rfl
      | some entry =>
        cases entry with
        | type spec => exact absurd hlookup (hnot spec)
        | _ => rfl

section

variable (hI : env.Keeps unset Q I)
  (henter : ∀ name : Piece, Q name.text →
    Yields I (fun type q => env.typeOf? q name.text = some type) (enter name))
include hI henter

/-! ## Names -/

omit hI henter in
/-- A declared name has to be entered. Any other name means the same in every run. -/
theorem Ty.ofName_succeeds {name : Piece} {type : Ty}
    (hname : params.contains name.text = false → env.scope.isType name.text = true →
      Succeeds I (enter name))
    (hmeans : Ty.ofName? env m params name.text = some type) :
    Succeeds I (Ty.ofName env enter params name) := by
  unfold Ty.ofName? at hmeans
  unfold Ty.ofName
  split at hmeans
  · next hparam =>
    rw [if_pos hparam]
    exact .pure _
  · next hparam =>
    rw [if_neg hparam]
    cases hlookup : env.scope.lookup name.text with
    | some entry =>
      rw [hlookup] at hmeans
      cases entry with
      | type spec =>
        exact hname (by simpa using hparam) (FileScope.isType_iff.mpr ⟨spec, hlookup⟩)
      | _ => cases hmeans
    | none =>
      rw [hlookup] at hmeans
      cases huniverse : Universe.type? name.text with
      | some predeclared => exact .pure _
      | none =>
        simp only [huniverse] at hmeans
        obtain ⟨hother, hmeans⟩ := Option.ite_none_left_eq_some.mp hmeans
        obtain ⟨path, hpath, -⟩ := Option.map_eq_some_iff.mp hmeans
        simp only [hother, hpath]
        exact .pure _

omit henter in
/-- A name without arguments that means a declared type names one without type parameters. -/
theorem Ty.length_typeParams_ofName? {p : Progress} (hp : I p) {name : String} {count : Nat}
    {id : Nat} (huse : params.contains name = false → env.Admits Q I enter (name, count))
    (hmeans : Ty.ofName? env (env.typeOf? p) params name = some (.named id [])) :
    (p.table.typeParams id).length = if env.scope.isType name then count else 0 := by
  by_cases htype : env.scope.isType name = true
  · obtain ⟨hparam, hknown⟩ := Ty.ofName?_of_isType htype hmeans
    rw [if_pos htype]
    exact (huse hparam).count p hp id hknown
  · have hid : id ≤ comparableId := Ty.le_comparableId_of_ofName? (by simpa using htype) hmeans
    rw [if_neg htype]
    by_cases hunset : id ∈ unset
    · rw [hI.noParams p hp id hunset, List.length_nil]
    · rw [hI.arity p hp id (Nat.lt_of_le_of_lt hid (hI.size p hp)) hunset]
      exact if_pos hid

theorem Ty.ofBareName_succeeds {name : Piece} {type : Ty}
    (huse : params.contains name.text = false → env.Admits Q I enter (name.text, 0))
    (hmeans : Ty.ofName? env m params name.text = some type) :
    Succeeds I (Ty.ofBareName env enter params name) := by
  refine (Ty.ofName_succeeds (fun hparam htype => (huse hparam).enters htype name rfl)
    hmeans).bind (Ty.ofName_yields henter fun hparam => (huse hparam).reached) fun found => ?_
  cases found with
  | named id args =>
    refine .get_bind fun p ⟨hp, hfound⟩ => ?_
    have hcheck : ¬ (args.isEmpty && (p.table.typeParams id).length > 0) = true := by
      simp only [Bool.and_eq_true, List.isEmpty_iff, decide_eq_true_eq, not_and]
      rintro rfl
      have hlength := Ty.length_typeParams_ofName? hI hp huse (hfound p (.refl p))
      rw [hlength, ite_self]
      exact Nat.lt_irrefl 0
    rw [if_neg hcheck]
    exact ⟨_, _, rfl⟩
  | _ => exact .pure _

theorem Ty.ofGenericName_succeeds {name : Piece} {args args' : List Ty} {type : Ty}
    (hargs : args'.length = args.length)
    (huse : params.contains name.text = false → env.Admits Q I enter (name.text, args.length))
    (hmeans : Ty.ofGenericName? env m params name.text args = some type) :
    Succeeds I (Ty.ofGenericName env enter params name args') := by
  obtain ⟨head, hhead, hmeans⟩ := Option.bind_eq_some_iff.mp hmeans
  refine (Ty.ofName_succeeds (fun hparam htype => (huse hparam).enters htype name rfl)
    hhead).bind (Ty.ofName_yields henter fun hparam => (huse hparam).reached) fun found => ?_
  -- a name that is no declared type means the same in both runs
  have hsame : ∀ p, Ty.ofName? env (env.typeOf? p) params name.text = some found →
      params.contains name.text = true ∨ env.scope.isType name.text = false → found = head := by
    intro p hfound hnot
    rw [Ty.ofName?_congr hnot, hhead] at hfound
    exact (Option.some.inj hfound).symm
  by_cases hnamed : ∃ id, found = .named id []
  · obtain ⟨id, rfl⟩ := hnamed
    refine .get_bind fun p ⟨hp, hfound⟩ => ?_
    have htype : env.scope.isType name.text = true := by
      by_contra hnot
      have hnot : env.scope.isType name.text = false := by simpa using hnot
      obtain rfl := hsame p (hfound p (.refl p)) (.inr hnot)
      simp [hnot] at hmeans
    have hlength := Ty.length_typeParams_ofName? hI hp huse (hfound p (.refl p))
    rw [if_pos htype] at hlength
    simp only [hlength, hargs]
    exact ⟨_, _, rfl⟩
  · intro p ⟨hp, hfound⟩
    have halias : env.scope.isAlias name.text = true := by
      by_cases hnot : params.contains name.text = true ∨ env.scope.isType name.text = false
      · obtain rfl := hsame p (hfound p (.refl p)) hnot
        split at hmeans
        · exact absurd ⟨_, rfl⟩ hnamed
        · exact (Option.ite_none_right_eq_some.mp hmeans).1
      · -- a defined type would mean its place
        rw [not_or, Bool.not_eq_true, Bool.not_eq_false] at hnot
        have hknown := hfound p (.refl p)
        rw [Ty.ofName?_eq_of_isType hnot.2 hnot.1] at hknown
        by_contra hdefined
        obtain ⟨e, -, -, rfl⟩ := Env.entered_of_typeOf? (by simpa using hdefined) hknown
        exact hnamed ⟨e.id, rfl⟩
    refine ⟨found, p, ?_⟩
    dsimp only
    split
    · exact absurd ⟨_, rfl⟩ hnamed
    · rw [if_pos halias]
      rfl

/-- A name that means something is resolved, plain or qualified, with whatever arguments. -/
theorem TypeName.resolve_succeeds (name : TypeName) {args args' : List Ty} {type : Ty}
    (hargs : args'.length = args.length)
    (huses : ∀ u ∈ name.uses params args.length, env.Admits Q I enter u)
    (hmeans : name.meaning? env t m params args = some type) :
    Succeeds I (name.resolve env enter params args') := by
  cases name with
  | qualified package name =>
    obtain ⟨entry, hentry, -⟩ := Option.map_eq_some_iff.mp hmeans
    simp only [resolve, Ty.ofQualifiedName, hentry]
    exact .get_bind fun p _ => ⟨_, p, rfl⟩
  | plain name =>
    have huse : params.contains name.text = false →
        env.Admits Q I enter (name.text, args.length) :=
      fun hparam => huses (name.text, args.length) (by simpa [uses] using hparam)
    have hempty : args'.isEmpty = args.isEmpty := by
      rw [Bool.eq_iff_iff, List.isEmpty_iff_length_eq_zero, List.isEmpty_iff_length_eq_zero, hargs]
    simp only [meaning?] at hmeans
    simp only [resolve, hempty]
    split at hmeans
    · next hnil =>
      rw [if_pos hnil]
      rw [List.isEmpty_iff_length_eq_zero] at hnil
      rw [hnil] at huse
      exact Ty.ofBareName_succeeds hI henter huse hmeans
    · next hcons =>
      rw [if_neg hcons]
      exact Ty.ofGenericName_succeeds hI henter hargs huse hmeans

/-- A name is resolved with type arguments that are resolved. -/
theorem TypeName.resolve_args_succeeds (name : TypeName) {args : List TypeArg} {types : List Ty}
    {type : Ty} (hallUses : ∀ u ∈ TypeArg.allUses params args, env.Admits Q I enter u)
    (hargs : Succeeds I (TypeArg.resolveAll env enter params args))
    (htypes : TypeArg.meanings? env t m params args = some types)
    (huses : ∀ u ∈ name.uses params args.length, env.Admits Q I enter u)
    (hmeans : name.meaning? env t m params types = some type) :
    Succeeds I (do name.resolve env enter params (← TypeArg.resolveAll env enter params args)) := by
  refine hargs.bind (TypeArg.resolveAll_yields hI henter args
    fun u hu => (hallUses u hu).reached) fun types' => ?_
  intro p ⟨hp, hreads⟩
  have hlength : types'.length = types.length := by
    rw [TypeArg.length_meanings? (hreads p (.refl p)).meaning, TypeArg.length_meanings? htypes]
  exact name.resolve_succeeds hI henter hlength (TypeArg.length_meanings? htypes ▸ huses) hmeans p
    hp

/-! ## Expressions -/

-- each lemma of the block has the assumptions for the others, which the linter does not see
set_option linter.unusedSectionVars false in
mutual

/-- A type expression is resolved if its uses can be resolved, and it means something. -/
theorem TypeExpr.resolve_succeeds : ∀ (e : TypeExpr) {type : Ty},
    (∀ u ∈ e.uses params, env.Admits Q I enter u) → e.meaning? env t m params = some type →
      Succeeds I (e.resolve env enter params)
  | .named name args, type, huses, hmeans => by
    obtain ⟨hargs, hname⟩ := List.forall_mem_append.mp huses
    obtain ⟨types, htypes, hmeans⟩ := Option.bind_eq_some_iff.mp hmeans
    exact name.resolve_args_succeeds hI henter hargs (TypeArg.resolveAll_succeeds args hargs htypes)
      htypes hname hmeans
  | .pointer elem, type, huses, hmeans => by
    obtain ⟨_, helem, -⟩ := Option.of_return_eq_some hmeans
    exact (TypeExpr.resolve_succeeds elem huses helem).map _
  | .slice elem, type, huses, hmeans => by
    obtain ⟨_, helem, -⟩ := Option.of_return_eq_some hmeans
    exact (TypeExpr.resolve_succeeds elem huses helem).map _
  | .array length elem, type, huses, hmeans => by
    obtain ⟨_, helem, -⟩ := Option.of_return_eq_some hmeans
    exact (TypeExpr.resolve_succeeds elem huses helem).map _
  | .map key value, type, huses, hmeans => by
    obtain ⟨hkeyUses, hvalueUses⟩ := List.forall_mem_append.mp huses
    obtain ⟨_, _, hkey, hvalue, -⟩ := Option.of_return₂_eq_some hmeans
    exact (TypeExpr.resolve_succeeds key hkeyUses hkey).map₂ _
      (TypeExpr.resolve_yields hI henter key fun u hu => (hkeyUses u hu).reached)
      (TypeExpr.resolve_succeeds value hvalueUses hvalue)
  | .chan dir elem, type, huses, hmeans => by
    obtain ⟨_, helem, -⟩ := Option.of_return_eq_some hmeans
    exact (TypeExpr.resolve_succeeds elem huses helem).map _
  | .func sig, type, huses, hmeans => by
    obtain ⟨_, hsig, -⟩ := Option.of_return_eq_some hmeans
    exact (SignatureExpr.resolve_succeeds sig huses hsig).map _
  | .struct fields, type, huses, hmeans => by
    obtain ⟨_, hfields, -⟩ := Option.of_return_eq_some hmeans
    exact (FieldDecl.resolveAll_succeeds fields huses hfields).map _
  | .interface elems, type, huses, hmeans => by
    obtain ⟨_, helems, -⟩ := Option.of_return_eq_some hmeans
    exact (InterfaceElem.resolveAll_succeeds elems huses helems).map _
  | .group inner, type, huses, hmeans => TypeExpr.resolve_succeeds inner huses hmeans
  | .tilde inner, type, huses, hmeans => by
    obtain ⟨_, hinner, -⟩ := Option.of_return_eq_some hmeans
    exact (TypeExpr.resolve_succeeds inner huses hinner).map _
termination_by structural e => e

theorem TypeExpr.resolveTerms_succeeds : ∀ (terms : List TypeExpr) {found : List Term},
    (∀ u ∈ TypeExpr.allUses params terms, env.Admits Q I enter u) →
      TypeExpr.termMeanings? env t m params terms = some found →
        Succeeds I (TypeExpr.resolveTerms env enter params terms)
  | [], found, _, _ => .pure _
  | term :: terms, found, huses, hmeans => by
    obtain ⟨hfirst, hrest⟩ := List.forall_mem_append.mp huses
    have hterm : ∀ {type}, term.meaning? env t m params = some type →
        Succeeds I (term.resolve env enter params) := TypeExpr.resolve_succeeds term hfirst
    have hterms : ∀ {found}, TypeExpr.termMeanings? env t m params terms = some found →
        Succeeds I (TypeExpr.resolveTerms env enter params terms) :=
      TypeExpr.resolveTerms_succeeds terms hrest
    have hyields := TypeExpr.resolve_yields hI henter term fun u hu => (hfirst u hu).reached
    cases term
    case tilde inner =>
      obtain ⟨_, _, hinner, hothers, -⟩ := Option.of_return₂_eq_some hmeans
      exact (TypeExpr.resolve_succeeds inner hfirst hinner).map₂ _
        (TypeExpr.resolve_yields hI henter inner fun u hu => (hfirst u hu).reached)
        (hterms hothers)
    all_goals
      obtain ⟨_, _, hmeaning, hothers, -⟩ := Option.of_return₂_eq_some hmeans
      exact (hterm hmeaning).map₂ _ hyields (hterms hothers)
termination_by structural terms => terms

theorem TypeArg.resolveAll_succeeds : ∀ (args : List TypeArg) {types : List Ty},
    (∀ u ∈ TypeArg.allUses params args, env.Admits Q I enter u) →
      TypeArg.meanings? env t m params args = some types →
        Succeeds I (TypeArg.resolveAll env enter params args)
  | [], types, _, _ => .pure _
  | ⟨_, terms⟩ :: args, types, huses, hmeans => by
    obtain ⟨htermsUses, hargsUses⟩ := List.forall_mem_append.mp huses
    obtain ⟨_, _, hterms, hargs, -⟩ := Option.of_return₂_eq_some hmeans
    exact (TypeExpr.resolveTerms_succeeds terms htermsUses hterms).map₂ _
      (TypeExpr.resolveTerms_yields hI henter terms fun u hu => (htermsUses u hu).reached)
      (TypeArg.resolveAll_succeeds args hargsUses hargs)
termination_by structural args => args

theorem SignatureExpr.resolve_succeeds : ∀ (sig : SignatureExpr) {signature : Signature},
    (∀ u ∈ sig.uses params, env.Admits Q I enter u) →
      sig.meaning? env t m params = some signature → Succeeds I (sig.resolve env enter params)
  | ⟨decls, results⟩, signature, huses, hmeans => by
    obtain ⟨hdeclsUses, hresultsUses⟩ := List.forall_mem_append.mp huses
    obtain ⟨_, _, hdecls, hresults, -⟩ := Option.of_return₂_eq_some hmeans
    exact (ParamDecl.resolveAll_succeeds decls hdeclsUses hdecls).map₂ _
      (ParamDecl.resolveAll_yields hI henter decls fun u hu => (hdeclsUses u hu).reached)
      (ResultExpr.resolve_succeeds results hresultsUses hresults)
termination_by structural sig => sig

theorem ResultExpr.resolve_succeeds : ∀ (results : ResultExpr) {vars : List Var},
    (∀ u ∈ results.uses params, env.Admits Q I enter u) →
      results.meaning? env t m params = some vars → Succeeds I (results.resolve env enter params)
  | .list decls, vars, huses, hmeans => ParamDecl.resolveAll_succeeds decls huses hmeans
  | .single type, vars, huses, hmeans => by
    obtain ⟨_, htype, -⟩ := Option.of_return_eq_some hmeans
    exact (TypeExpr.resolve_succeeds type huses htype).map _
termination_by structural results => results

theorem ParamDecl.resolveAll_succeeds : ∀ (decls : List ParamDecl) {vars : List Var},
    (∀ u ∈ ParamDecl.allUses params decls, env.Admits Q I enter u) →
      ParamDecl.meanings? env t m params decls = some vars →
        Succeeds I (ParamDecl.resolveAll env enter params decls)
  | [], vars, _, _ => .pure _
  | ⟨names, type, variadic⟩ :: decls, vars, huses, hmeans => by
    obtain ⟨htypeUses, hdeclsUses⟩ := List.forall_mem_append.mp huses
    obtain ⟨_, _, htype, hdecls, -⟩ := Option.of_return₂_eq_some hmeans
    exact (TypeExpr.resolve_succeeds type htypeUses htype).map₂ _
      (TypeExpr.resolve_yields hI henter type fun u hu => (htypeUses u hu).reached)
      (ParamDecl.resolveAll_succeeds decls hdeclsUses hdecls)
termination_by structural decls => decls

theorem FieldDecl.resolveAll_succeeds : ∀ (decls : List FieldDecl) {fields : List Field},
    (∀ u ∈ FieldDecl.allUses params decls, env.Admits Q I enter u) →
      FieldDecl.meanings? env t m params decls = some fields →
        Succeeds I (FieldDecl.resolveAll env enter params decls)
  | [], fields, _, _ => .pure _
  | .named names type tag :: decls, fields, huses, hmeans => by
    obtain ⟨htypeUses, hdeclsUses⟩ := List.forall_mem_append.mp huses
    obtain ⟨_, _, htype, hdecls, -⟩ := Option.of_return₂_eq_some hmeans
    exact (TypeExpr.resolve_succeeds type htypeUses htype).map₂ _
      (TypeExpr.resolve_yields hI henter type fun u hu => (htypeUses u hu).reached)
      (FieldDecl.resolveAll_succeeds decls hdeclsUses hdecls)
  | .embedded pointer name args tag :: decls, fields, huses, hmeans => by
    obtain ⟨hfieldUses, hdeclsUses⟩ := List.forall_mem_append.mp huses
    obtain ⟨hargsUses, hnameUses⟩ := List.forall_mem_append.mp hfieldUses
    obtain ⟨types, htypes, hmeans⟩ := Option.bind_eq_some_iff.mp hmeans
    obtain ⟨_, _, htype, hdecls, -⟩ := Option.of_return₂_eq_some hmeans
    have hname := name.resolve_args_succeeds hI henter hargsUses
      (TypeArg.resolveAll_succeeds args hargsUses htypes) htypes hnameUses htype
    have hyields := TypeName.resolve_args_yields hI henter name
      (TypeArg.resolveAll_yields hI henter args fun u hu => (hargsUses u hu).reached)
      fun u hu => (hnameUses u hu).reached
    have hembedded := hname.map₂ (fun type fields =>
        (⟨name.unqualified, if pointer then .pointer type else type, true,
          tag.map Text.StringLiteral.unquote⟩ : Field) :: fields) hyields
      (FieldDecl.resolveAll_succeeds decls hdeclsUses hdecls)
    simpa only [FieldDecl.resolveAll, bind_assoc] using hembedded
termination_by structural decls => decls

theorem InterfaceElem.resolveAll_succeeds :
    ∀ (elems : List InterfaceElem) {found : List ResolvedElem},
      (∀ u ∈ InterfaceElem.allUses params elems, env.Admits Q I enter u) →
        InterfaceElem.meanings? env t m params elems = some found →
          Succeeds I (InterfaceElem.resolveAll env enter params elems)
  | [], found, _, _ => .pure _
  | .method name sig :: elems, found, huses, hmeans => by
    obtain ⟨hsigUses, helemsUses⟩ := List.forall_mem_append.mp huses
    obtain ⟨_, _, hsig, helems, -⟩ := Option.of_return₂_eq_some hmeans
    have hreached : ∀ u ∈ sig.uses params, Q u.1 := fun u hu => (hsigUses u hu).reached
    refine (SignatureExpr.resolve_succeeds sig hsigUses hsig).bind
      (SignatureExpr.resolve_yields hI henter sig hreached) fun sig => ?_
    refine (Succeeds.modify _).bind (Yields.define rfl fun p ⟨hp, hsig⟩ => ⟨hI.define p _ rfl hp
      (hI.counts_signature hp hreached (hsig p (.refl p))), fun q hq =>
        hsig q ((p.later_define _).trans hq)⟩) fun _ => ?_
    exact ((InterfaceElem.resolveAll_succeeds elems helemsUses helems).mono
      fun _ hp => hp.1.1).map _
  | .union terms :: elems, found, huses, hmeans => by
    obtain ⟨htermsUses, helemsUses⟩ := List.forall_mem_append.mp huses
    obtain ⟨_, _, hterms, helems, -⟩ := Option.of_return₂_eq_some hmeans
    exact (TypeExpr.resolveTerms_succeeds terms htermsUses hterms).map₂ _
      (TypeExpr.resolveTerms_yields hI henter terms fun u hu => (htermsUses u hu).reached)
      (InterfaceElem.resolveAll_succeeds elems helemsUses helems)
termination_by structural elems => elems

end

/-! ## Type parameters -/

theorem TypeParamDecl.resolveAll_succeeds (decls : List TypeParamDecl) {found : List TypeParam}
    (huses : ∀ u ∈ TypeParamDecl.allUses params decls, env.Admits Q I enter u)
    (hmeans : TypeParamDecl.meanings? env t m params decls = some found) :
    Succeeds I (TypeParamDecl.resolveAll env enter params decls) := by
  induction decls generalizing found with
  | nil => exact .pure _
  | cons decl decls ih =>
    obtain ⟨hfirst, hrest⟩ := List.forall_mem_append.mp huses
    obtain ⟨_, _, hterms, hdecls, -⟩ := Option.of_return₂_eq_some hmeans
    exact (TypeExpr.resolveTerms_succeeds hI henter decl.constraint hfirst hterms).map₂ _
      (TypeExpr.resolveTerms_yields hI henter decl.constraint fun u hu => (hfirst u hu).reached)
      (ih hrest hdecls)

end

end GoSignatures

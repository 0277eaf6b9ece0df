import GoSignatures.Proofs.Resolution.Guarded

/-!
# Type expressions under guard

Under the invariant of a run the types that names mean refer to places of the table. So no guard in
a type expression strikes, and the run goes on as it does without guards, provided that it does so
where it enters a declared name.

* `Resolve.Agrees` — two steps do the same wherever an invariant holds
* `TypeName.resolveGuarded_agrees` — names, with the lookups that they need
* `TypeExpr.resolveGuarded_agrees` — type expressions
* `TypeParamDecl.resolveAllGuarded_agrees` — declarations of type parameters
-/

namespace GoSignatures

open Resolve

/-! ## Steps that do the same -/

namespace Resolve

variable {α β γ : Type} {I J : Progress → Prop}

/-- Steps that begin alike go on alike if they do so from what the first step finds. -/
theorem bind_congr_run {x y : Resolve α} {f g : α → Resolve β} {p : Progress} (hxy : x p = y p)
    (hfg : ∀ a q, y p = .ok (a, q) → f a q = g a q) : (x >>= f) p = (y >>= g) p := by
  show (x p >>= fun r => f r.1 r.2) = (y p >>= fun r => g r.1 r.2)
  rw [hxy]
  cases hrun : y p with
  | error e => rfl
  | ok r => exact hfg r.1 r.2 hrun

/-- Two steps do the same wherever `I` holds. -/
def Agrees (I : Progress → Prop) (x y : Resolve α) : Prop :=
  ∀ p, I p → x p = y p

namespace Agrees

theorem refl (x : Resolve α) : Agrees I x x := fun _ _ => rfl

theorem mono {x y : Resolve α} (hJI : ∀ p, J p → I p) (h : Agrees I x y) : Agrees J x y :=
  fun p hp => h p (hJI p hp)

/-- What the first step has found may be used in the second. -/
theorem bind {S : α → Progress → Prop} {x y : Resolve α} {f g : α → Resolve β}
    (hxy : Agrees I x y) (hy : Yields I S y)
    (hfg : ∀ a, Agrees (fun p => I p ∧ ∀ q, p.Later q → S a q) (f a) (g a)) :
    Agrees I (x >>= f) (y >>= g) := by
  refine fun p hp => bind_congr_run (hxy p hp) fun a q hrun => ?_
  obtain ⟨hq, -, hlasts⟩ := hy p a q hp hrun
  exact hfg a q ⟨hq, hlasts⟩

theorem map (f : α → β) {x y : Resolve α} (h : Agrees I x y) :
    Agrees I (do return f (← x)) (do return f (← y)) := by
  intro p hp
  show (x p >>= fun r => .ok (f r.1, r.2)) = (y p >>= fun r => .ok (f r.1, r.2))
  rw [h p hp]

theorem of_map {f : α → β} (hf : ∀ a b, f a = f b → a = b) {x y : Resolve α}
    (h : Agrees I (do return f (← x)) (do return f (← y))) : Agrees I x y := by
  intro p hp
  have hrun : (x p >>= fun r => .ok (f r.1, r.2)) = (y p >>= fun r => .ok (f r.1, r.2)) := h p hp
  cases hx : x p <;> cases hy : y p <;> rw [hx, hy] at hrun
  case error.error e e' =>
    have herror : (.error e : Except ResolveError (β × Progress)) = .error e' := hrun
    cases herror
    rfl
  case error.ok => cases hrun
  case ok.error => cases hrun
  case ok.ok r r' =>
    have hresult : (.ok (f r.1, r.2) : Except ResolveError (β × Progress)) = .ok (f r'.1, r'.2) :=
      hrun
    simp only [Except.ok.injEq, Prod.mk.injEq] at hresult
    rw [Prod.ext (hf _ _ hresult.1) hresult.2]

theorem map₂ (f : α → β → γ) {S : α → Progress → Prop} {x y : Resolve α} {x' y' : Resolve β}
    (h : Agrees I x y) (hy : Yields I S y) (h' : Agrees I x' y') :
    Agrees I (do return f (← x) (← x')) (do return f (← y) (← y')) :=
  h.bind hy fun a => (h'.map (f a)).mono fun _ hp => hp.1

end Agrees

/-- A guard whose test succeeds lets the run go on. -/
theorem guard_bind {broken : ResolveError} {test : Progress → Bool} {p : Progress}
    (h : test p = true) (f : Unit → Resolve β) : (guard broken test >>= f) p = f () p := by
  refine bind_eq_of_eq_ok ?_ f
  simp only [guard, get_bind, h, if_true]
  rfl

theorem guardPlace_bind {broken : ResolveError} {id : Nat} {p : Progress} (h : id < p.table.size)
    (f : Unit → Resolve β) : (guardPlace broken id >>= f) p = f () p :=
  guard_bind (by simpa using h) f

theorem guardTypes_bind {broken : ResolveError} {types : List Ty} {p : Progress}
    (herror : errorId < p.table.size) (h : Ty.AllProper p.table.places types)
    (f : Unit → Resolve β) : (guardTypes broken types >>= f) p = f () p := by
  refine guard_bind (List.all_eq_true.mpr fun r hr => ?_) f
  have hplace : r.1 < p.table.size := Ty.AllProper.references herror h r hr
  simpa using hplace

end Resolve

section

variable {broken : ResolveError} {env : Env} {enter enter' : EnterType} {params : List String}
  {unset : List Nat} {I : Progress → Prop} {Q : String → Prop}
  (hI : env.Keeps unset Q I)
  (henter : ∀ name : Piece, Q name.text →
    Yields I (fun type q => env.typeOf? q name.text = some type) (enter name))
  (hagrees : ∀ name : Piece, Q name.text → Agrees I (enter' name) (enter name))
include hI henter hagrees

/-! ## Names -/

omit henter hagrees in
/-- A declared type that a name means has a place. -/
theorem Env.Keeps.lt_size_of_ofName? {p : Progress} (hp : I p) {name : String} {id : Nat}
    {args : List Ty} (h : Ty.ofName? env (env.typeOf? p) params name = some (.named id args)) :
    id < p.table.size := by
  by_cases htype : env.scope.isType name = true
  · exact hI.lt_size hp (Ty.ofName?_of_isType htype h).2
  · have hid := Ty.le_comparableId_of_ofName? (by simpa using htype) h
    exact Nat.lt_of_le_of_lt hid (hI.size p hp)

omit hI henter in
theorem Ty.ofName_agrees {name : Piece} (hname : params.contains name.text = false → Q name.text) :
    Agrees I (Ty.ofName env enter' params name) (Ty.ofName env enter params name) := by
  unfold Ty.ofName
  by_cases hparam : params.contains name.text = true
  · simp only [hparam, if_true]
    exact .refl _
  simp only [hparam, Bool.false_eq_true, if_false]
  cases hlookup : env.scope.lookup name.text with
  | some entry =>
    cases entry with
    | type spec => exact hagrees name (hname (by simpa using hparam))
    | _ => exact .refl _
  | none => exact .refl _

theorem Ty.ofBareNameGuarded_agrees {name : Piece}
    (hname : params.contains name.text = false → Q name.text) :
    Agrees I (Ty.ofBareNameGuarded broken env enter' params name)
      (Ty.ofBareName env enter params name) := by
  refine (Ty.ofName_agrees hagrees hname).bind (Ty.ofName_yields henter hname) fun type => ?_
  rintro p ⟨hp, hmeans⟩
  cases type with
  | named id args =>
    exact guardPlace_bind (hI.lt_size_of_ofName? hp (hmeans p (.refl p))) _
  | _ => rfl

theorem Ty.ofGenericNameGuarded_agrees {name : Piece} {args : List Ty}
    (hname : params.contains name.text = false → Q name.text) :
    Agrees I (Ty.ofGenericNameGuarded broken env enter' params name args)
      (Ty.ofGenericName env enter params name args) := by
  refine (Ty.ofName_agrees hagrees hname).bind (Ty.ofName_yields henter hname) fun type => ?_
  rintro p ⟨hp, hmeans⟩
  match type, hmeans with
  | .named id [], hmeans =>
    exact guardPlace_bind (hI.lt_size_of_ofName? hp (hmeans p (.refl p))) _
  | .named _ (_ :: _), _ => rfl
  | .basic _, _ | .imported _ _ _, _ | .param _, _ | .pointer _, _ | .slice _, _ | .array _ _, _
  | .map _ _, _ | .chan _ _, _ | .func _, _ | .struct _, _ | .interface _, _ | .invalid, _ => rfl

theorem TypeName.resolveGuarded_agrees {args : List Ty} (name : TypeName)
    (hname : ∀ u ∈ name.uses params args.length, Q u.1) :
    Agrees (fun p => I p ∧ Ty.AllProper p.table.places args)
      (name.resolveGuarded broken env enter' params args) (name.resolve env enter params args) := by
  cases name with
  | qualified package name =>
    rintro p ⟨hp, hargs⟩
    simp only [TypeName.resolveGuarded, TypeName.resolve, Ty.ofQualifiedNameGuarded,
      Ty.ofQualifiedName]
    cases env.scope.imports.lookup package.text with
    | some entry => exact guardTypes_bind (Nat.lt_of_succ_lt (hI.size p hp)) hargs _
    | none => rfl
  | plain name =>
    have huse : params.contains name.text = false → Q name.text := fun hparam =>
      hname (name.text, args.length) (by simpa [TypeName.uses] using hparam)
    simp only [TypeName.resolveGuarded, TypeName.resolve]
    split
    · exact (Ty.ofBareNameGuarded_agrees hI henter hagrees huse).mono fun _ hp => hp.1
    · exact (Ty.ofGenericNameGuarded_agrees hI henter hagrees huse).mono fun _ hp => hp.1

/-- A name with type arguments, once it is known that these agree. -/
theorem TypeName.resolveGuarded_args_agrees (name : TypeName) {args : List TypeArg}
    (hQ : ∀ u ∈ TypeArg.allUses params args, Q u.1)
    (hargs : Agrees I (TypeArg.resolveAllGuarded broken env enter' params args)
      (TypeArg.resolveAll env enter params args))
    (hname : ∀ u ∈ name.uses params args.length, Q u.1) :
    Agrees I
      (do
        let types ← TypeArg.resolveAllGuarded broken env enter' params args
        name.resolveGuarded broken env enter' params types)
      (do name.resolve env enter params (← TypeArg.resolveAll env enter params args)) := by
  refine hargs.bind (TypeArg.resolveAll_yields hI henter args hQ) fun types => ?_
  rintro p ⟨hp, hread⟩
  have hmeaning := (hread p (.refl p)).meaning
  rw [← TypeArg.length_meanings? hmeaning] at hname
  exact TypeName.resolveGuarded_agrees hI henter hagrees name hname p
    ⟨hp, hI.allProper_args hp hmeaning⟩

/-! ## Expressions -/

-- each lemma of the block has the assumptions for the others, which the linter does not see
set_option linter.unusedSectionVars false in
mutual

/-- Resolving a type expression under guard does the same. -/
theorem TypeExpr.resolveGuarded_agrees : ∀ e : TypeExpr, (∀ u ∈ e.uses params, Q u.1) →
    Agrees I (e.resolveGuarded broken env enter' params) (e.resolve env enter params)
  | .named name args, hQ => by
    obtain ⟨hargs, hname⟩ := List.forall_mem_append.mp hQ
    exact TypeName.resolveGuarded_args_agrees hI henter hagrees name hargs
      (TypeArg.resolveAllGuarded_agrees args hargs) hname
  | .pointer elem, hQ => (TypeExpr.resolveGuarded_agrees elem hQ).map Ty.pointer
  | .slice elem, hQ => (TypeExpr.resolveGuarded_agrees elem hQ).map Ty.slice
  | .array length elem, hQ =>
    (TypeExpr.resolveGuarded_agrees elem hQ).map (Ty.array (length.arrayLen env.scope))
  | .map key value, hQ => by
    obtain ⟨hkey, hvalue⟩ := List.forall_mem_append.mp hQ
    exact (TypeExpr.resolveGuarded_agrees key hkey).map₂ Ty.map
      (TypeExpr.resolve_yields hI henter key hkey) (TypeExpr.resolveGuarded_agrees value hvalue)
  | .chan dir elem, hQ => (TypeExpr.resolveGuarded_agrees elem hQ).map (Ty.chan dir)
  | .func sig, hQ => (SignatureExpr.resolveGuarded_agrees sig hQ).map Ty.func
  | .struct fields, hQ => (FieldDecl.resolveAllGuarded_agrees fields hQ).map Ty.struct
  | .interface elems, hQ =>
    (InterfaceElem.resolveAllGuarded_agrees elems hQ).map fun found : List ResolvedElem =>
      Ty.interface (.ofElems (found.filterMap Sum.getLeft?) (found.filterMap Sum.getRight?))
  | .group inner, hQ => TypeExpr.resolveGuarded_agrees inner hQ
  | .tilde inner, hQ =>
    (TypeExpr.resolveGuarded_agrees inner hQ).map fun type => Ty.union [⟨true, type⟩]
termination_by structural e => e

theorem TypeExpr.resolveTermsGuarded_agrees : ∀ terms : List TypeExpr,
    (∀ u ∈ TypeExpr.allUses params terms, Q u.1) →
      Agrees I (TypeExpr.resolveTermsGuarded broken env enter' params terms)
        (TypeExpr.resolveTerms env enter params terms)
  | [], _ => .refl _
  | term :: terms, hQ => by
    obtain ⟨hfirst, hrest⟩ := List.forall_mem_append.mp hQ
    have hterm := TypeExpr.resolveGuarded_agrees term hfirst
    have hyields := TypeExpr.resolve_yields hI henter term hfirst
    have hterms := TypeExpr.resolveTermsGuarded_agrees terms hrest
    cases term
    case tilde inner =>
      -- as a type of its own the term is a union, which tells what stands behind the tilde
      have hunion : ∀ type type' : Ty, Ty.union [⟨true, type⟩] = Ty.union [⟨true, type'⟩] →
          type = type' := by simp [Ty.union]
      have hreads : Yields I (env.Reads unset (fun t m => inner.meaning? env t m params)
          (inner.uses params)) (inner.resolve env enter params) := Env.Reads.of_map hunion hyields
      exact (Agrees.of_map hunion hterm).map₂ (fun type terms => (⟨true, type⟩ : Term) :: terms)
        hreads hterms
    all_goals exact hterm.map₂ (fun type terms => (⟨false, type⟩ : Term) :: terms) hyields hterms
termination_by structural terms => terms

theorem TypeArg.resolveAllGuarded_agrees : ∀ args : List TypeArg,
    (∀ u ∈ TypeArg.allUses params args, Q u.1) →
      Agrees I (TypeArg.resolveAllGuarded broken env enter' params args)
        (TypeArg.resolveAll env enter params args)
  | [], _ => .refl _
  | ⟨_, terms⟩ :: args, hQ => by
    obtain ⟨hterms, hargs⟩ := List.forall_mem_append.mp hQ
    exact (TypeExpr.resolveTermsGuarded_agrees terms hterms).map₂
      (fun terms types => Ty.ofTerms terms :: types)
      (TypeExpr.resolveTerms_yields hI henter terms hterms)
      (TypeArg.resolveAllGuarded_agrees args hargs)
termination_by structural args => args

theorem SignatureExpr.resolveGuarded_agrees : ∀ sig : SignatureExpr,
    (∀ u ∈ sig.uses params, Q u.1) →
      Agrees I (sig.resolveGuarded broken env enter' params) (sig.resolve env enter params)
  | ⟨decls, results⟩, hQ => by
    obtain ⟨hdecls, hresults⟩ := List.forall_mem_append.mp hQ
    exact (ParamDecl.resolveAllGuarded_agrees decls hdecls).map₂
      (fun vars results =>
        (⟨none, [], vars, results, decls.any ParamDecl.variadic⟩ : Signature))
      (ParamDecl.resolveAll_yields hI henter decls hdecls)
      (ResultExpr.resolveGuarded_agrees results hresults)
termination_by structural sig => sig

theorem ResultExpr.resolveGuarded_agrees : ∀ results : ResultExpr,
    (∀ u ∈ results.uses params, Q u.1) →
      Agrees I (results.resolveGuarded broken env enter' params) (results.resolve env enter params)
  | .list decls, hQ => ParamDecl.resolveAllGuarded_agrees decls hQ
  | .single type, hQ =>
    (TypeExpr.resolveGuarded_agrees type hQ).map fun type => [(⟨"", type⟩ : Var)]
termination_by structural results => results

theorem ParamDecl.resolveAllGuarded_agrees : ∀ decls : List ParamDecl,
    (∀ u ∈ ParamDecl.allUses params decls, Q u.1) →
      Agrees I (ParamDecl.resolveAllGuarded broken env enter' params decls)
        (ParamDecl.resolveAll env enter params decls)
  | [], _ => .refl _
  | ⟨names, type, variadic⟩ :: decls, hQ => by
    obtain ⟨htype, hdecls⟩ := List.forall_mem_append.mp hQ
    exact (TypeExpr.resolveGuarded_agrees type htype).map₂
      (fun type vars => Var.ofNames names (if variadic then .slice type else type) ++ vars)
      (TypeExpr.resolve_yields hI henter type htype)
      (ParamDecl.resolveAllGuarded_agrees decls hdecls)
termination_by structural decls => decls

theorem FieldDecl.resolveAllGuarded_agrees : ∀ decls : List FieldDecl,
    (∀ u ∈ FieldDecl.allUses params decls, Q u.1) →
      Agrees I (FieldDecl.resolveAllGuarded broken env enter' params decls)
        (FieldDecl.resolveAll env enter params decls)
  | [], _ => .refl _
  | .named names type tag :: decls, hQ => by
    obtain ⟨htype, hdecls⟩ := List.forall_mem_append.mp hQ
    exact (TypeExpr.resolveGuarded_agrees type htype).map₂
      (fun type fields => Field.ofNames names type (tag.map Text.StringLiteral.unquote) ++ fields)
      (TypeExpr.resolve_yields hI henter type htype)
      (FieldDecl.resolveAllGuarded_agrees decls hdecls)
  | .embedded pointer name args tag :: decls, hQ => by
    obtain ⟨hfield, hdecls⟩ := List.forall_mem_append.mp hQ
    obtain ⟨hargs, hname⟩ := List.forall_mem_append.mp hfield
    have hembedded := (TypeName.resolveGuarded_args_agrees hI henter hagrees name hargs
        (TypeArg.resolveAllGuarded_agrees args hargs) hname).map₂
      (fun type fields => (⟨name.unqualified, if pointer then .pointer type else type, true,
          tag.map Text.StringLiteral.unquote⟩ : Field) :: fields)
      (TypeName.resolve_args_yields hI henter name
        (TypeArg.resolveAll_yields hI henter args hargs) hname)
      (FieldDecl.resolveAllGuarded_agrees decls hdecls)
    simpa only [FieldDecl.resolveAllGuarded, FieldDecl.resolveAll, bind_assoc] using hembedded
termination_by structural decls => decls

theorem InterfaceElem.resolveAllGuarded_agrees : ∀ elems : List InterfaceElem,
    (∀ u ∈ InterfaceElem.allUses params elems, Q u.1) →
      Agrees I (InterfaceElem.resolveAllGuarded broken env enter' params elems)
        (InterfaceElem.resolveAll env enter params elems)
  | [], _ => .refl _
  | .method name sig :: elems, hQ => by
    obtain ⟨huses, helems⟩ := List.forall_mem_append.mp hQ
    refine (SignatureExpr.resolveGuarded_agrees sig huses).bind
      (SignatureExpr.resolve_yields hI henter sig huses) fun signature => ?_
    rintro p ⟨hp, hsig⟩
    rw [modify_bind, modify_bind]
    have hdefined := hI.define p ⟨name.text, signature, name.position, .interface⟩ rfl hp
      (hI.counts_signature hp huses (hsig p (.refl p)))
    exact (InterfaceElem.resolveAllGuarded_agrees elems helems).map
      (fun found => (.inl ⟨name.text, signature⟩ :: found : List ResolvedElem)) _ hdefined
  | .union terms :: elems, hQ => by
    obtain ⟨hterms, helems⟩ := List.forall_mem_append.mp hQ
    exact (TypeExpr.resolveTermsGuarded_agrees terms hterms).map₂
      (fun terms found => (.inr (.ofTerms terms) :: found : List ResolvedElem))
      (TypeExpr.resolveTerms_yields hI henter terms hterms)
      (InterfaceElem.resolveAllGuarded_agrees elems helems)
termination_by structural elems => elems

end

/-! ## Type parameters -/

/-- Resolving declarations of type parameters under guard does the same. -/
theorem TypeParamDecl.resolveAllGuarded_agrees (decls : List TypeParamDecl)
    (hQ : ∀ u ∈ TypeParamDecl.allUses params decls, Q u.1) :
    Agrees I (TypeParamDecl.resolveAllGuarded broken env enter' params decls)
      (TypeParamDecl.resolveAll env enter params decls) := by
  induction decls with
  | nil => exact .refl _
  | cons decl decls ih =>
    obtain ⟨hconstraint, hdecls⟩ := List.forall_mem_append.mp hQ
    exact (TypeExpr.resolveTermsGuarded_agrees hI henter hagrees decl.constraint hconstraint).map₂
      (fun terms found =>
        decl.names.map (fun name => (⟨name, Ty.ofTerms terms⟩ : TypeParam)) ++ found)
      (TypeExpr.resolveTerms_yields hI henter decl.constraint hconstraint) (ih hdecls)

end

end GoSignatures

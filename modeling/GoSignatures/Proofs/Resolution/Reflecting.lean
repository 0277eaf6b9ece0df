import GoSignatures.Proofs.Resolution.Expression
import GoSignatures.Proofs.Resolution.Remembering

/-!
# Type expressions with a memory

A step with a memory does what the step does that is handed the context, as long as the memory holds
what was found and the context that would be handed down. Other names for types may be remembered
anew, so the lists of them may differ; the first entry of each name is the same in both.

* `Memory.Reflects` — a memory holds what was found, and a context
* `Resolve.Mirrored` — a step with a memory does what a step does that is handed a context
* `TypeExpr.resolveIn_mirrored` — type expressions
* `TypeParamDecl.resolveAllIn_mirrored` — declarations of type parameters
-/

namespace GoSignatures

/-- The memory holds what was found, and the context: the type parameters in force and the other
names for types that are being resolved. -/
structure Memory.Reflects (params resolving : List String) (p : Progress) (m : Memory) : Prop where
  table : m.table = p.table
  entered : m.entered = p.entered
  aliases : ∀ name, m.aliases.lookup name = p.aliases.lookup name
  pending : m.pending = p.pending
  definitions : m.definitions = p.definitions
  params : m.params = params
  resolving : m.resolving = resolving

variable {params resolving : List String} {p : Progress} {m : Memory}

theorem Memory.Reflects.define (h : m.Reflects params resolving p) (d : Definition) :
    ({ m with toProgress := m.toProgress.define d } : Memory).Reflects params resolving
      (p.define d) :=
  { h with definitions := by rw [Progress.define, Progress.define, h.definitions] }

theorem Memory.Reflects.defineAll (h : m.Reflects params resolving p) (ds : List Definition) :
    ({ m with definitions := m.definitions ++ ds } : Memory).Reflects params resolving
      { p with definitions := p.definitions ++ ds } :=
  { h with definitions := congrArg (· ++ ds) h.definitions }

/-! ## Steps that do the same -/

namespace Resolve

variable {α β γ : Type} {I J : Progress → Prop}

/-- A step with a memory ends as the step does that is handed the context. -/
def EndsAlike (params resolving : List String) :
    Except ResolveError (α × Progress) → EStateM.Result ResolveError Memory α → Prop
  | .ok (a, p), .ok a' m => a = a' ∧ m.Reflects params resolving p
  | .error e, .error e' _ => e = e'
  | _, _ => False

/-- Wherever `I` holds, `y` with a memory does what `x` does that is handed the context. -/
def Mirrored (params resolving : List String) (I : Progress → Prop) (x : Resolve α)
    (y : Remember α) : Prop :=
  ∀ p m, I p → m.Reflects params resolving p → EndsAlike params resolving (x p) (y m)

theorem EndsAlike.error_or_ok {r : Except ResolveError (α × Progress)}
    {r' : EStateM.Result ResolveError Memory α} (h : EndsAlike params resolving r r') :
    (∃ e m, r = .error e ∧ r' = .error e m) ∨
      ∃ a p m, r = .ok (a, p) ∧ r' = .ok a m ∧ m.Reflects params resolving p := by
  match r, r', h with
  | .error e, .error _ m, rfl => exact Or.inl ⟨e, m, rfl, rfl⟩
  | .ok (a, p), .ok _ m, ⟨rfl, hm⟩ => exact Or.inr ⟨a, p, m, rfl, rfl, hm⟩

section

variable {params' resolving' : List String} {x : Resolve α} {y : Remember α} {f : α → Resolve β}
  {g : α → Remember β} (h : EndsAlike params resolving (x p) (y m))
include h

/-- Steps that end alike go on alike if they do so from what the first step finds. -/
theorem EndsAlike.bind (hrest : ∀ a q m', x p = .ok (a, q) → m'.Reflects params resolving q →
      EndsAlike params' resolving' (f a q) (g a m')) :
    EndsAlike params' resolving' ((x >>= f) p) ((y >>= g) m) := by
  show EndsAlike _ _ (x p >>= fun r => f r.1 r.2) (EStateM.bind y g m)
  rw [EStateM.bind]
  rcases h.error_or_ok with ⟨e, m', hx, hy⟩ | ⟨a, q, m', hx, hy, hm'⟩
  · rw [hx, hy]
    exact rfl
  · rw [hx, hy]
    exact hrest a q m' hx hm'

/-- The same where an error is held back until the memory was put back by `back`. -/
theorem EndsAlike.capture (back : Memory → Memory)
    (hrest : ∀ a q m', x p = .ok (a, q) → m'.Reflects params resolving q →
      EndsAlike params' resolving' (f a q) (g a (back m'))) :
    EndsAlike params' resolving' ((x >>= f) p)
      ((Remember.pass (Remember.outcome (y m)) >>= g) (back (Remember.memory (y m)))) := by
  show EndsAlike _ _ (x p >>= fun r => f r.1 r.2) _
  rcases h.error_or_ok with ⟨e, m', hx, hy⟩ | ⟨a, q, m', hx, hy, hm'⟩
  · rw [hx, hy]
    exact rfl
  · rw [hx, hy]
    exact hrest a q m' hx hm'

end

namespace Mirrored

theorem pure (a : α) : Mirrored params resolving I (Pure.pure a) (Pure.pure a) :=
  fun _ _ _ hm => ⟨rfl, hm⟩

theorem fail {env : Env} {position : Position} {cause : ResolveCause} :
    Mirrored params resolving I (env.fail position cause : Resolve α)
      (env.failIn position cause) :=
  fun _ _ _ _ => rfl

/-- What is looked up in the table is the same. -/
theorem readTable (f : Table → Resolve α) (g : Table → Remember α)
    (h : ∀ t, Mirrored params resolving I (f t) (g t)) :
    Mirrored params resolving I (do f (← get).table) (do g (← get).table) := by
  intro p m hp hm
  have hends := h p.table p m hp hm
  rw [get_bind, Remember.get_bind, hm.table]
  exact hends

theorem mono {x : Resolve α} {y : Remember α} (hJI : ∀ p, J p → I p)
    (h : Mirrored params resolving I x y) : Mirrored params resolving J x y :=
  fun p m hp hm => h p m (hJI p hp) hm

/-- What the first step has found may be used in the second. -/
theorem bind {S : α → Progress → Prop} {x : Resolve α} {y : Remember α} {f : α → Resolve β}
    {g : α → Remember β} (h : Mirrored params resolving I x y) (hx : Yields I S x)
    (hfg : ∀ a, Mirrored params resolving (fun p => I p ∧ ∀ q, p.Later q → S a q) (f a) (g a)) :
    Mirrored params resolving I (x >>= f) (y >>= g) := by
  intro p m hp hm
  refine (h p m hp hm).bind fun a q m' hrun hm' => ?_
  obtain ⟨hq, -, hlasts⟩ := hx p a q hp hrun
  exact hfg a q m' ⟨hq, hlasts⟩ hm'

theorem map (f : α → β) {x : Resolve α} {y : Remember α} (h : Mirrored params resolving I x y) :
    Mirrored params resolving I (do return f (← x)) (do return f (← y)) :=
  fun p m hp hm => (h p m hp hm).bind fun _ _ _ _ hm' => ⟨rfl, hm'⟩

theorem of_map {f : α → β} (hf : ∀ a b, f a = f b → a = b) {x : Resolve α} {y : Remember α}
    (h : Mirrored params resolving I (do return f (← x)) (do return f (← y))) :
    Mirrored params resolving I x y := by
  intro p m hp hm
  have hends : EndsAlike params resolving (x p >>= fun r => .ok (f r.1, r.2))
      (EStateM.bind y (fun a => EStateM.pure (f a)) m) := h p m hp hm
  rw [EStateM.bind] at hends
  cases hx : x p <;> cases hy : y m <;> rw [hx, hy] at hends
  case ok.ok r a m' => exact ⟨hf _ _ hends.1, hends.2⟩
  all_goals exact hends

theorem map₂ (f : α → β → γ) {S : α → Progress → Prop} {x : Resolve α} {y : Remember α}
    {x' : Resolve β} {y' : Remember β} (h : Mirrored params resolving I x y) (hx : Yields I S x)
    (h' : Mirrored params resolving I x' y') :
    Mirrored params resolving I (do return f (← x) (← x')) (do return f (← y) (← y')) :=
  h.bind hx fun a => (h'.map (f a)).mono fun _ hp => hp.1

end Mirrored

end Resolve

open Resolve

section

variable {env : Env} {enter : EnterType} {enterIn : EnterTypeIn} {unset : List Nat}
  {I : Progress → Prop} {Q : String → Prop} (hI : env.Keeps unset Q I)
  (henter : ∀ name : Piece, Q name.text →
    Yields I (fun type q => env.typeOf? q name.text = some type) (enter name))
  (hmirrored : ∀ name : Piece, Q name.text →
    Mirrored params resolving I (enter name) (enterIn name))
include henter hmirrored

/-! ## Names -/

omit henter in
theorem Ty.ofNameIn_mirrored {name : Piece}
    (hname : params.contains name.text = false → Q name.text) :
    Mirrored params resolving I (Ty.ofName env enter params name)
      (Ty.ofNameIn env enterIn name) := by
  intro p m hp hm
  rw [Ty.ofName, Ty.ofNameIn, Remember.get_bind, hm.params]
  split
  · exact ⟨rfl, hm⟩
  · next hparam =>
    cases env.scope.lookup name.text with
    | some entry =>
      cases entry with
      | type spec => exact hmirrored name (hname (by simpa using hparam)) p m hp hm
      | _ => exact rfl
    | none =>
      dsimp only
      rw [Ty.ofUndeclaredNameIn]
      cases Universe.type? name.text with
      | some type => exact ⟨rfl, hm⟩
      | none =>
        dsimp only
        split
        · exact rfl
        · cases env.scope.imports.dotImport? with
          | some path => exact ⟨rfl, hm⟩
          | none => exact rfl

theorem Ty.ofBareNameIn_mirrored {name : Piece}
    (hname : params.contains name.text = false → Q name.text) :
    Mirrored params resolving I (Ty.ofBareName env enter params name)
      (Ty.ofBareNameIn env enterIn name) := by
  refine (Ty.ofNameIn_mirrored hmirrored hname).bind (Ty.ofName_yields henter hname) fun type => ?_
  cases type with
  | named id args =>
    refine .readTable
      (fun t => if args.isEmpty && (t.typeParams id).length > 0 then
        env.fail name.position (.typeArgumentCount name.text (t.typeParams id).length 0)
        else return Ty.named id args)
      (fun t => if args.isEmpty && (t.typeParams id).length > 0 then
        env.failIn name.position (.typeArgumentCount name.text (t.typeParams id).length 0)
        else return .named id args) fun t => ?_
    split
    · exact .fail
    · exact .pure _
  | _ => exact .pure _

theorem Ty.ofGenericNameIn_mirrored {name : Piece} {args : List Ty}
    (hname : params.contains name.text = false → Q name.text) :
    Mirrored params resolving I (Ty.ofGenericName env enter params name args)
      (Ty.ofGenericNameIn env enterIn name args) := by
  refine (Ty.ofNameIn_mirrored hmirrored hname).bind (Ty.ofName_yields henter hname) fun type => ?_
  have hother : Mirrored params resolving (fun p => I p ∧ ∀ q, p.Later q →
      Ty.ofName? env (env.typeOf? q) params name.text = some type)
      (if env.scope.isAlias name.text then (pure type : Resolve Ty)
        else env.fail name.position (.typeArgumentCount name.text 0 args.length))
      (if env.scope.isAlias name.text then pure type
        else env.failIn name.position (.typeArgumentCount name.text 0 args.length)) := by
    split
    · exact .pure _
    · exact .fail
  match type, hother with
  | .named id [], _ =>
    refine .readTable
      (fun t => if (t.typeParams id).length = args.length then return Ty.named id args
        else env.fail name.position
          (.typeArgumentCount name.text (t.typeParams id).length args.length))
      (fun t => if (t.typeParams id).length = args.length then return Ty.named id args
        else env.failIn name.position
          (.typeArgumentCount name.text (t.typeParams id).length args.length)) fun t => ?_
    split
    · exact .pure _
    · exact .fail
  | .named _ (_ :: _), hother => exact hother
  | .basic _, hother | .imported _ _ _, hother | .param _, hother | .pointer _, hother
  | .slice _, hother | .array _ _, hother | .map _ _, hother | .chan _ _, hother
  | .func _, hother | .struct _, hother | .interface _, hother | .invalid, hother => exact hother

theorem TypeName.resolveIn_mirrored {args : List Ty} (name : TypeName)
    (hname : ∀ u ∈ name.uses params args.length, Q u.1) :
    Mirrored params resolving I (name.resolve env enter params args)
      (name.resolveIn env enterIn args) := by
  cases name with
  | qualified package name =>
    rw [TypeName.resolve, TypeName.resolveIn, Ty.ofQualifiedName, Ty.ofQualifiedNameIn]
    cases env.scope.imports.lookup package.text with
    | some entry =>
      exact .readTable
        (fun t => return (env.importedType entry.path name.text).withArguments t args)
        (fun t => return (env.importedType entry.path name.text).withArguments t args)
        fun t => .pure _
    | none => exact .fail
  | plain name =>
    have huse : params.contains name.text = false → Q name.text := fun hparam =>
      hname (name.text, args.length) (by simpa [TypeName.uses] using hparam)
    rw [TypeName.resolve, TypeName.resolveIn]
    split
    · exact Ty.ofBareNameIn_mirrored henter hmirrored huse
    · exact Ty.ofGenericNameIn_mirrored henter hmirrored huse

include hI

/-- A name with type arguments, once it is known that these are resolved alike. -/
theorem TypeName.resolveIn_args_mirrored (name : TypeName) {args : List TypeArg}
    (hQ : ∀ u ∈ TypeArg.allUses params args, Q u.1)
    (hargs : Mirrored params resolving I (TypeArg.resolveAll env enter params args)
      (TypeArg.resolveAllIn env enterIn args))
    (hname : ∀ u ∈ name.uses params args.length, Q u.1) :
    Mirrored params resolving I
      (do name.resolve env enter params (← TypeArg.resolveAll env enter params args))
      (do name.resolveIn env enterIn (← TypeArg.resolveAllIn env enterIn args)) := by
  refine hargs.bind (TypeArg.resolveAll_yields hI henter args hQ) fun types => ?_
  rintro p m ⟨hp, hread⟩ hm
  have hmeaning := (hread p (.refl p)).meaning
  rw [← TypeArg.length_meanings? hmeaning] at hname
  exact TypeName.resolveIn_mirrored henter hmirrored name hname p m hp hm

/-! ## Expressions -/

-- each lemma of the block has the assumptions for the others, which the linter does not see
set_option linter.unusedSectionVars false in
mutual

/-- Resolving a type expression with a memory does the same. -/
theorem TypeExpr.resolveIn_mirrored : ∀ e : TypeExpr, (∀ u ∈ e.uses params, Q u.1) →
    Mirrored params resolving I (e.resolve env enter params) (e.resolveIn env enterIn)
  | .named name args, hQ => by
    obtain ⟨hargs, hname⟩ := List.forall_mem_append.mp hQ
    exact TypeName.resolveIn_args_mirrored hI henter hmirrored name hargs
      (TypeArg.resolveAllIn_mirrored args hargs) hname
  | .pointer elem, hQ => (TypeExpr.resolveIn_mirrored elem hQ).map Ty.pointer
  | .slice elem, hQ => (TypeExpr.resolveIn_mirrored elem hQ).map Ty.slice
  | .array length elem, hQ =>
    (TypeExpr.resolveIn_mirrored elem hQ).map (Ty.array (length.arrayLen env.scope))
  | .map key value, hQ => by
    obtain ⟨hkey, hvalue⟩ := List.forall_mem_append.mp hQ
    exact (TypeExpr.resolveIn_mirrored key hkey).map₂ Ty.map
      (TypeExpr.resolve_yields hI henter key hkey) (TypeExpr.resolveIn_mirrored value hvalue)
  | .chan dir elem, hQ => (TypeExpr.resolveIn_mirrored elem hQ).map (Ty.chan dir)
  | .func sig, hQ => (SignatureExpr.resolveIn_mirrored sig hQ).map Ty.func
  | .struct fields, hQ => (FieldDecl.resolveAllIn_mirrored fields hQ).map Ty.struct
  | .interface elems, hQ =>
    (InterfaceElem.resolveAllIn_mirrored elems hQ).map fun found : List ResolvedElem =>
      Ty.interface (.ofElems (found.filterMap Sum.getLeft?) (found.filterMap Sum.getRight?))
  | .group inner, hQ => TypeExpr.resolveIn_mirrored inner hQ
  | .tilde inner, hQ =>
    (TypeExpr.resolveIn_mirrored inner hQ).map fun type => Ty.union [⟨true, type⟩]
termination_by structural e => e

theorem TypeExpr.resolveTermsIn_mirrored : ∀ terms : List TypeExpr,
    (∀ u ∈ TypeExpr.allUses params terms, Q u.1) →
      Mirrored params resolving I (TypeExpr.resolveTerms env enter params terms)
        (TypeExpr.resolveTermsIn env enterIn terms)
  | [], _ => .pure _
  | term :: terms, hQ => by
    obtain ⟨hfirst, hrest⟩ := List.forall_mem_append.mp hQ
    have hterm := TypeExpr.resolveIn_mirrored term hfirst
    have hyields := TypeExpr.resolve_yields hI henter term hfirst
    have hterms := TypeExpr.resolveTermsIn_mirrored terms hrest
    cases term
    case tilde inner =>
      -- as a type of its own the term is a union, which tells what stands behind the tilde
      have hunion : ∀ type type' : Ty, Ty.union [⟨true, type⟩] = Ty.union [⟨true, type'⟩] →
          type = type' := by simp [Ty.union]
      have hreads : Yields I (env.Reads unset (fun t m => inner.meaning? env t m params)
          (inner.uses params)) (inner.resolve env enter params) := Env.Reads.of_map hunion hyields
      exact (Mirrored.of_map hunion hterm).map₂
        (fun type terms => (⟨true, type⟩ : Term) :: terms) hreads hterms
    all_goals exact hterm.map₂ (fun type terms => (⟨false, type⟩ : Term) :: terms) hyields hterms
termination_by structural terms => terms

theorem TypeArg.resolveAllIn_mirrored : ∀ args : List TypeArg,
    (∀ u ∈ TypeArg.allUses params args, Q u.1) →
      Mirrored params resolving I (TypeArg.resolveAll env enter params args)
        (TypeArg.resolveAllIn env enterIn args)
  | [], _ => .pure _
  | ⟨_, terms⟩ :: args, hQ => by
    obtain ⟨hterms, hargs⟩ := List.forall_mem_append.mp hQ
    exact (TypeExpr.resolveTermsIn_mirrored terms hterms).map₂
      (fun terms types => Ty.ofTerms terms :: types)
      (TypeExpr.resolveTerms_yields hI henter terms hterms)
      (TypeArg.resolveAllIn_mirrored args hargs)
termination_by structural args => args

theorem SignatureExpr.resolveIn_mirrored : ∀ sig : SignatureExpr,
    (∀ u ∈ sig.uses params, Q u.1) →
      Mirrored params resolving I (sig.resolve env enter params) (sig.resolveIn env enterIn)
  | ⟨decls, results⟩, hQ => by
    obtain ⟨hdecls, hresults⟩ := List.forall_mem_append.mp hQ
    exact (ParamDecl.resolveAllIn_mirrored decls hdecls).map₂
      (fun vars results =>
        (⟨none, [], vars, results, decls.any ParamDecl.variadic⟩ : Signature))
      (ParamDecl.resolveAll_yields hI henter decls hdecls)
      (ResultExpr.resolveIn_mirrored results hresults)
termination_by structural sig => sig

theorem ResultExpr.resolveIn_mirrored : ∀ results : ResultExpr,
    (∀ u ∈ results.uses params, Q u.1) →
      Mirrored params resolving I (results.resolve env enter params)
        (results.resolveIn env enterIn)
  | .list decls, hQ => ParamDecl.resolveAllIn_mirrored decls hQ
  | .single type, hQ =>
    (TypeExpr.resolveIn_mirrored type hQ).map fun type => [(⟨"", type⟩ : Var)]
termination_by structural results => results

theorem ParamDecl.resolveAllIn_mirrored : ∀ decls : List ParamDecl,
    (∀ u ∈ ParamDecl.allUses params decls, Q u.1) →
      Mirrored params resolving I (ParamDecl.resolveAll env enter params decls)
        (ParamDecl.resolveAllIn env enterIn decls)
  | [], _ => .pure _
  | ⟨names, type, variadic⟩ :: decls, hQ => by
    obtain ⟨htype, hdecls⟩ := List.forall_mem_append.mp hQ
    exact (TypeExpr.resolveIn_mirrored type htype).map₂
      (fun type vars => Var.ofNames names (if variadic then .slice type else type) ++ vars)
      (TypeExpr.resolve_yields hI henter type htype)
      (ParamDecl.resolveAllIn_mirrored decls hdecls)
termination_by structural decls => decls

theorem FieldDecl.resolveAllIn_mirrored : ∀ decls : List FieldDecl,
    (∀ u ∈ FieldDecl.allUses params decls, Q u.1) →
      Mirrored params resolving I (FieldDecl.resolveAll env enter params decls)
        (FieldDecl.resolveAllIn env enterIn decls)
  | [], _ => .pure _
  | .named names type tag :: decls, hQ => by
    obtain ⟨htype, hdecls⟩ := List.forall_mem_append.mp hQ
    exact (TypeExpr.resolveIn_mirrored type htype).map₂
      (fun type fields => Field.ofNames names type (tag.map Text.StringLiteral.unquote) ++ fields)
      (TypeExpr.resolve_yields hI henter type htype)
      (FieldDecl.resolveAllIn_mirrored decls hdecls)
  | .embedded pointer name args tag :: decls, hQ => by
    obtain ⟨hfield, hdecls⟩ := List.forall_mem_append.mp hQ
    obtain ⟨hargs, hname⟩ := List.forall_mem_append.mp hfield
    have hembedded := (TypeName.resolveIn_args_mirrored hI henter hmirrored name hargs
        (TypeArg.resolveAllIn_mirrored args hargs) hname).map₂
      (fun type fields => (⟨name.unqualified, if pointer then .pointer type else type, true,
          tag.map Text.StringLiteral.unquote⟩ : Field) :: fields)
      (TypeName.resolve_args_yields hI henter name
        (TypeArg.resolveAll_yields hI henter args hargs) hname)
      (FieldDecl.resolveAllIn_mirrored decls hdecls)
    simpa only [FieldDecl.resolveAll, FieldDecl.resolveAllIn, bind_assoc] using hembedded
termination_by structural decls => decls

theorem InterfaceElem.resolveAllIn_mirrored : ∀ elems : List InterfaceElem,
    (∀ u ∈ InterfaceElem.allUses params elems, Q u.1) →
      Mirrored params resolving I (InterfaceElem.resolveAll env enter params elems)
        (InterfaceElem.resolveAllIn env enterIn elems)
  | [], _ => .pure _
  | .method name sig :: elems, hQ => by
    obtain ⟨huses, helems⟩ := List.forall_mem_append.mp hQ
    refine (SignatureExpr.resolveIn_mirrored sig huses).bind
      (SignatureExpr.resolve_yields hI henter sig huses) fun signature => ?_
    rintro p m ⟨hp, hsig⟩ hm
    rw [modify_bind, Remember.update_bind]
    have hdefined := hI.define p ⟨name.text, signature, name.position, .interface⟩ rfl hp
      (hI.counts_signature hp huses (hsig p (.refl p)))
    exact (InterfaceElem.resolveAllIn_mirrored elems helems).map
      (fun found => (.inl ⟨name.text, signature⟩ :: found : List ResolvedElem)) _ _ hdefined
      (hm.define _)
  | .union terms :: elems, hQ => by
    obtain ⟨hterms, helems⟩ := List.forall_mem_append.mp hQ
    exact (TypeExpr.resolveTermsIn_mirrored terms hterms).map₂
      (fun terms found => (.inr (.ofTerms terms) :: found : List ResolvedElem))
      (TypeExpr.resolveTerms_yields hI henter terms hterms)
      (InterfaceElem.resolveAllIn_mirrored elems helems)
termination_by structural elems => elems

end

/-! ## Type parameters -/

/-- Resolving constraints of type parameters with a memory does the same. -/
theorem TypeParamDecl.resolveConstraintsIn_mirrored (decls : List TypeParamDecl)
    (hQ : ∀ u ∈ TypeParamDecl.allUses params decls, Q u.1) :
    Mirrored params resolving I (TypeParamDecl.resolveAll env enter params decls)
      (TypeParamDecl.resolveConstraintsIn env enterIn decls) := by
  induction decls with
  | nil => exact .pure _
  | cons decl decls ih =>
    obtain ⟨hconstraint, hdecls⟩ := List.forall_mem_append.mp hQ
    exact (TypeExpr.resolveTermsIn_mirrored hI henter hmirrored decl.constraint hconstraint).map₂
      (fun terms found =>
        decl.names.map (fun name => (⟨name, Ty.ofTerms terms⟩ : TypeParam)) ++ found)
      (TypeExpr.resolveTerms_yields hI henter decl.constraint hconstraint) (ih hdecls)

end

end GoSignatures

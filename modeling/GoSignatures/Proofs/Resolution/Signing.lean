import GoSignatures.Proofs.Resolution.Recording
import GoSignatures.Proofs.Resolution.Referring
import GoSignatures.Proofs.Ty.Signatures

/-!
# Where signatures come from

Resolving makes signatures from the signature expressions of a file. Afterwards they are only
completed with a receiver or with type parameters, or instantiated: whatever is shared by the
signatures that are made so is shared by all signatures that occur in what is known about the file.

* `TypeExpr.signatureExprs`, `SourceFile.signatureExprs` — the signatures as they are written
* `SignatureExpr.Becomes` — what a signature expression may become
* `Resolve.Ensures` — a step keeps an invariant, and its result has a property
* `Progress.Signed` — what holds of every signature that was found so far
* `SourceFile.writes_of_resolve` — every signature that occurs was written in the file
-/

namespace GoSignatures

open Resolve

/-! ## Signatures as they are written -/

mutual

/-- The signatures that are written in a type expression. -/
def TypeExpr.signatureExprs : TypeExpr → List SignatureExpr
  | .named _ args => TypeArg.allSignatureExprs args
  | .pointer elem => elem.signatureExprs
  | .slice elem => elem.signatureExprs
  | .array _ elem => elem.signatureExprs
  | .map key value => key.signatureExprs ++ value.signatureExprs
  | .chan _ elem => elem.signatureExprs
  | .func sig => sig.signatureExprs
  | .struct fields => FieldDecl.allSignatureExprs fields
  | .interface elems => InterfaceElem.allSignatureExprs elems
  | .group inner => inner.signatureExprs
  | .tilde inner => inner.signatureExprs

/-- The signatures in the terms of a union. -/
def TypeExpr.allSignatureExprs : List TypeExpr → List SignatureExpr
  | [] => []
  | term :: terms => term.signatureExprs ++ TypeExpr.allSignatureExprs terms

/-- The signatures in type arguments. -/
def TypeArg.allSignatureExprs : List TypeArg → List SignatureExpr
  | [] => []
  | ⟨_, terms⟩ :: args => TypeExpr.allSignatureExprs terms ++ TypeArg.allSignatureExprs args

/-- A signature, and those in its parameters and results. -/
def SignatureExpr.signatureExprs : SignatureExpr → List SignatureExpr
  | ⟨decls, results⟩ =>
    ⟨decls, results⟩ :: (ParamDecl.allSignatureExprs decls ++ results.signatureExprs)

/-- The signatures in results. -/
def ResultExpr.signatureExprs : ResultExpr → List SignatureExpr
  | .list results => ParamDecl.allSignatureExprs results
  | .single type => type.signatureExprs

/-- The signatures in the declarations of a parameter list. -/
def ParamDecl.allSignatureExprs : List ParamDecl → List SignatureExpr
  | [] => []
  | ⟨_, type, _⟩ :: decls => type.signatureExprs ++ ParamDecl.allSignatureExprs decls

/-- The signatures in the declarations of fields. -/
def FieldDecl.allSignatureExprs : List FieldDecl → List SignatureExpr
  | [] => []
  | .named _ type _ :: decls => type.signatureExprs ++ FieldDecl.allSignatureExprs decls
  | .embedded _ _ args _ :: decls =>
    TypeArg.allSignatureExprs args ++ FieldDecl.allSignatureExprs decls

/-- The signatures of the elements of an interface, and those in them. -/
def InterfaceElem.allSignatureExprs : List InterfaceElem → List SignatureExpr
  | [] => []
  | .method _ sig :: elems => sig.signatureExprs ++ InterfaceElem.allSignatureExprs elems
  | .union terms :: elems =>
    TypeExpr.allSignatureExprs terms ++ InterfaceElem.allSignatureExprs elems

end

theorem SignatureExpr.mem_signatureExprs_self (sig : SignatureExpr) : sig ∈ sig.signatureExprs := by
  cases sig
  exact List.mem_cons_self

/-- The signatures in the constraints of type parameters. -/
def TypeParamDecl.allSignatureExprs (decls : List TypeParamDecl) : List SignatureExpr :=
  decls.flatMap fun decl => TypeExpr.allSignatureExprs decl.constraint

/-- The signatures that are written in a declaration. -/
def Declaration.signatureExprs : Declaration → List SignatureExpr
  | .imported _ => []
  | .type spec => TypeParamDecl.allSignatureExprs spec.typeParams ++ spec.type.signatureExprs
  | .value spec => (spec.type.map TypeExpr.signatureExprs).getD []
  | .func decl =>
    TypeParamDecl.allSignatureExprs decl.typeParams ++ decl.signature.signatureExprs
  | .method decl =>
    (decl.receiver.map fun receiver => receiver.type.signatureExprs).getD [] ++
      decl.signature.signatureExprs

/-- The signatures that are written in a file. -/
def SourceFile.signatureExprs (file : SourceFile) : List SignatureExpr :=
  file.declarations.flatMap Declaration.signatureExprs

/-- What a signature that is written may become: what it is resolved to, also with a receiver and
with type parameters, or with type parameters replaced. -/
inductive SignatureExpr.Becomes (env : Env) (e : SignatureExpr) : Signature → Prop where
  | resolved {enter : EnterType} {params : List String} {p q : Progress} {sig : Signature}
      (h : e.resolve env enter params p = .ok (sig, q)) : Becomes env e sig
  | completed (receiver : Option Var) (typeParams : List TypeParam) {sig : Signature}
      (h : Becomes env e sig) :
      Becomes env e { sig with receiver := receiver, typeParams := typeParams }
  | instantiated (bind : Binding) {sig : Signature} (h : Becomes env e sig) :
      Becomes env e (sig.subst bind)

variable {S : Signature → Prop}

/-! ## Tables -/

namespace Table

variable {t : Table}

/-- Every signature that occurs in the table satisfies `S`. -/
def Signed (S : Signature → Prop) (t : Table) : Prop :=
  ∀ id entry, t.get? id = some entry → ∀ sig ∈ entry.signatures, S sig

theorem Signed.underlying? (h : t.Signed S) {id : Nat} {type : Ty}
    (htype : t.underlying? id = some type) : type.Signed S := by
  obtain ⟨entry, hentry, hunderlying⟩ := Option.bind_eq_some_iff.mp htype
  have hsigned := (List.forall_mem_append.mp (h id entry hentry)).2
  rw [hunderlying] at hsigned
  exact hsigned

/-- What holds of the signatures in the table and in a type, and stays when type parameters are
replaced, holds of the signatures in the underlying type. -/
theorem Signed.underlying (h : t.Signed S) (hsubst : ∀ bind sig, S sig → S (sig.subst bind))
    {type : Ty} (htype : type.Signed S) : (t.underlying type).Signed S := by
  fun_induction Table.underlying t type with
  | case1 id args =>
    rw [Table.instance?]
    cases hknown : t.underlying? id with
    | none => exact List.forall_mem_nil _
    | some known =>
      rw [Option.map_some, Option.getD_some]
      split
      · exact h.underlying? hknown
      · refine (h.underlying? hknown).subst (hsubst _) fun name arg harg => ?_
        exact Ty.signed_allSignatures_iff.mp htype arg (TypeParam.mem_of_argument? harg)
  | case2 path name type ih => exact ih htype
  | case3 => exact htype

theorem Signed.declare (h : t.Signed S) (name package : String) :
    (t.declare name package).Signed S := by
  intro id entry hentry
  rcases Nat.lt_trichotomy id t.size with hlt | rfl | hgt
  · rw [get?_declare_of_lt hlt] at hentry
    exact h id entry hentry
  · rw [get?_declare_size] at hentry
    cases hentry
    exact List.forall_mem_nil _
  · rw [get?_eq_none_of_size_le (by rw [size_declare]; exact hgt)] at hentry
    cases hentry

theorem Signed.setTypeParams (h : t.Signed S) (id : Nat) {params : List TypeParam}
    (hparams : ∀ sig ∈ TypeParam.allSignatures params, S sig) :
    (t.setTypeParams id params).Signed S := by
  intro j entry hentry
  rw [get?_setTypeParams] at hentry
  obtain ⟨old, hold, rfl⟩ := Option.map_eq_some_iff.mp hentry
  split
  · obtain ⟨-, hunderlying⟩ := List.forall_mem_append.mp (h j old hold)
    exact List.forall_mem_append.mpr ⟨hparams, hunderlying⟩
  · exact h j old hold

/-- What is set has to be signed; the rest of the table is as it was. -/
theorem Signed.setUnderlying (h : t.Signed S) (id : Nat) {type : Ty} (htype : type.Signed S) :
    (t.setUnderlying id type).Signed S := by
  intro j entry hentry
  rw [get?_setUnderlying] at hentry
  obtain ⟨old, hold, rfl⟩ := Option.map_eq_some_iff.mp hentry
  split
  · obtain ⟨htypeParams, -⟩ := List.forall_mem_append.mp (h j old hold)
    exact List.forall_mem_append.mpr ⟨htypeParams, htype⟩
  · exact h j old hold

/-- A round of settling hands on underlying types that are there. -/
theorem Signed.settleRound (h : t.Signed S) (waiting : List (Nat × Nat)) :
    (t.settleRound waiting).1.Signed S := by
  induction waiting generalizing t with
  | nil => exact h
  | cons w waiting ih =>
    obtain ⟨id, target⟩ := w
    rw [Table.settleRound]
    cases htarget : t.underlying? target with
    | none => exact ih h
    | some type => exact ih (h.setUnderlying id (h.underlying? htarget))

theorem Signed.settle (h : t.Signed S) {waiting : List (Nat × Nat)} {t' : Table}
    (hsettle : t.settle waiting = .ok t') : t'.Signed S := by
  induction t, waiting using settle.induct with
  | case1 t waiting t₁ hround =>
    rw [Table.settle, hround] at hsettle
    cases hsettle
    have hsigned := h.settleRound waiting
    rw [hround] at hsigned
    exact hsigned
  | case2 t waiting t₁ id target remaining hround hlt ih =>
    rw [Table.settle, hround] at hsettle
    simp only [hlt, if_true] at hsettle
    have hsigned := h.settleRound waiting
    rw [hround] at hsigned
    exact ih hsigned hsettle
  | case3 t waiting t₁ id target remaining hround hlt =>
    rw [Table.settle, hround] at hsettle
    simp only [hlt, if_false] at hsettle
    cases hsettle

end Table

/-! ## Steps -/

/-- A step that succeeds keeps `I`, and its result satisfies `P`. -/
def Resolve.Ensures {α : Type} (I : Progress → Prop) (P : α → Prop) (x : Resolve α) : Prop :=
  ∀ p a q, I p → x p = .ok (a, q) → I q ∧ P a

namespace Resolve.Ensures

variable {α β γ : Type} {env : Env} {I : Progress → Prop} {P : α → Prop} {Q : β → Prop}
  {R : γ → Prop}

theorem pure {a : α} (ha : P a) : Ensures I P (Pure.pure a : Resolve α) := by
  intro p b q hp hrun
  obtain ⟨rfl, rfl⟩ := pure_eq_ok_iff.mp hrun
  exact ⟨hp, ha⟩

theorem fail {place : Position} {cause : ResolveCause} :
    Ensures I P (env.fail place cause : Resolve α) := by
  intro p a q hp hrun
  exact absurd hrun fail_ne_ok

/-- The second step may count on what the first one ensures of its result. -/
theorem bind {x : Resolve α} {f : α → Resolve β} (hx : Ensures I P x)
    (hf : ∀ a, P a → Ensures I Q (f a)) : Ensures I Q (x >>= f) := by
  intro p b q hp hrun
  obtain ⟨a, p₁, hfirst, hrest⟩ := bind_eq_ok_iff.mp hrun
  obtain ⟨hp₁, ha⟩ := hx p a p₁ hp hfirst
  exact hf a ha p₁ b q hp₁ hrest

theorem map {f : α → β} {x : Resolve α} (hx : Ensures I P x) (hf : ∀ a, P a → Q (f a)) :
    Ensures I Q (do return f (← x)) :=
  hx.bind fun a ha => .pure (hf a ha)

theorem map₂ {f : α → β → γ} {x : Resolve α} {y : Resolve β} (hx : Ensures I P x)
    (hy : Ensures I Q y) (hf : ∀ a b, P a → Q b → R (f a b)) :
    Ensures I R (do return f (← x) (← y)) :=
  hx.bind fun a ha => hy.map fun b hb => hf a b ha hb

/-- A step may look at the progress. -/
theorem get {f : Progress → Resolve α} (hf : ∀ p, I p → Ensures I P (f p)) :
    Ensures I P ((MonadState.get : Resolve Progress) >>= f) := by
  intro p a q hp hrun
  exact hf p hp p a q hp hrun

theorem modify {f : Progress → Progress} {P : PUnit → Prop} (hf : ∀ p, I p → I (f p))
    (hP : P ⟨⟩) : Ensures I P (MonadState.modifyGet fun p => ((⟨⟩ : PUnit), f p)) := by
  intro p a q hp hrun
  cases hrun
  exact ⟨hf p hp, hP⟩

/-- What holds of every result of a step that succeeds may be added. -/
theorem and {x : Resolve α} {P' : α → Prop} (hx : Ensures I P x)
    (h : ∀ p a q, x p = .ok (a, q) → P' a) : Ensures I (fun a => P a ∧ P' a) x := by
  intro p a q hp hrun
  obtain ⟨hq, ha⟩ := hx p a q hp hrun
  exact ⟨hq, ha, h p a q hrun⟩

/-- Steps over a list keep together what each keeps. -/
theorem forM {f : α → Resolve PUnit} {as : List α}
    (hf : ∀ a ∈ as, Ensures I (fun _ => True) (f a)) :
    Ensures I (fun _ => True) (as.forM f) := by
  induction as with
  | nil => exact .pure trivial
  | cons a as ih =>
    obtain ⟨ha, has⟩ := List.forall_mem_cons.mp hf
    exact ha.bind fun _ _ => ih has

end Resolve.Ensures

/-! ## Expressions -/

/-- Every signature in an element of an interface satisfies `S`. -/
def ResolvedElem.Signed (S : Signature → Prop) : ResolvedElem → Prop
  | .inl m => ∀ sig ∈ m.signature.signatures, S sig
  | .inr e => e.Signed S

theorem Ty.signed_ofTerms {terms : List Term} (h : ∀ sig ∈ Term.allSignatures terms, S sig) :
    (Ty.ofTerms terms).Signed S := by
  unfold Ty.ofTerms
  split
  · exact (List.forall_mem_append.mp h).1
  · exact List.forall_mem_append.mpr
      ⟨List.forall_mem_nil _, List.forall_mem_append.mpr ⟨h, List.forall_mem_nil _⟩⟩

theorem Embedded.signed_ofTerms {terms : List Term}
    (h : ∀ sig ∈ Term.allSignatures terms, S sig) : (Embedded.ofTerms terms).Signed S := by
  unfold Embedded.ofTerms
  split
  · exact (List.forall_mem_append.mp h).1
  · exact h

theorem Var.allSigned_ofNames {names : List String} {type : Ty} (h : type.Signed S) :
    Var.AllSigned S (Var.ofNames names type) := by
  unfold Var.ofNames
  split
  · exact List.forall_mem_singleton.mpr h
  · exact List.forall_mem_map.mpr fun _ _ => h

theorem Field.signed_ofNames {names : List String} {type : Ty} {tag : Option String}
    (h : type.Signed S) : ∀ f ∈ Field.ofNames names type tag, f.type.Signed S :=
  List.forall_mem_map.mpr fun _ _ => h

theorem Interface.signed_ofElems {found : List ResolvedElem}
    (h : ∀ elem ∈ found, ResolvedElem.Signed S elem) :
    (Ty.interface (.ofElems (found.filterMap Sum.getLeft?)
      (found.filterMap Sum.getRight?))).Signed S := by
  refine Interface.signed_iff.mpr ⟨fun m hm => ?_, fun e he => ?_⟩
  · obtain ⟨elem, helem, hleft⟩ := List.mem_filterMap.mp (List.mem_mergeSort.mp hm)
    rw [Sum.getLeft?_eq_some_iff] at hleft
    subst hleft
    exact h _ helem
  · obtain ⟨elem, helem, hright⟩ := List.mem_filterMap.mp he
    rw [Sum.getRight?_eq_some_iff] at hright
    subst hright
    exact h _ helem

theorem Universe.signed_type? {name : String} {type : Ty} (h : Universe.type? name = some type) :
    type.Signed S := by
  obtain ⟨meaning, -, rfl⟩ := Option.map_eq_some_iff.mp h
  cases meaning <;> exact List.forall_mem_nil _

/-- No signature is known of an imported type. -/
theorem Env.signed_importedType (env : Env) (path name : String) :
    (env.importedType path name).Signed S := by
  unfold importedType
  split
  · exact List.forall_mem_nil _
  · next kind =>
    cases hkind : ((env.config.externalType? path name).or
        (WellKnown.kindName? path name)).bind kindType? with
    | none =>
      dsimp only
      rw [hkind]
      exact List.forall_mem_nil _
    | some known =>
      dsimp only
      rw [hkind]
      rcases known_kindType? _ known hkind with ⟨kind, rfl⟩ | rfl <;>
      exact List.forall_mem_nil _

theorem Ty.Signed.withArguments {type : Ty} (h : type.Signed S) (t : Table) (args : List Ty) :
    (type.withArguments t args).Signed S := by
  cases type with
  | imported path name underlying =>
    rw [Ty.withArguments]
    split <;> exact h
  | _ => exact h

section

variable {env : Env} {I : Progress → Prop} {enter : EnterType} {params : List String}
  (hdefine : ∀ p f, I p → (∀ sig ∈ f.signature.signatures, S sig) → I (p.define (.func f)))
  (henter : ∀ name : Piece, Ensures I (Ty.Signed S) (enter name))
include henter

theorem Ty.ofName_signed (name : Piece) :
    Ensures I (Ty.Signed S) (Ty.ofName env enter params name) := by
  unfold Ty.ofName
  split
  · exact .pure (List.forall_mem_nil _)
  · split
    · exact henter name
    · exact .fail
    · split
      · next type htype => exact .pure (Universe.signed_type? htype)
      · split
        · exact .fail
        · split
          · next path _ => exact .pure (env.signed_importedType path name.text)
          · exact .fail

/-- A name brings the signatures of its meaning and of its arguments, no new ones. -/
theorem TypeName.resolve_signed (name : TypeName) {args : List Ty}
    (hargs : ∀ sig ∈ Ty.allSignatures args, S sig) :
    Ensures I (Ty.Signed S) (name.resolve env enter params args) := by
  cases name with
  | qualified package name =>
    simp only [resolve, Ty.ofQualifiedName]
    split
    · next entry _ =>
      exact .get fun p _ =>
        .pure ((env.signed_importedType entry.path name.text).withArguments p.table args)
    · exact .fail
  | plain name =>
    simp only [resolve]
    split
    · refine .bind (Ty.ofName_signed henter name) fun type htype => ?_
      split
      · refine .get fun p _ => ?_
        dsimp only
        split
        · exact .fail
        · exact .pure htype
      · exact .pure htype
    · refine .bind (Ty.ofName_signed henter name) fun type htype => ?_
      split
      · refine .get fun p _ => ?_
        dsimp only
        split
        · exact .pure hargs
        · exact .fail
      · split
        · exact .pure htype
        · exact .fail

variable (env params S)

/-- Whatever a written signature is resolved to satisfies `S`. -/
def SignatureExpr.Signs (enter : EnterType) (e : SignatureExpr) : Prop :=
  ∀ p sig q, e.resolve env enter params p = .ok (sig, q) → S sig

variable {env params S}
include hdefine

-- each lemma of the block has the assumptions for the others, which the linter does not see
set_option linter.unusedSectionVars false in
mutual

/-- If what the written signatures are resolved to satisfies `S`, every signature in what a type
expression is resolved to does. -/
theorem TypeExpr.resolve_signed : ∀ e : TypeExpr,
    (∀ s ∈ e.signatureExprs, s.Signs S env params enter) →
      Ensures I (Ty.Signed S) (e.resolve env enter params)
  | .named name args, h =>
    (TypeArg.resolveAll_signed args h).bind fun _ hargs =>
      TypeName.resolve_signed henter name hargs
  | .pointer elem, h => (TypeExpr.resolve_signed elem h).map fun _ htype => htype
  | .slice elem, h => (TypeExpr.resolve_signed elem h).map fun _ htype => htype
  | .array _ elem, h => (TypeExpr.resolve_signed elem h).map fun _ htype => htype
  | .map key value, h => by
    obtain ⟨hkey, hvalue⟩ := List.forall_mem_append.mp h
    exact (TypeExpr.resolve_signed key hkey).map₂ (TypeExpr.resolve_signed value hvalue)
      fun _ _ hkey hvalue => List.forall_mem_append.mpr ⟨hkey, hvalue⟩
  | .chan _ elem, h => (TypeExpr.resolve_signed elem h).map fun _ htype => htype
  | .func sig, h => (SignatureExpr.resolve_signed sig h).map fun _ hsig => hsig
  | .struct fields, h => (FieldDecl.resolveAll_signed fields h).map fun _ hfields => hfields
  | .interface elems, h =>
    (InterfaceElem.resolveAll_signed elems h).map fun _ hfound => Interface.signed_ofElems hfound
  | .group inner, h => TypeExpr.resolve_signed inner h
  | .tilde inner, h => (TypeExpr.resolve_signed inner h).map fun _ htype =>
    @Ty.signed_ofTerms S [⟨true, _⟩]
      (List.forall_mem_append.mpr ⟨htype, List.forall_mem_nil _⟩)
termination_by structural e => e

theorem TypeExpr.resolveTerms_signed : ∀ terms : List TypeExpr,
    (∀ s ∈ TypeExpr.allSignatureExprs terms, s.Signs S env params enter) →
      Ensures I (fun terms => ∀ sig ∈ Term.allSignatures terms, S sig)
        (TypeExpr.resolveTerms env enter params terms)
  | [], _ => .pure (List.forall_mem_nil _)
  | term :: terms, h => by
    obtain ⟨hfirst, hrest⟩ := List.forall_mem_append.mp h
    have hterm := TypeExpr.resolve_signed term hfirst
    have hterms := TypeExpr.resolveTerms_signed terms hrest
    cases term
    case tilde inner =>
      -- as a type of its own the term is a union of one term with the same signatures
      have hinner : Ensures I (Ty.Signed S) (inner.resolve env enter params) := by
        intro p type q hp hrun
        obtain ⟨hq, hunion⟩ := hterm p (.union [⟨true, type⟩]) q hp
          (bind_eq_ok_iff.mpr ⟨type, q, hrun, pure_eq_ok_iff.mpr ⟨rfl, rfl⟩⟩)
        obtain ⟨-, hembedded⟩ := List.forall_mem_append.mp hunion
        obtain ⟨hunion, -⟩ := List.forall_mem_append.mp hembedded
        exact ⟨hq, (List.forall_mem_append.mp hunion).1⟩
      exact hinner.map₂ hterms fun _ _ htype hterms =>
        List.forall_mem_append.mpr ⟨htype, hterms⟩
    all_goals exact hterm.map₂ hterms fun _ _ htype hterms =>
      List.forall_mem_append.mpr ⟨htype, hterms⟩
termination_by structural terms => terms

theorem TypeArg.resolveAll_signed : ∀ args : List TypeArg,
    (∀ s ∈ TypeArg.allSignatureExprs args, s.Signs S env params enter) →
      Ensures I (fun types => ∀ sig ∈ Ty.allSignatures types, S sig)
        (TypeArg.resolveAll env enter params args)
  | [], _ => .pure (List.forall_mem_nil _)
  | ⟨_, terms⟩ :: args, h => by
    obtain ⟨hterms, hargs⟩ := List.forall_mem_append.mp h
    exact (TypeExpr.resolveTerms_signed terms hterms).map₂ (TypeArg.resolveAll_signed args hargs)
      fun _ _ hterms htypes => List.forall_mem_append.mpr ⟨Ty.signed_ofTerms hterms, htypes⟩
termination_by structural args => args

theorem SignatureExpr.resolve_signed : ∀ sig : SignatureExpr,
    (∀ s ∈ sig.signatureExprs, s.Signs S env params enter) →
      Ensures I (fun sig => ∀ s ∈ sig.signatures, S s) (sig.resolve env enter params)
  | ⟨decls, results⟩, h => by
    obtain ⟨hself, hparts⟩ := List.forall_mem_cons.mp h
    obtain ⟨hdecls, hresults⟩ := List.forall_mem_append.mp hparts
    have hsig := (ParamDecl.resolveAll_signed decls hdecls).map₂
      (ResultExpr.resolve_signed results hresults)
      (f := fun vars results =>
        (⟨none, [], vars, results, decls.any ParamDecl.variadic⟩ : Signature))
      (R := fun sig => sig.receiver = none ∧ sig.typeParams = [] ∧ Var.AllSigned S sig.params ∧
        Var.AllSigned S sig.results)
      fun _ _ hvars hresults => ⟨rfl, rfl, hvars, hresults⟩
    intro p sig q hp hrun
    obtain ⟨hq, hreceiver, htypeParams, hvars⟩ := hsig p sig q hp hrun
    refine ⟨hq, Signature.signed_iff.mpr ⟨hself p sig q hrun, ?_, ?_, hvars⟩⟩
    · rw [hreceiver]
      exact nofun
    · rw [htypeParams]
      exact List.forall_mem_nil _
termination_by structural sig => sig

theorem ResultExpr.resolve_signed : ∀ results : ResultExpr,
    (∀ s ∈ results.signatureExprs, s.Signs S env params enter) →
      Ensures I (Var.AllSigned S) (results.resolve env enter params)
  | .list decls, h => ParamDecl.resolveAll_signed decls h
  | .single type, h => (TypeExpr.resolve_signed type h).map fun _ htype =>
    List.forall_mem_singleton.mpr htype
termination_by structural results => results

theorem ParamDecl.resolveAll_signed : ∀ decls : List ParamDecl,
    (∀ s ∈ ParamDecl.allSignatureExprs decls, s.Signs S env params enter) →
      Ensures I (Var.AllSigned S) (ParamDecl.resolveAll env enter params decls)
  | [], _ => .pure (List.forall_mem_nil _)
  | ⟨names, type, variadic⟩ :: decls, h => by
    obtain ⟨htype, hdecls⟩ := List.forall_mem_append.mp h
    refine (TypeExpr.resolve_signed type htype).map₂ (ParamDecl.resolveAll_signed decls hdecls)
      fun type vars htype hvars => List.forall_mem_append.mpr ⟨Var.allSigned_ofNames ?_, hvars⟩
    cases variadic <;> exact htype
termination_by structural decls => decls

theorem FieldDecl.resolveAll_signed : ∀ decls : List FieldDecl,
    (∀ s ∈ FieldDecl.allSignatureExprs decls, s.Signs S env params enter) →
      Ensures I (fun fields => ∀ sig ∈ Field.allSignatures fields, S sig)
        (FieldDecl.resolveAll env enter params decls)
  | [], _ => .pure (List.forall_mem_nil _)
  | .named names type tag :: decls, h => by
    obtain ⟨htype, hdecls⟩ := List.forall_mem_append.mp h
    refine (TypeExpr.resolve_signed type htype).map₂ (FieldDecl.resolveAll_signed decls hdecls)
      fun type fields htype hfields => ?_
    rw [Field.signed_allSignatures_iff] at hfields ⊢
    exact List.forall_mem_append.mpr ⟨Field.signed_ofNames htype, hfields⟩
  | .embedded pointer name args tag :: decls, h => by
    obtain ⟨hargs, hdecls⟩ := List.forall_mem_append.mp h
    refine (TypeArg.resolveAll_signed args hargs).bind fun types htypes => ?_
    refine (TypeName.resolve_signed henter name htypes).map₂
      (FieldDecl.resolveAll_signed decls hdecls) fun type fields htype hfields => ?_
    refine List.forall_mem_append.mpr ⟨?_, hfields⟩
    cases pointer <;> exact htype
termination_by structural decls => decls

theorem InterfaceElem.resolveAll_signed : ∀ elems : List InterfaceElem,
    (∀ s ∈ InterfaceElem.allSignatureExprs elems, s.Signs S env params enter) →
      Ensures I (fun found => ∀ elem ∈ found, ResolvedElem.Signed S elem)
        (InterfaceElem.resolveAll env enter params elems)
  | [], _ => .pure (List.forall_mem_nil _)
  | .method name sig :: elems, h => by
    obtain ⟨hsig, helems⟩ := List.forall_mem_append.mp h
    refine (SignatureExpr.resolve_signed sig hsig).bind fun signature hsignature => ?_
    refine Ensures.bind (P := fun _ => True) (.modify (fun p hp =>
      hdefine p ⟨name.text, signature, name.position, .interface⟩ hp hsignature) trivial)
      fun _ _ => ?_
    exact (InterfaceElem.resolveAll_signed elems helems).map fun found hfound =>
      List.forall_mem_cons.mpr ⟨hsignature, hfound⟩
  | .union terms :: elems, h => by
    obtain ⟨hterms, helems⟩ := List.forall_mem_append.mp h
    exact (TypeExpr.resolveTerms_signed terms hterms).map₂
      (InterfaceElem.resolveAll_signed elems helems) fun _ _ hterms hfound =>
        List.forall_mem_cons.mpr ⟨Embedded.signed_ofTerms hterms, hfound⟩
termination_by structural elems => elems

end

/-- The same holds of the constraints of type parameters. -/
theorem TypeParamDecl.resolveAll_signed {decls : List TypeParamDecl}
    (h : ∀ s ∈ TypeParamDecl.allSignatureExprs decls, s.Signs S env params enter) :
    Ensures I (fun found => ∀ p ∈ found, p.constraint.Signed S)
      (TypeParamDecl.resolveAll env enter params decls) := by
  induction decls with
  | nil => exact .pure (List.forall_mem_nil _)
  | cons decl decls ih =>
    obtain ⟨names, constraint⟩ := decl
    obtain ⟨hconstraint, hdecls⟩ := List.forall_mem_append.mp h
    exact (TypeExpr.resolveTerms_signed hdefine henter constraint hconstraint).map₂ (ih hdecls)
      fun _ _ hterms hfound => List.forall_mem_append.mpr
        ⟨List.forall_mem_map.mpr fun _ _ => Ty.signed_ofTerms hterms, hfound⟩

end

/-! ## Names -/

/-- Every signature that was found so far satisfies `S`. -/
structure Progress.Signed (S : Signature → Prop) (p : Progress) : Prop where
  table : p.table.Signed S
  aliases : ∀ a ∈ p.aliases, a.2.Signed S
  definitions : ∀ d ∈ p.definitions, ∀ sig ∈ d.signatures, S sig

namespace Progress.Signed

variable {p : Progress}

theorem define (h : p.Signed S) {d : Definition} (hd : ∀ sig ∈ d.signatures, S sig) :
    (p.define d).Signed S :=
  ⟨h.table, h.aliases, List.forall_mem_append.mpr ⟨h.definitions, List.forall_mem_singleton.mpr hd⟩⟩

/-- The underlying type of a type that is signed is signed, since instances are. -/
theorem finish (h : p.Signed S) (hsubst : ∀ bind sig, S sig → S (sig.subst bind)) (id : Nat)
    {type : Ty} (htype : type.Signed S) : (p.finish id type).Signed S := by
  rcases p.finish_eq id type with ⟨target, _, -, -, hfinish⟩ | ⟨-, hfinish⟩
  · rw [hfinish]
    exact ⟨h.table, h.aliases, h.definitions⟩
  · rw [hfinish]
    exact ⟨h.table.setUnderlying id (h.table.underlying hsubst htype), h.aliases, h.definitions⟩

end Progress.Signed

section

variable {env : Env} (hsubst : ∀ bind sig, S sig → S (sig.subst bind))
include hsubst

theorem TypeSpec.resolveDefined_signed {enter : EnterType}
    (henter : ∀ name : Piece, Ensures (Progress.Signed S) (Ty.Signed S) (enter name))
    {spec : TypeSpec}
    (hsigns : ∀ s ∈ (Declaration.type spec).signatureExprs, ∀ params, s.Signs S env params enter)
    (id : Nat) :
    Ensures (Progress.Signed S) (fun _ => True) (spec.resolveDefined env enter id) := by
  obtain ⟨hparams, htype⟩ := List.forall_mem_append.mp hsigns
  have hdefine : ∀ (p : Progress) f, p.Signed S → (∀ sig ∈ f.signature.signatures, S sig) →
      (p.define (.func f)).Signed S := fun _ _ hp hf => hp.define hf
  rw [resolveDefined_eq]
  refine .bind (P := fun _ => True) ?_ fun _ _ => ?_
  · unfold resolveParams
    split
    · exact .pure trivial
    · refine (TypeParamDecl.resolveAll_signed hdefine henter fun s hs => hparams s hs _).bind
        fun params hparams => .modify (fun p hp => ?_) trivial
      have htypeParams := TypeParam.signed_allSignatures_iff.mpr hparams
      exact ⟨hp.table.setTypeParams id htypeParams, hp.aliases, hp.definitions⟩
  · exact (TypeExpr.resolve_signed hdefine henter spec.type fun s hs => htype s hs _).bind
      fun type htype => .modify (fun p hp => hp.finish hsubst id htype) trivial

/-- A name that is entered means a type whose signatures are those of declarations. -/
theorem Env.enterType_signed
    (hsigns : ∀ name spec, env.scope.lookup name = some (.type spec) →
      ∀ s ∈ (Declaration.type spec).signatureExprs, ∀ params enter, s.Signs S env params enter)
    (depth : Nat) (resolving : List String) (name : Piece) :
    Ensures (Progress.Signed S) (Ty.Signed S) (env.enterType depth resolving name) := by
  induction depth generalizing resolving name with
  | zero => exact .fail
  | succ depth ih =>
    rw [enterType]
    split
    · next spec hlookup =>
      have hspec := hsigns name.text spec hlookup
      split
      · refine .get fun p hp => ?_
        split
        · next type hknown =>
          obtain ⟨front, back, haliases, -⟩ := List.lookup_eq_some_iff.mp hknown
          exact .pure (hp.aliases (name.text, type) (by simp [haliases]))
        · split
          · exact .fail
          · obtain ⟨-, htype⟩ := List.forall_mem_append.mp hspec
            refine (TypeExpr.resolve_signed (fun _ _ hp hf => hp.define hf)
              (fun other => ih (name.text :: resolving) other) spec.type
              fun s hs => htype s hs _ _).bind fun type htype => ?_
            refine Ensures.bind (P := fun _ => True) (.modify (fun p hp => ?_) trivial)
              fun _ _ => .pure htype
            exact ⟨hp.table, List.forall_mem_append.mpr
              ⟨hp.aliases, List.forall_mem_singleton.mpr htype⟩, hp.definitions⟩
      · refine .get fun p hp => ?_
        split
        · exact .pure (List.forall_mem_nil _)
        · refine .get fun p _ => ?_
          refine Ensures.bind (P := fun _ => True) (.modify (fun p hp => ?_) trivial) fun _ _ => ?_
          · exact ⟨hp.table.declare _ _, hp.aliases, hp.definitions⟩
          · exact (TypeSpec.resolveDefined_signed hsubst (fun other => ih [] other)
              (fun s hs params => hspec s hs params _) p.table.size).bind
                fun _ _ => .pure (List.forall_mem_nil _)
    · exact .fail

end

/-! ## Files -/

/-- A signature satisfies `S`, whatever its receiver and its type parameters are. -/
def Signature.Completes (S : Signature → Prop) (sig : Signature) : Prop :=
  ∀ receiver typeParams, S { sig with receiver := receiver, typeParams := typeParams }

section

variable {env : Env} {file : SourceFile}
  (hsigns : ∀ s ∈ file.signatureExprs, ∀ params enter,
    s.Signs (Signature.Completes S) env params enter)
  (henter : ∀ name : Piece, Ensures (Progress.Signed S) (Ty.Signed S) (env.enter name))

include hsigns in
theorem SourceFile.signs_of_mem {d : Declaration} (hd : d ∈ file.declarations) :
    ∀ s ∈ d.signatureExprs, ∀ params enter, s.Signs S env params enter := by
  intro s hs params enter p sig q hrun
  have hcompletes := hsigns s (List.mem_flatMap.mpr ⟨d, hd, hs⟩) params enter p sig q hrun
  obtain ⟨receiver, typeParams, _, _, _⟩ := sig
  exact hcompletes receiver typeParams

include hsigns henter in
theorem Env.resolveTypeSpec_signed {spec : TypeSpec} (hspec : spec ∈ file.typeSpecs) :
    Ensures (Progress.Signed S) (fun _ => True) (env.resolveTypeSpec spec) := by
  obtain ⟨-, hright⟩ := List.forall_mem_append.mp
    (SourceFile.signs_of_mem hsigns (SourceFile.mem_typeSpecs.mp hspec))
  rw [resolveTypeSpec]
  split
  · exact (TypeExpr.resolve_signed (fun _ _ hp hf => hp.define hf) henter spec.type
      fun s hs => hright s hs _ _).bind
        fun type htype => .modify (fun p hp => hp.define htype) trivial
  · exact (henter spec.name).bind
      fun type htype => .modify (fun p hp => hp.define htype) trivial

include hsigns henter in
theorem Env.resolveFunc_signed {decl : FuncDecl} (hdecl : decl ∈ file.funcDecls) :
    Ensures (Progress.Signed S) (fun _ => True) (env.resolveFunc decl) := by
  obtain ⟨hparams, hsig⟩ := List.forall_mem_append.mp
    (SourceFile.signs_of_mem hsigns (SourceFile.mem_funcDecls.mp hdecl))
  have hdefine : ∀ (p : Progress) f, p.Signed S → (∀ sig ∈ f.signature.signatures, S sig) →
      (p.define (.func f)).Signed S := fun _ _ hp hf => hp.define hf
  refine (TypeParamDecl.resolveAll_signed hdefine henter fun s hs => hparams s hs _ _).bind
    fun params hparams => ?_
  have hmem : decl.signature ∈ file.signatureExprs :=
    List.mem_flatMap.mpr ⟨_, SourceFile.mem_funcDecls.mp hdecl,
      List.mem_append_right _ decl.signature.mem_signatureExprs_self⟩
  refine ((SignatureExpr.resolve_signed hdefine henter decl.signature
    fun s hs => hsig s hs _ _).and (hsigns _ hmem _ _)).bind
      fun sig ⟨hsig, hcompletes⟩ => .modify (fun p hp => hp.define ?_) trivial
  obtain ⟨-, hreceiver, -, hvars⟩ := Signature.signed_iff.mp hsig
  exact Signature.signed_iff.mpr ⟨hcompletes sig.receiver params, hreceiver, hparams, hvars⟩

include hsigns henter in
/-- A method completes its signature with a receiver. -/
theorem Env.resolveMethod_signed {decl : MethodDecl} (hdecl : decl ∈ file.methodDecls) :
    Ensures (Progress.Signed S) (fun _ => True) (env.resolveMethod decl) := by
  obtain ⟨hreceiver, hsig⟩ := List.forall_mem_append.mp
    (SourceFile.signs_of_mem hsigns (SourceFile.mem_methodDecls.mp hdecl))
  have hdefine : ∀ (p : Progress) f, p.Signed S → (∀ sig ∈ f.signature.signatures, S sig) →
      (p.define (.func f)).Signed S := fun _ _ hp hf => hp.define hf
  have hmem : decl.signature ∈ file.signatureExprs :=
    List.mem_flatMap.mpr ⟨_, SourceFile.mem_methodDecls.mp hdecl,
      List.mem_append_right _ decl.signature.mem_signatureExprs_self⟩
  rw [resolveMethod]
  split
  · exact .fail
  · next receiver heq =>
    rw [heq] at hreceiver
    refine .bind (P := fun _ => True) ?_ fun _ _ => ?_
    · unfold checkReceiverBase
      split
      · exact .pure trivial
      · exact .fail
      · exact .fail
    refine (TypeExpr.resolve_signed hdefine henter receiver.type
      fun s hs => hreceiver s hs _ _).bind fun type htype => ?_
    refine ((SignatureExpr.resolve_signed hdefine henter decl.signature
      fun s hs => hsig s hs _ _).and (hsigns _ hmem _ _)).bind fun sig ⟨hsig, hcompletes⟩ => ?_
    refine Ensures.bind (P := fun _ => True) (.modify (fun p hp => hp.define ?_) trivial)
      fun _ _ => .pure trivial
    obtain ⟨-, -, htypeParams, hvars⟩ := Signature.signed_iff.mp hsig
    refine Signature.signed_iff.mpr
      ⟨hcompletes (some ⟨receiver.name, type⟩) sig.typeParams, ?_, htypeParams, hvars⟩
    rintro v ⟨⟩
    exact htype

include hsigns henter in
theorem Env.resolveMethods_signed {decls : List MethodDecl} (hdecls : decls ⊆ file.methodDecls)
    (seen : List (String × String)) :
    Ensures (Progress.Signed S) (fun _ => True) (env.resolveMethods seen decls) := by
  induction decls generalizing seen with
  | nil => exact .pure trivial
  | cons decl decls ih =>
    obtain ⟨hdecl, hdecls⟩ := List.cons_subset.mp hdecls
    rw [resolveMethods]
    refine (resolveMethod_signed hsigns henter hdecl).bind fun base _ => ?_
    split
    · exact ih hdecls _
    · split
      · exact .fail
      · exact ih hdecls _

include hsigns henter in
theorem ValueSpec.resolveType_signed {spec : ValueSpec} (hspec : spec ∈ file.valueSpecs) :
    Ensures (Progress.Signed S) (fun _ => True) (do
      if let some type := spec.type then
        let _ ← type.resolve env env.enter []) := by
  have htype := SourceFile.signs_of_mem hsigns (SourceFile.mem_valueSpecs.mp hspec)
  split
  · next type heq =>
    rw [Declaration.signatureExprs, heq] at htype
    exact (TypeExpr.resolve_signed (fun _ _ hp hf => hp.define hf) henter type
      fun s hs => htype s hs _ _).bind fun _ _ => .pure trivial
  · exact .pure trivial

theorem Env.failRecursive_ensures {I : Progress → Prop} (id : Nat) :
    Ensures I (fun _ => True) (env.failRecursive id) := by
  refine .get fun p _ => ?_
  split <;> exact .fail

theorem Env.settlePending_signed :
    Ensures (Progress.Signed S) (fun _ => True) env.settlePending := by
  refine .get fun p hp => ?_
  split
  · next table hsettle =>
    intro p' a q _ hrun
    rw [set_eq_ok_iff] at hrun
    subst hrun
    exact ⟨⟨hp.table.settle hsettle, hp.aliases, hp.definitions⟩, trivial⟩
  · exact failRecursive_ensures _

theorem Env.checkContainment_ensures {I : Progress → Prop} :
    Ensures I (fun _ => True) env.checkContainment := by
  refine .get fun p _ => ?_
  split
  · exact failRecursive_ensures _
  · exact .pure trivial

include hsigns henter in
/-- What holds of the written signatures once they are resolved holds of all that is found. -/
theorem Env.resolveAll_signed :
    Ensures (Progress.Signed S) (fun _ => True) (env.resolveAll file) := by
  refine (Ensures.forM fun spec hspec => resolveTypeSpec_signed hsigns henter hspec).bind
    fun _ _ => ?_
  refine settlePending_signed.bind fun _ _ => checkContainment_ensures.bind fun _ _ => ?_
  refine (Ensures.forM fun spec hspec =>
    ValueSpec.resolveType_signed hsigns henter hspec).bind fun _ _ => ?_
  refine Ensures.bind (P := fun _ => True) (.modify (fun p hp => ?_) trivial) fun _ _ => ?_
  · refine ⟨hp.table, hp.aliases, List.forall_mem_append.mpr ⟨hp.definitions, fun d hd => ?_⟩⟩
    obtain ⟨spec, -, hd⟩ := List.mem_flatMap.mp hd
    obtain ⟨name, -, rfl⟩ := List.mem_map.mp hd
    dsimp only
    split <;> exact List.forall_mem_nil _
  · refine (Ensures.forM fun decl hdecl =>
      resolveFunc_signed hsigns henter hdecl).bind fun _ _ => ?_
    exact resolveMethods_signed hsigns henter (List.Subset.refl _) []

end

/-- The surroundings in which a file is resolved. -/
def SourceFile.envIn (file : SourceFile) (config : Config) (scope : FileScope) : Env :=
  ⟨file.path, file.packageName, config, scope⟩

/-- A signature that is written in the file may become `sig` when the file is resolved. -/
def SourceFile.Writes (file : SourceFile) (config : Config) (e : SignatureExpr)
    (sig : Signature) : Prop :=
  e ∈ file.signatureExprs ∧ ∃ scope,
    FileScope.ofDeclarations file.path file.declarations = .ok scope ∧
      e.Becomes (file.envIn config scope) sig

/-- Every signature that occurs in a file that is accepted is that of the predeclared `error`, or it
was written in the file. -/
theorem SourceFile.writes_of_resolve {file : SourceFile} {config : Config} {result : ResolvedFile}
    (h : file.resolve config = .ok result) : ∀ sig ∈ result.signatures,
      sig = Method.error.signature ∨ ∃ e, file.Writes config e sig := by
  obtain ⟨scope, hscope, hrest⟩ := Except.bind_eq_ok_iff.mp h
  obtain ⟨⟨_, q⟩, hrun, hresult⟩ := Except.bind_eq_ok_iff.mp hrest
  cases hresult
  let S : Signature → Prop := fun sig =>
    sig = Method.error.signature ∨ ∃ e, file.Writes config e sig
  have hsubst : ∀ bind sig, S sig → S (sig.subst bind) := by
    rintro bind sig (rfl | ⟨e, he, scope, hscope, hbecomes⟩)
    · exact .inl rfl
    · exact .inr ⟨e, he, scope, hscope, hbecomes.instantiated bind⟩
  have hsigns : ∀ s ∈ file.signatureExprs, ∀ params enter,
      s.Signs (Signature.Completes S) (file.envIn config scope) params enter :=
    fun s hs params enter p sig q hrun receiver typeParams =>
      .inr ⟨s, hs, scope, hscope, .completed receiver typeParams (.resolved hrun)⟩
  have henter : ∀ name : Piece,
      Ensures (Progress.Signed S) (Ty.Signed S) ((file.envIn config scope).enter name) := by
    refine fun name => Env.enterType_signed hsubst (fun name spec hlookup => ?_) _ [] name
    obtain ⟨hmem, -⟩ := (FileScope.lookup_eq_type_iff hscope).mp hlookup
    exact signs_of_mem hsigns hmem
  have hinitial : Progress.Signed S {} := by
    refine ⟨fun id entry hentry => ?_, List.forall_mem_nil _, List.forall_mem_nil _⟩
    match id, entry, hentry with
    | 0, _, rfl => exact List.forall_mem_singleton.mpr (.inl rfl)
    | 1, _, rfl => exact List.forall_mem_nil _
  obtain ⟨hq, -⟩ := Env.resolveAll_signed hsigns henter {} () q hinitial hrun
  refine List.forall_mem_append.mpr ⟨fun sig hsig => ?_, fun sig hsig => ?_⟩
  · obtain ⟨entry, hentry, hsig⟩ := List.mem_flatMap.mp hsig
    obtain ⟨id, hid⟩ := List.mem_iff_getElem?.mp hentry
    exact hq.table id entry hid sig hsig
  · obtain ⟨d, hd, hsig⟩ := List.mem_flatMap.mp hsig
    exact hq.definitions d hd sig hsig

end GoSignatures

import GoSignatures.Proofs.Resolution.Following

/-!
# Meanings with other numbers

What a type expression means depends on what its names mean, and not on the places of their types.
If the names mean the same types at renumbered places, over a table that shows these alike, then the
expression means the same type at renumbered places; and it means nothing if it meant nothing.

* `Env.Renumbers` — two tables with what names mean in each
* `TypeExpr.meaning?_renumbers` — the meanings of a type expression
* `FuncDecl.meaning?_renumbers`, `MethodDecl.meaning?_renumbers` — the functions that are defined
-/

namespace GoSignatures

/-! ## Results with parts changed -/

section

variable {α α' β β' γ γ' : Type} {g : α → α'} {k : β → β'} {l : γ → γ'}

/-- A result of one part changes with that part. -/
theorem Option.map_return {x : Option α} {y : Option α'} {u : α → β} {u' : α' → β'}
    (h : y = x.map g) (hu : ∀ a, u' (g a) = k (u a)) :
    (do return u' (← y)) = (do return u (← x)).map k := by
  subst h
  cases x with
  | none => rfl
  | some a => exact congrArg some (hu a)

/-- A result of two parts changes with them. -/
theorem Option.map_return₂ {x : Option α} {y : Option α'} {z : Option γ} {w : Option γ'}
    {u : α → γ → β} {u' : α' → γ' → β'} (h : y = x.map g) (h' : w = z.map l)
    (hu : ∀ a c, u' (g a) (l c) = k (u a c)) :
    (do return u' (← y) (← w)) = (do return u (← x) (← z)).map k := by
  subst h
  cases x with
  | none => rfl
  | some a => exact Option.map_return h' (hu a)

/-- The rest has to change with every result that the first part can have. -/
theorem Option.bind_eq_map_bind {x : Option α} {y : Option α'} {u : α → Option β}
    {u' : α' → Option β'} (h : y = x.map g) (hu : ∀ a, x = some a → u' (g a) = (u a).map k) :
    (y >>= u') = (x >>= u).map k := by
  subst h
  cases x with
  | none => rfl
  | some a => exact hu a rfl

end

/-! ## Names -/

/-- The declared names that are used mean in `m'` what they mean in `m`, with the places of types
renumbered by `f`. The table `t'` shows types as `t` does. -/
structure Env.Renumbers (env : Env) (f : Nat → Nat) (t t' : Table) (m m' : Meanings)
    (uses : List TypeUse) : Prop where
  error : f errorId = errorId
  comparable : f comparableId = comparableId
  nameChars : ∀ id, t'.nameChars (f id) = t.nameChars id
  means : ∀ u ∈ uses, env.scope.isType u.1 = true → m' u.1 = (m u.1).map (Ty.rename f)

namespace Env.Renumbers

variable {env : Env} {f : Nat → Nat} {t t' : Table} {m m' : Meanings} {us vs : List TypeUse}

/-- Fewer uses ask for less. -/
theorem mono (h : env.Renumbers f t t' m m' us) (hsub : vs ⊆ us) :
    env.Renumbers f t t' m m' vs :=
  { h with means := fun u hu => h.means u (hsub hu) }

theorem left (h : env.Renumbers f t t' m m' (us ++ vs)) : env.Renumbers f t t' m m' us :=
  h.mono (List.subset_append_left _ _)

theorem right (h : env.Renumbers f t t' m m' (us ++ vs)) : env.Renumbers f t t' m m' vs :=
  h.mono (List.subset_append_right _ _)

end Env.Renumbers

section

variable {env : Env} {f : Nat → Nat} {t t' : Table} {m m' : Meanings} {params : List String}

/-- Arguments of an imported type become text, which the two tables spell alike. -/
theorem Ty.withArguments_renumbers (hnames : ∀ id, t'.nameChars (f id) = t.nameChars id)
    (args : List Ty) (type : Ty) :
    (type.rename f).withArguments t' (Ty.renames f args) =
      (type.withArguments t args).rename f := by
  have hrender : (Ty.renames f args).map (Ty.render t') = args.map (Ty.render t) := by
    rw [Ty.renames_eq_map, List.map_map]
    refine List.map_congr_left fun type _ => ?_
    rw [Function.comp_apply, Ty.render, Ty.render, Ty.chars_rename hnames]
  cases type with
  | imported path name underlying =>
    simp only [Ty.withArguments, Ty.rename, Ty.isEmpty_renames, hrender]
    split <;> rfl
  | _ => rfl

/-- Of the meanings of a name, only that as a declared type depends on `m`. -/
theorem Ty.ofName?_renumbers {name : String} {count : Nat}
    (h : env.Renumbers f t t' m m' (if params.contains name then [] else [(name, count)])) :
    Ty.ofName? env m' params name = (Ty.ofName? env m params name).map (Ty.rename f) := by
  unfold Ty.ofName?
  by_cases hparam : params.contains name = true
  · rw [if_pos hparam, if_pos hparam]
    rfl
  rw [if_neg hparam, if_neg hparam]
  rw [if_neg hparam] at h
  cases hlookup : env.scope.lookup name with
  | some entry =>
    cases entry with
    | type spec =>
      exact h.means _ (List.mem_singleton.mpr rfl) (FileScope.isType_iff.mpr ⟨spec, hlookup⟩)
    | _ => rfl
  | none =>
    dsimp only
    cases huniverse : Universe.type? name with
    | some type =>
      exact congrArg some (Universe.rename_type? h.error h.comparable huniverse).symm
    | none =>
      dsimp only
      split
      · rfl
      · cases env.scope.imports.dotImport? with
        | none => rfl
        | some path => exact congrArg some (env.rename_importedType h.error path name).symm

/-- With arguments, a declared type becomes an instance at its new place, and an alias drops
them. -/
theorem Ty.ofGenericName?_renumbers {name : String} {args : List Ty} {count : Nat}
    (h : env.Renumbers f t t' m m' (if params.contains name then [] else [(name, count)])) :
    Ty.ofGenericName? env m' params name (Ty.renames f args) =
      (Ty.ofGenericName? env m params name args).map (Ty.rename f) := by
  refine Option.bind_eq_map_bind (Ty.ofName?_renumbers h) fun type _ => ?_
  have halias : ∀ type : Ty,
      (if env.scope.isAlias name then some (type.rename f) else none : Option Ty) =
        (if env.scope.isAlias name then some type else none).map (Ty.rename f) := by
    intro type
    split <;> rfl
  match type with
  | .named id [] =>
    simp only [Ty.rename, Ty.renames]
    split <;> rfl
  | .named id (a :: as) => exact halias (.named id (a :: as))
  | .basic kind => exact halias (.basic kind)
  | .imported path name underlying => exact halias (.imported path name underlying)
  | .param name => exact halias (.param name)
  | .pointer elem => exact halias (.pointer elem)
  | .slice elem => exact halias (.slice elem)
  | .array len elem => exact halias (.array len elem)
  | .map key value => exact halias (.map key value)
  | .chan dir elem => exact halias (.chan dir elem)
  | .func sig => exact halias (.func sig)
  | .struct fields => exact halias (.struct fields)
  | .interface iface => exact halias (.interface iface)
  | .invalid => exact halias .invalid

/-- A name means a renumbered type, plain or qualified, with whatever arguments. -/
theorem TypeName.meaning?_renumbers {args : List Ty} {count : Nat} (name : TypeName)
    (h : env.Renumbers f t t' m m' (name.uses params count)) :
    name.meaning? env t' m' params (Ty.renames f args) =
      (name.meaning? env t m params args).map (Ty.rename f) := by
  cases name with
  | plain name =>
    simp only [meaning?, Ty.isEmpty_renames]
    split
    · exact Ty.ofName?_renumbers h
    · exact Ty.ofGenericName?_renumbers h
  | qualified package name =>
    simp only [meaning?]
    cases env.scope.imports.lookup package.text with
    | none => rfl
    | some entry =>
      have himported := Ty.withArguments_renumbers h.nameChars args
        (env.importedType entry.path name.text)
      rw [env.rename_importedType h.error] at himported
      exact congrArg some himported

/-! ## Expressions -/

mutual

/-- What a type expression means where its names mean renumbered types. -/
theorem TypeExpr.meaning?_renumbers : ∀ e : TypeExpr,
    env.Renumbers f t t' m m' (e.uses params) →
      e.meaning? env t' m' params = (e.meaning? env t m params).map (Ty.rename f)
  | .named name args, h =>
    Option.bind_eq_map_bind (TypeArg.meanings?_renumbers args h.left) fun _ _ =>
      name.meaning?_renumbers h.right
  | .pointer elem, h => Option.map_return (TypeExpr.meaning?_renumbers elem h) fun _ => rfl
  | .slice elem, h => Option.map_return (TypeExpr.meaning?_renumbers elem h) fun _ => rfl
  | .array _ elem, h => Option.map_return (TypeExpr.meaning?_renumbers elem h) fun _ => rfl
  | .map key value, h =>
    Option.map_return₂ (TypeExpr.meaning?_renumbers key h.left)
      (TypeExpr.meaning?_renumbers value h.right) fun _ _ => rfl
  | .chan _ elem, h => Option.map_return (TypeExpr.meaning?_renumbers elem h) fun _ => rfl
  | .func sig, h => Option.map_return (SignatureExpr.meaning?_renumbers sig h) fun _ => rfl
  | .struct fields, h => Option.map_return (FieldDecl.meanings?_renumbers fields h) fun _ => rfl
  | .interface elems, h =>
    Option.map_return (InterfaceElem.meanings?_renumbers elems h) fun _ => by
      rw [Ty.rename, Interface.rename_ofElems]
  | .group inner, h => TypeExpr.meaning?_renumbers inner h
  | .tilde inner, h => Option.map_return (TypeExpr.meaning?_renumbers inner h) fun _ => rfl
termination_by structural e => e

theorem TypeExpr.termMeanings?_renumbers : ∀ terms : List TypeExpr,
    env.Renumbers f t t' m m' (TypeExpr.allUses params terms) →
      TypeExpr.termMeanings? env t' m' params terms =
        (TypeExpr.termMeanings? env t m params terms).map (Term.renames f)
  | [], _ => rfl
  | term :: terms, h => by
    have hterm := TypeExpr.meaning?_renumbers term h.left
    have hterms := TypeExpr.termMeanings?_renumbers terms h.right
    cases term
    case tilde inner =>
      exact Option.map_return₂ (TypeExpr.meaning?_renumbers inner h.left) hterms fun _ _ => rfl
    all_goals exact Option.map_return₂ hterm hterms fun _ _ => rfl
termination_by structural terms => terms

theorem TypeArg.meanings?_renumbers : ∀ args : List TypeArg,
    env.Renumbers f t t' m m' (TypeArg.allUses params args) →
      TypeArg.meanings? env t' m' params args =
        (TypeArg.meanings? env t m params args).map (Ty.renames f)
  | [], _ => rfl
  | ⟨_, terms⟩ :: args, h =>
    Option.map_return₂ (TypeExpr.termMeanings?_renumbers terms h.left)
      (TypeArg.meanings?_renumbers args h.right) fun _ _ => by rw [Ty.renames, Ty.rename_ofTerms]
termination_by structural args => args

theorem SignatureExpr.meaning?_renumbers : ∀ sig : SignatureExpr,
    env.Renumbers f t t' m m' (sig.uses params) →
      sig.meaning? env t' m' params = (sig.meaning? env t m params).map (Signature.rename f)
  | ⟨decls, results⟩, h =>
    Option.map_return₂ (ParamDecl.meanings?_renumbers decls h.left)
      (ResultExpr.meaning?_renumbers results h.right) fun _ _ => rfl
termination_by structural sig => sig

theorem ResultExpr.meaning?_renumbers : ∀ results : ResultExpr,
    env.Renumbers f t t' m m' (results.uses params) →
      results.meaning? env t' m' params = (results.meaning? env t m params).map (Var.renames f)
  | .list decls, h => ParamDecl.meanings?_renumbers decls h
  | .single type, h => Option.map_return (TypeExpr.meaning?_renumbers type h) fun _ => rfl
termination_by structural results => results

theorem ParamDecl.meanings?_renumbers : ∀ decls : List ParamDecl,
    env.Renumbers f t t' m m' (ParamDecl.allUses params decls) →
      ParamDecl.meanings? env t' m' params decls =
        (ParamDecl.meanings? env t m params decls).map (Var.renames f)
  | [], _ => rfl
  | ⟨names, type, variadic⟩ :: decls, h =>
    Option.map_return₂ (TypeExpr.meaning?_renumbers type h.left)
      (ParamDecl.meanings?_renumbers decls h.right) fun type vars => by
        rw [Var.renames_append, Var.renames_ofNames]
        cases variadic <;> rfl
termination_by structural decls => decls

theorem FieldDecl.meanings?_renumbers : ∀ decls : List FieldDecl,
    env.Renumbers f t t' m m' (FieldDecl.allUses params decls) →
      FieldDecl.meanings? env t' m' params decls =
        (FieldDecl.meanings? env t m params decls).map (Field.renames f)
  | [], _ => rfl
  | .named names type tag :: decls, h =>
    Option.map_return₂ (TypeExpr.meaning?_renumbers type h.left)
      (FieldDecl.meanings?_renumbers decls h.right) fun type fields => by
        rw [Field.renames_append, Field.renames_ofNames]
  | .embedded pointer name args tag :: decls, h =>
    Option.bind_eq_map_bind (TypeArg.meanings?_renumbers args h.left.left) fun _ _ =>
      Option.map_return₂ (name.meaning?_renumbers h.left.right)
        (FieldDecl.meanings?_renumbers decls h.right) fun _ _ => by cases pointer <;> rfl
termination_by structural decls => decls

/-- Methods and embedded types are renumbered each in their place. -/
theorem InterfaceElem.meanings?_renumbers : ∀ elems : List InterfaceElem,
    env.Renumbers f t t' m m' (InterfaceElem.allUses params elems) →
      InterfaceElem.meanings? env t' m' params elems =
        (InterfaceElem.meanings? env t m params elems).map (List.map (ResolvedElem.rename f))
  | [], _ => rfl
  | .method _ sig :: elems, h =>
    Option.map_return₂ (SignatureExpr.meaning?_renumbers sig h.left)
      (InterfaceElem.meanings?_renumbers elems h.right) fun _ _ => rfl
  | .union terms :: elems, h =>
    Option.map_return₂ (TypeExpr.termMeanings?_renumbers terms h.left)
      (InterfaceElem.meanings?_renumbers elems h.right) fun _ _ => by
        rw [List.map_cons, ← Embedded.rename_ofTerms]
        rfl
termination_by structural elems => elems

end

/-! ## Declarations -/

theorem TypeParamDecl.meanings?_renumbers (decls : List TypeParamDecl)
    (h : env.Renumbers f t t' m m' (TypeParamDecl.allUses params decls)) :
    TypeParamDecl.meanings? env t' m' params decls =
      (TypeParamDecl.meanings? env t m params decls).map (TypeParam.renames f) := by
  induction decls with
  | nil => rfl
  | cons decl decls ih =>
    exact Option.map_return₂ (TypeExpr.termMeanings?_renumbers decl.constraint h.left)
      (ih h.right) fun _ _ => by rw [TypeParam.renames_ofNames, Ty.rename_ofTerms]

/-- A function is defined with a renumbered signature, or not at all in both cases. -/
theorem FuncDecl.meaning?_renumbers (decl : FuncDecl) (h : env.Renumbers f t t' m m' decl.uses) :
    decl.meaning? env t' m' = (decl.meaning? env t m).map (FuncDef.rename f) :=
  Option.map_return₂ (TypeParamDecl.meanings?_renumbers decl.typeParams h.left)
    (SignatureExpr.meaning?_renumbers decl.signature h.right) fun _ sig => by
      cases sig
      rfl

/-- The type of a receiver is renumbered, and its name is kept. -/
theorem ReceiverExpr.meaning?_renumbers (receiver : ReceiverExpr)
    (h : env.Renumbers f t t' m m' (receiver.type.uses receiver.typeParams)) :
    receiver.meaning? env t' m' = (receiver.meaning? env t m).map (Var.rename f) := by
  unfold ReceiverExpr.meaning?
  split
  · rw [TypeExpr.meaning?_renumbers receiver.type h, Option.map_map, Option.map_map]
    rfl
  · rfl

/-- A method is defined with a renumbered receiver and signature, or not at all in both cases. -/
theorem MethodDecl.meaning?_renumbers (decl : MethodDecl)
    (h : env.Renumbers f t t' m m' decl.uses) :
    decl.meaning? env t' m' = (decl.meaning? env t m).map (FuncDef.rename f) := by
  unfold MethodDecl.meaning?
  cases hreceiver : decl.receiver with
  | none => rfl
  | some receiver =>
    have hleft : env.Renumbers f t t' m m' (receiver.type.uses receiver.typeParams) := by
      have hleft := h.left
      rwa [hreceiver] at hleft
    exact Option.map_return₂ (receiver.meaning?_renumbers hleft)
      (SignatureExpr.meaning?_renumbers decl.signature h.right) fun receiver sig => by
        cases receiver
        cases sig
        rfl

end

end GoSignatures

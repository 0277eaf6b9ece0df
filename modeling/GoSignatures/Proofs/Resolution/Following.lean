import GoSignatures.Proofs.Resolution.Functions
import GoSignatures.Proofs.Ty.Copying

/-!
# Runs that follow each other

The declarations of a file are resolved in a scope, and once more in a scope with one more name for
a type, which they do not use. The two runs reach the same types, though not at the same places: the
second one may have entered the additional type in between. So the progress of the first is copied
into that of the second, step by step.

* `Progress.Copied` — a progress is copied into another one
* `Resolve.Follows` — two steps are alike, and the copy is kept
* `Env.Widens` — one name for a type is added
* `TypeExpr.resolve_follows` — type expressions that do not use the name
-/

namespace GoSignatures

open Resolve

/-! ## Copies of the progress -/

/-- The entered type with its place renumbered. -/
def EnteredType.rename (f : Nat → Nat) (e : EnteredType) : EnteredType :=
  { e with id := f e.id }

/-- The functions that are defined at file level. -/
def Progress.functions (p : Progress) : List FuncDef :=
  (p.definitions.filterMap Definition.func?).filter FuncDef.isTopLevel

/-- All that was found in `p` was found in `p'`, too, with places renumbered by `f`. Beyond that,
`p'` knows names in `extra` only, whose places are not in `p`, and a type that waits besides waits
for a type that is known in `p`. -/
structure Progress.Copied (p : Progress) (f : Nat → Nat) (extra : List String) (p' : Progress) :
    Prop where
  table : p.table.Copied f p'.table
  grows : ∀ n, f (p.table.size + n) = p'.table.size + n
  entered : (p'.entered.filter fun e => !extra.contains e.name.text) =
    p.entered.map (EnteredType.rename f)
  outside : ∀ e ∈ p'.entered, extra.contains e.name.text = true → ∀ id, f id ≠ e.id
  aliases : (p'.aliases.filter fun a => !extra.contains a.1) =
    p.aliases.map fun a => (a.1, a.2.rename f)
  waits : ∀ w ∈ p.pending, (f w.1, f w.2) ∈ p'.pending
  waited : ∀ w ∈ p'.pending, (∃ v ∈ p.pending, w = (f v.1, f v.2)) ∨
    (∀ id, f id ≠ w.1) ∧ ∃ id < p.table.size, w.2 = f id
  functions : p'.functions = p.functions.map (FuncDef.rename f)

namespace Progress.Copied

variable {f : Nat → Nat} {extra : List String} {p p' : Progress} (h : p.Copied f extra p')
include h

/-- The two tables end at places that `f` relates. -/
theorem size : f p.table.size = p'.table.size := h.grows 0

/-- A name that is not in `extra` is entered in both or in neither, at places that `f` relates. -/
theorem enteredType? {name : String} (hname : extra.contains name = false) :
    p'.enteredType? name = (p.enteredType? name).map (EnteredType.rename f) := by
  have hkeep : ∀ e ∈ p'.entered, (e.name.text == name) = true →
      (!extra.contains e.name.text) = true := by
    intro e _ he
    rw [beq_iff_eq.mp he, hname]
    rfl
  rw [Progress.enteredType?, ← find?_filter_eq hkeep, h.entered, List.find?_map]
  rfl

/-- Such a name is an alias in both or in neither, for types that `f` relates. -/
theorem lookup_aliases {name : String} (hname : extra.contains name = false) :
    p'.aliases.lookup name = (p.aliases.lookup name).map (Ty.rename f) := by
  have hkeep : ∀ a ∈ p'.aliases, (name == a.1) = true → (!extra.contains a.1) = true := by
    intro a _ ha
    rw [← beq_iff_eq.mp ha, hname]
    rfl
  rw [lookup_eq_map_find?, lookup_eq_map_find?, ← find?_filter_eq hkeep, h.aliases, List.find?_map,
    Option.map_map, Option.map_map]
  rfl

/-- What is no function at file level may be recorded on each side. -/
theorem define {d d' : Definition} (hd : ∀ f, d.func? = some f → f.isTopLevel = false)
    (hd' : ∀ f, d'.func? = some f → f.isTopLevel = false) :
    (p.define d).Copied f extra (p'.define d') := by
  have hsame : ∀ (p : Progress) (d : Definition), (∀ f, d.func? = some f → f.isTopLevel = false) →
      (p.define d).functions = p.functions := by
    intro p d hd
    unfold Progress.functions Progress.define
    rw [List.filterMap_append, List.filter_append]
    cases hfunc : d.func? with
    | none => simp [hfunc]
    | some f => simp [hfunc, hd f hfunc]
  exact { h with functions := by rw [hsame p d hd, hsame p' d' hd', h.functions] }

/-- Methods of interfaces are recorded like functions, but not at file level. -/
theorem defineMethod {d d' : FuncDef} (hd : d.scope = .interface) (hd' : d'.scope = .interface) :
    (p.define (.func d)).Copied f extra (p'.define (.func d')) := by
  refine h.define (fun g hg => ?_) fun g hg => ?_
  · cases hg
    simp [FuncDef.isTopLevel, hd]
  · cases hg
    simp [FuncDef.isTopLevel, hd']

theorem defineType (d d' : TypeDef) :
    (p.define (.type d)).Copied f extra (p'.define (.type d')) :=
  h.define nofun nofun

end Progress.Copied

/-! ## Steps that follow each other -/

namespace Resolve

variable {α α' β β' γ γ' : Type} {R : Progress → Progress → Prop}

/-- Where `R` holds, the two steps both fail, or both succeed with results that `g` relates, and
then `R` holds again. -/
def Follows (R : Progress → Progress → Prop) (g : α → α') (x : Resolve α) (y : Resolve α') : Prop :=
  ∀ p p', R p p' → Except.Alike (fun a b => b.1 = g a.1 ∧ R a.2 b.2) (x p) (y p')

namespace Follows

variable {g : α → α'} {k : β → β'} {x : Resolve α} {y : Resolve α'}

theorem pure {a : α} {b : α'} (h : b = g a) :
    Follows R g (Pure.pure a : Resolve α) (Pure.pure b : Resolve α') :=
  fun _ _ hp => .ok ⟨h, hp⟩

theorem fail {env env' : Env} {place place' : Position} {cause cause' : ResolveCause} :
    Follows R g (env.fail place cause : Resolve α) (env'.fail place' cause' : Resolve α') :=
  fun _ _ _ => .error _ _

theorem modify {u u' : Progress → Progress} (h : ∀ p p', R p p' → R (u p) (u' p')) :
    Follows R id (modify u : Resolve Unit) (modify u' : Resolve Unit) :=
  fun p p' hp => .ok ⟨rfl, h p p' hp⟩

/-- The rest of a step has to follow for every result of its first part. -/
theorem bind {u : α → Resolve β} {u' : α' → Resolve β'} (h : Follows R g x y)
    (hu : ∀ a, Follows R k (u a) (u' (g a))) : Follows R k (x >>= u) (y >>= u') :=
  fun p p' hp => (h p p' hp).bind fun (a, q) (b, q') _ _ ⟨hb, hq⟩ => by
    subst hb
    exact hu a q q' hq

theorem map {u : α → β} {u' : α' → β'} (h : Follows R g x y) (hu : ∀ a, u' (g a) = k (u a)) :
    Follows R k (do return u (← x)) (do return u' (← y)) :=
  h.bind fun a => .pure (hu a)

/-- A result made of two parts is related if it is made alike of related parts. -/
theorem map₂ {l : γ → γ'} {z : Resolve γ} {w : Resolve γ'} {u : α → γ → β} {u' : α' → γ' → β'}
    (h : Follows R g x y) (h' : Follows R l z w) (hu : ∀ a c, u' (g a) (l c) = k (u a c)) :
    Follows R k (do return u (← x) (← z)) (do return u' (← y) (← w)) :=
  h.bind fun a => h'.map (hu a)

/-- What is done for each element of a list in turn follows if it follows for every element. -/
theorem forM {u u' : β → Resolve Unit} {l : List β} (h : ∀ b ∈ l, Follows R id (u b) (u' b)) :
    Follows R id (l.forM u) (l.forM u') := by
  induction l with
  | nil => exact .pure rfl
  | cons b l ih =>
    obtain ⟨hb, hl⟩ := List.forall_mem_cons.mp h
    exact hb.bind fun _ => ih hl

end Follows

end Resolve

/-! ## One name more -/

/-- The scope of `env'` has one name for a type more than that of `env`. -/
structure Env.Widens (env env' : Env) (name : String) : Prop where
  packageName : env'.packageName = env.packageName
  config : env'.config = env.config
  imports : env'.scope.imports = env.scope.imports
  lookup : ∀ other, other ≠ name → env'.scope.lookup other = env.scope.lookup other
  unknown : env.scope.lookup name = none
  known : ∃ spec, env'.scope.lookup name = some (.type spec)

namespace Env.Widens

variable {env env' : Env} {name : String} (h : env.Widens env' name)
include h

theorem isAlias {other : String} (hother : other ≠ name) :
    env'.scope.isAlias other = env.scope.isAlias other := by
  rw [FileScope.isAlias, FileScope.isAlias, h.lookup other hother]

theorem importedType (path other : String) :
    env'.importedType path other = env.importedType path other := by
  rw [Env.importedType, Env.importedType, h.config]

/-- A name for a type is no constant. So an array bound that is the additional name is kept as it is
written, as it is where nobody knows the name. -/
theorem arrayLen : ∀ e : Expr, e.arrayLen env'.scope = e.arrayLen env.scope
  | .int _ | .other _ => rfl
  | .name text => by
    rw [Expr.arrayLen, Expr.arrayLen]
    by_cases htext : text = name
    · obtain ⟨spec, hspec⟩ := h.known
      rw [htext, h.unknown, hspec]
    · rw [h.lookup text htext]
  | .group inner => arrayLen inner
termination_by structural e => e

end Env.Widens

/-! ## Parts of what expressions mean -/

section

variable {f : Nat → Nat}

/-- A union is renumbered term by term; a single term stands for itself. -/
theorem Ty.rename_ofTerms : ∀ terms : List Term,
    (Ty.ofTerms terms).rename f = Ty.ofTerms (Term.renames f terms)
  | [] | [⟨true, _⟩] | [⟨false, _⟩] => rfl
  | ⟨true, _⟩ :: ⟨_, _⟩ :: _ | ⟨false, _⟩ :: ⟨_, _⟩ :: _ => rfl

theorem Embedded.rename_ofTerms : ∀ terms : List Term,
    (Embedded.ofTerms terms).rename f = Embedded.ofTerms (Term.renames f terms)
  | [] | [⟨true, _⟩] | [⟨false, _⟩] => rfl
  | ⟨true, _⟩ :: ⟨_, _⟩ :: _ | ⟨false, _⟩ :: ⟨_, _⟩ :: _ => rfl

theorem Var.renames_append (vs ws : List Var) :
    Var.renames f (vs ++ ws) = Var.renames f vs ++ Var.renames f ws := by
  simp only [Var.renames_eq_map, List.map_append]

theorem Field.renames_append (fs gs : List Field) :
    Field.renames f (fs ++ gs) = Field.renames f fs ++ Field.renames f gs := by
  simp only [Field.renames_eq_map, List.map_append]

/-- All names of one declaration have the same type, which is renumbered once. -/
theorem Var.renames_ofNames (names : List String) (type : Ty) :
    Var.renames f (Var.ofNames names type) = Var.ofNames names (type.rename f) := by
  unfold Var.ofNames
  split
  · rfl
  · simp [Var.renames_eq_map, Var.rename, Function.comp_def]

theorem Field.renames_ofNames (names : List String) (type : Ty) (tag : Option String) :
    Field.renames f (Field.ofNames names type tag) = Field.ofNames names (type.rename f) tag := by
  simp [Field.ofNames, Field.renames_eq_map, Field.rename, Function.comp_def]

theorem TypeParam.renames_ofNames (names : List String) (constraint : Ty) (ps : List TypeParam) :
    TypeParam.renames f (names.map (⟨·, constraint⟩) ++ ps) =
      names.map (⟨·, constraint.rename f⟩) ++ TypeParam.renames f ps := by
  simp [TypeParam.renames_eq_map, TypeParam.rename, Function.comp_def]

/-- The element of an interface with its places renumbered. -/
def ResolvedElem.rename (f : Nat → Nat) : ResolvedElem → ResolvedElem :=
  Sum.map (Method.rename f) (Embedded.rename f)

/-- Renumbering keeps methods and embedded types apart. -/
theorem Interface.rename_ofElems (found : List ResolvedElem) :
    (Interface.ofElems (found.filterMap Sum.getLeft?) (found.filterMap Sum.getRight?)).rename f =
      Interface.ofElems ((found.map (ResolvedElem.rename f)).filterMap Sum.getLeft?)
        ((found.map (ResolvedElem.rename f)).filterMap Sum.getRight?) := by
  rw [ResolvedElem.rename,
    Interface.ofElems_map (Method.rename f) (Embedded.rename f) fun _ => rfl, Interface.ofElems,
    Interface.rename, Method.renames_eq_map, Embedded.renames_eq_map]
  rfl

/-- The only place in an imported type is that of `error`. -/
theorem Env.rename_importedType (herror : f errorId = errorId) (env : Env) (path name : String) :
    (env.importedType path name).rename f = env.importedType path name :=
  Ty.rename_eq_self (A := ⟨fun id _ => id = errorId, fun _ => True⟩)
    (fun _ _ hid => hid ▸ herror) herror _ (env.proper_importedType path name)

/-- The only places in predeclared types are those of `error` and `comparable`. -/
theorem Universe.rename_type? (herror : f errorId = errorId)
    (hcomparable : f comparableId = comparableId) {name : String} {type : Ty}
    (h : Universe.type? name = some type) : type.rename f = type := by
  let allowed : Ty.Allowed := ⟨fun id _ => f id = id, fun _ => True⟩
  have hproper : type.Proper allowed := Universe.proper_type? herror hcomparable h
  exact Ty.rename_eq_self (fun _ _ hid => hid) herror type hproper

/-- Arguments of an imported type become text, which the two tables spell alike. -/
theorem Table.Copied.withArguments {t t' : Table} (h : t.Copied f t') (args : List Ty) (type : Ty) :
    (type.withArguments t args).rename f =
      (type.rename f).withArguments t' (Ty.renames f args) := by
  cases type with
  | imported path name underlying =>
    have hrender : (Ty.renames f args).map (Ty.render t') = args.map (Ty.render t) := by
      rw [Ty.renames_eq_map, List.map_map]
      exact List.map_congr_left fun type _ => h.render type
    simp only [Ty.withArguments, Ty.rename, Ty.isEmpty_renames, hrender]
    split <;> rfl
  | _ => rfl

end

/-! ## Names -/

/-- Names are entered in parallel: with the name `fresh` added in `env'`, where `R` holds, which
makes one progress a copy of the other. -/
structure EnterType.Parallel (env env' : Env) (fresh : String) (f : Nat → Nat)
    (R : Progress → Progress → Prop) (enter enter' : EnterType) : Prop where
  widens : env.Widens env' fresh
  error : f errorId = errorId
  comparable : f comparableId = comparableId
  table : ∀ p p', R p p' → p.table.Copied f p'.table
  define : ∀ p p', R p p' → ∀ d d' : FuncDef, d.scope = .interface → d'.scope = .interface →
    R (p.define (.func d)) (p'.define (.func d'))
  enter : ∀ name : Piece, name.text ≠ fresh → Follows R (Ty.rename f) (enter name) (enter' name)

section

variable {env env' : Env} {fresh : String} {f : Nat → Nat} {R : Progress → Progress → Prop}
  {enter enter' : EnterType} {params : List String}
  (h : EnterType.Parallel env env' fresh f R enter enter') (hparams : fresh ∉ params)
include h hparams

omit hparams in
/-- A name that is not the additional one is found among the same: type parameters, declarations,
predeclared types, and at last the dot import. -/
theorem Ty.ofName_follows {name : Piece} (hname : name.text ≠ fresh) :
    Follows R (Ty.rename f) (Ty.ofName env enter params name)
      (Ty.ofName env' enter' params name) := by
  unfold Ty.ofName
  simp only [h.widens.lookup _ hname, h.widens.imports]
  split
  · exact .pure rfl
  cases env.scope.lookup name.text with
  | some entry =>
    cases entry with
    | type spec => exact h.enter name hname
    | _ => exact .fail
  | none =>
    dsimp only
    cases huniverse : Universe.type? name.text with
    | some type => exact .pure (Universe.rename_type? h.error h.comparable huniverse).symm
    | none =>
      dsimp only
      split
      · exact .fail
      · cases env.scope.imports.dotImport? with
        | none => exact .fail
        | some path =>
          refine .pure ?_
          rw [h.widens.importedType, env.rename_importedType h.error]

omit hparams in
/-- A type needs arguments in both or in neither, since the tables agree on how many parameters it
has. -/
theorem Ty.ofBareName_follows {name : Piece} (hname : name.text ≠ fresh) :
    Follows R (Ty.rename f) (Ty.ofBareName env enter params name)
      (Ty.ofBareName env' enter' params name) := by
  refine (Ty.ofName_follows h hname).bind fun type => ?_
  cases type with
  | named id args =>
    intro p p' hp
    simp only [Ty.rename, Ty.isEmpty_renames, get_bind, (h.table p p' hp).length_typeParams]
    split
    · exact Follows.fail p p' hp
    · exact .ok ⟨rfl, hp⟩
  | _ => exact .pure rfl

omit hparams in
/-- A type is given as many arguments as it has parameters, in both or in neither. What is no
declared type takes arguments as an alias only. -/
theorem Ty.ofGenericName_follows {name : Piece} {args : List Ty} (hname : name.text ≠ fresh) :
    Follows R (Ty.rename f) (Ty.ofGenericName env enter params name args)
      (Ty.ofGenericName env' enter' params name (Ty.renames f args)) := by
  refine (Ty.ofName_follows h hname).bind fun type => ?_
  have halias : ∀ type : Ty, Follows R (Ty.rename f)
      (if env.scope.isAlias name.text then pure type
        else env.fail name.position (.typeArgumentCount name.text 0 args.length) : Resolve Ty)
      (if env'.scope.isAlias name.text then pure (type.rename f)
        else env'.fail name.position
          (.typeArgumentCount name.text 0 (Ty.renames f args).length) : Resolve Ty) := by
    intro type
    rw [h.widens.isAlias hname]
    split
    · exact .pure rfl
    · exact .fail
  match type with
  | .named id [] =>
    have hlength : (Ty.renames f args).length = args.length := by
      rw [Ty.renames_eq_map, List.length_map]
    intro p p' hp
    simp only [Ty.rename, Ty.renames, hlength, get_bind,
      (h.table p p' hp).length_typeParams]
    split
    · exact .ok ⟨rfl, hp⟩
    · exact Follows.fail p p' hp
  | .named id (a :: as) => exact halias (.named id (a :: as))
  | .basic kind => exact halias (.basic kind)
  | .imported path name underlying => exact halias (.imported path name underlying)
  | .param name => exact halias (.param name)
  | .pointer elem => exact halias (.pointer elem)
  | .slice elem => exact halias (.slice elem)
  | .array len elem => exact halias (.array len elem)
  | .map key value => exact halias (.map key value)
  | .chan dir elem => exact halias (.chan dir elem)
  | .func sig => exact halias (.func sig)
  | .struct fields => exact halias (.struct fields)
  | .interface iface => exact halias (.interface iface)
  | .invalid => exact halias .invalid

/-- A name follows, plain or qualified, unless it uses the additional one. -/
theorem TypeName.resolve_follows {args : List Ty} (name : TypeName)
    (hname : ∀ u ∈ name.uses params args.length, u.1 ≠ fresh) :
    Follows R (Ty.rename f) (name.resolve env enter params args)
      (name.resolve env' enter' params (Ty.renames f args)) := by
  cases name with
  | plain name =>
    have hname : name.text ≠ fresh := by
      by_cases hparam : name.text ∈ params
      · exact fun heq => hparams (heq ▸ hparam)
      · exact hname (name.text, args.length) (by simp [TypeName.uses, hparam])
    simp only [TypeName.resolve, Ty.isEmpty_renames]
    split
    · exact Ty.ofBareName_follows h hname
    · exact Ty.ofGenericName_follows h hname
  | qualified package name =>
    simp only [TypeName.resolve, Ty.ofQualifiedName, h.widens.imports]
    cases env.scope.imports.lookup package.text with
    | none => exact .fail
    | some entry =>
      intro p p' hp
      refine .ok ⟨?_, hp⟩
      rw [(h.table p p' hp).withArguments, env.rename_importedType h.error,
        ← h.widens.importedType]

/-! ## Expressions -/

omit h hparams in
/-- Whether a name is used does not depend on the number of its arguments. -/
theorem TypeName.uses_ne {name : TypeName} {count : Nat}
    (h : ∀ u ∈ name.uses params count, u.1 ≠ fresh) (count' : Nat) :
    ∀ u ∈ name.uses params count', u.1 ≠ fresh := by
  cases name with
  | plain name =>
    by_cases hparam : name.text ∈ params
    · simp [TypeName.uses, hparam]
    · simpa [TypeName.uses, hparam] using h
  | qualified _ _ => simp [TypeName.uses]

-- each lemma of the block has the assumptions for the others, which the linter does not see
set_option linter.unusedSectionVars false in
mutual

/-- Resolving a type expression that does not use the additional name follows. -/
theorem TypeExpr.resolve_follows : ∀ e : TypeExpr, (∀ u ∈ e.uses params, u.1 ≠ fresh) →
    Follows R (Ty.rename f) (e.resolve env enter params) (e.resolve env' enter' params)
  | .named name args, huses => by
    obtain ⟨hargs, hname⟩ := List.forall_mem_append.mp huses
    exact (TypeArg.resolveAll_follows args hargs).bind fun _ =>
      TypeName.resolve_follows h hparams name (TypeName.uses_ne hname _)
  | .pointer elem, huses => (TypeExpr.resolve_follows elem huses).map fun _ => rfl
  | .slice elem, huses => (TypeExpr.resolve_follows elem huses).map fun _ => rfl
  | .array length elem, huses =>
    (TypeExpr.resolve_follows elem huses).map fun _ => by rw [h.widens.arrayLen, Ty.rename]
  | .map key value, huses => by
    obtain ⟨hkey, hvalue⟩ := List.forall_mem_append.mp huses
    exact (TypeExpr.resolve_follows key hkey).map₂ (TypeExpr.resolve_follows value hvalue)
      fun _ _ => rfl
  | .chan _ elem, huses => (TypeExpr.resolve_follows elem huses).map fun _ => rfl
  | .func sig, huses => (SignatureExpr.resolve_follows sig huses).map fun _ => rfl
  | .struct fields, huses => (FieldDecl.resolveAll_follows fields huses).map fun _ => rfl
  | .interface elems, huses =>
    (InterfaceElem.resolveAll_follows elems huses).map fun found => by
      rw [Ty.rename, Interface.rename_ofElems]
  | .group inner, huses => TypeExpr.resolve_follows inner huses
  | .tilde inner, huses => (TypeExpr.resolve_follows inner huses).map fun _ => rfl
termination_by structural e => e

theorem TypeExpr.resolveTerms_follows : ∀ terms : List TypeExpr,
    (∀ u ∈ TypeExpr.allUses params terms, u.1 ≠ fresh) →
      Follows R (Term.renames f) (TypeExpr.resolveTerms env enter params terms)
        (TypeExpr.resolveTerms env' enter' params terms)
  | [], _ => .pure rfl
  | term :: terms, huses => by
    obtain ⟨hfirst, hrest⟩ := List.forall_mem_append.mp huses
    have hterm := TypeExpr.resolve_follows term hfirst
    have hterms := TypeExpr.resolveTerms_follows terms hrest
    cases term
    case tilde inner =>
      exact (TypeExpr.resolve_follows inner hfirst).map₂ hterms fun _ _ => rfl
    all_goals exact hterm.map₂ hterms fun _ _ => rfl
termination_by structural terms => terms

theorem TypeArg.resolveAll_follows : ∀ args : List TypeArg,
    (∀ u ∈ TypeArg.allUses params args, u.1 ≠ fresh) →
      Follows R (Ty.renames f) (TypeArg.resolveAll env enter params args)
        (TypeArg.resolveAll env' enter' params args)
  | [], _ => .pure rfl
  | ⟨_, terms⟩ :: args, huses => by
    obtain ⟨hterms, hargs⟩ := List.forall_mem_append.mp huses
    exact (TypeExpr.resolveTerms_follows terms hterms).map₂ (TypeArg.resolveAll_follows args hargs)
      fun _ _ => by rw [Ty.renames, Ty.rename_ofTerms]
termination_by structural args => args

theorem SignatureExpr.resolve_follows : ∀ sig : SignatureExpr,
    (∀ u ∈ sig.uses params, u.1 ≠ fresh) →
      Follows R (Signature.rename f) (sig.resolve env enter params) (sig.resolve env' enter' params)
  | ⟨decls, results⟩, huses => by
    obtain ⟨hdecls, hresults⟩ := List.forall_mem_append.mp huses
    exact (ParamDecl.resolveAll_follows decls hdecls).map₂
      (ResultExpr.resolve_follows results hresults) fun _ _ => rfl
termination_by structural sig => sig

theorem ResultExpr.resolve_follows : ∀ results : ResultExpr,
    (∀ u ∈ results.uses params, u.1 ≠ fresh) →
      Follows R (Var.renames f) (results.resolve env enter params)
        (results.resolve env' enter' params)
  | .list decls, huses => ParamDecl.resolveAll_follows decls huses
  | .single type, huses => (TypeExpr.resolve_follows type huses).map fun _ => rfl
termination_by structural results => results

theorem ParamDecl.resolveAll_follows : ∀ decls : List ParamDecl,
    (∀ u ∈ ParamDecl.allUses params decls, u.1 ≠ fresh) →
      Follows R (Var.renames f) (ParamDecl.resolveAll env enter params decls)
        (ParamDecl.resolveAll env' enter' params decls)
  | [], _ => .pure rfl
  | ⟨names, type, variadic⟩ :: decls, huses => by
    obtain ⟨htype, hdecls⟩ := List.forall_mem_append.mp huses
    refine (TypeExpr.resolve_follows type htype).map₂ (ParamDecl.resolveAll_follows decls hdecls)
      fun type vars => ?_
    rw [Var.renames_append, Var.renames_ofNames]
    cases variadic <;> rfl
termination_by structural decls => decls

theorem FieldDecl.resolveAll_follows : ∀ decls : List FieldDecl,
    (∀ u ∈ FieldDecl.allUses params decls, u.1 ≠ fresh) →
      Follows R (Field.renames f) (FieldDecl.resolveAll env enter params decls)
        (FieldDecl.resolveAll env' enter' params decls)
  | [], _ => .pure rfl
  | .named names type tag :: decls, huses => by
    obtain ⟨htype, hdecls⟩ := List.forall_mem_append.mp huses
    exact (TypeExpr.resolve_follows type htype).map₂ (FieldDecl.resolveAll_follows decls hdecls)
      fun type fields => by rw [Field.renames_append, Field.renames_ofNames]
  | .embedded pointer name args tag :: decls, huses => by
    obtain ⟨hfield, hdecls⟩ := List.forall_mem_append.mp huses
    obtain ⟨hargs, hname⟩ := List.forall_mem_append.mp hfield
    refine (TypeArg.resolveAll_follows args hargs).bind fun _ => ?_
    exact (TypeName.resolve_follows h hparams name
      (TypeName.uses_ne hname _)).map₂ (FieldDecl.resolveAll_follows decls hdecls) fun _ _ => by
        cases pointer <;> rfl
termination_by structural decls => decls

/-- The methods of an interface are recorded on the way, in both runs. -/
theorem InterfaceElem.resolveAll_follows : ∀ elems : List InterfaceElem,
    (∀ u ∈ InterfaceElem.allUses params elems, u.1 ≠ fresh) →
      Follows R (List.map (ResolvedElem.rename f))
        (InterfaceElem.resolveAll env enter params elems)
        (InterfaceElem.resolveAll env' enter' params elems)
  | [], _ => .pure rfl
  | .method name sig :: elems, huses => by
    obtain ⟨hsig, helems⟩ := List.forall_mem_append.mp huses
    refine (SignatureExpr.resolve_follows sig hsig).bind fun _ => ?_
    refine (Follows.modify fun p p' hp => h.define p p' hp _ _ rfl rfl).bind fun _ => ?_
    exact (InterfaceElem.resolveAll_follows elems helems).map fun _ => rfl
  | .union terms :: elems, huses => by
    obtain ⟨hterms, helems⟩ := List.forall_mem_append.mp huses
    exact (TypeExpr.resolveTerms_follows terms hterms).map₂
      (InterfaceElem.resolveAll_follows elems helems) fun terms found => by
        rw [List.map_cons, ← Embedded.rename_ofTerms]
        rfl
termination_by structural elems => elems

end

/-- Constraints are type expressions, and all names of one declaration share theirs. -/
theorem TypeParamDecl.resolveAll_follows (decls : List TypeParamDecl)
    (huses : ∀ u ∈ TypeParamDecl.allUses params decls, u.1 ≠ fresh) :
    Follows R (TypeParam.renames f) (TypeParamDecl.resolveAll env enter params decls)
      (TypeParamDecl.resolveAll env' enter' params decls) := by
  induction decls with
  | nil => exact .pure rfl
  | cons decl decls ih =>
    obtain ⟨names, constraint⟩ := decl
    obtain ⟨hconstraint, hdecls⟩ := List.forall_mem_append.mp huses
    refine (TypeExpr.resolveTerms_follows h hparams
      constraint hconstraint).bind fun terms => (ih hdecls).map fun params => ?_
    rw [TypeParam.renames_ofNames, Ty.rename_ofTerms]

end

end GoSignatures

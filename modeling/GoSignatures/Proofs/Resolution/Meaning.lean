import GoSignatures.Proofs.Outcome
import GoSignatures.Proofs.Ty.Proper
import GoSignatures.Resolution.TypeExpr

/-!
# What type expressions mean

Resolving a type expression enters the declared types that it names, and checks them, as it goes.
What the expression means in the end does not depend on that: it is given by what the declared
names mean.

* `TypeExpr.meaning?` — what a type expression means, if its names mean something
* `TypeExpr.uses` — the names that it uses, with the numbers of their type arguments
* `TypeExpr.proper_of_meaning?` — only what the names mean occurs in what an expression means
-/

namespace GoSignatures

/-- What the type names that a file declares mean, as far as that is known. -/
abbrev Meanings := String → Option Ty

/-- Whether a name is declared as a type. -/
def FileScope.isType (scope : FileScope) (name : String) : Bool :=
  match scope.lookup name with
  | some (.type _) => true
  | _ => false

theorem FileScope.isType_iff {scope : FileScope} {name : String} :
    scope.isType name = true ↔ ∃ spec, scope.lookup name = some (.type spec) := by
  unfold isType
  cases scope.lookup name with
  | none => simp
  | some entry => cases entry <;> simp

theorem FileScope.isType_of_isAlias {scope : FileScope} {name : String}
    (h : scope.isAlias name = true) : scope.isType name = true := by
  unfold isAlias at h
  rw [isType_iff]
  cases hlookup : scope.lookup name with
  | none => simp [hlookup] at h
  | some entry => cases entry <;> simp_all

section

variable (env : Env) (t : Table) (m : Meanings) (params : List String)

/-- What an unqualified name means. -/
def Ty.ofName? (name : String) : Option Ty :=
  if params.contains name then some (.param name)
  else
    match env.scope.lookup name with
    | some (.type _) => m name
    | some _ => none
    | none =>
      match Universe.type? name with
      | some type => some type
      | none =>
        if Universe.isValue name || (env.scope.imports.lookup name).isSome then none
        else env.scope.imports.dotImport?.map (env.importedType · name)

/-- What a name means with its type arguments. -/
def Ty.ofGenericName? (name : String) (args : List Ty) : Option Ty :=
  (Ty.ofName? env m params name).bind fun
    | .named id [] => if env.scope.isType name then some (.named id args) else none
    | type => if env.scope.isAlias name then some type else none

/-- What a name means with its type arguments, if it has any. -/
def TypeName.meaning? (args : List Ty) : TypeName → Option Ty
  | plain name =>
    if args.isEmpty then Ty.ofName? env m params name.text
    else Ty.ofGenericName? env m params name.text args
  | qualified package name =>
    (env.scope.imports.lookup package.text).map fun entry =>
      (env.importedType entry.path name.text).withArguments t args

mutual

/-- What a type expression means under the type parameters `params`. -/
def TypeExpr.meaning? : TypeExpr → Option Ty
  | .named name args => do name.meaning? env t m params (← TypeArg.meanings? args)
  | .pointer elem => return .pointer (← elem.meaning?)
  | .slice elem => return .slice (← elem.meaning?)
  | .array length elem => return .array (length.arrayLen env.scope) (← elem.meaning?)
  | .map key value => return .map (← key.meaning?) (← value.meaning?)
  | .chan dir elem => return .chan dir (← elem.meaning?)
  | .func sig => return .func (← sig.meaning?)
  | .struct fields => return .struct (← FieldDecl.meanings? fields)
  | .interface elems => do
    let found ← InterfaceElem.meanings? elems
    return .interface (.ofElems (found.filterMap Sum.getLeft?) (found.filterMap Sum.getRight?))
  | .group inner => inner.meaning?
  | .tilde inner => return .union [⟨true, ← inner.meaning?⟩]

/-- What the terms of a union mean. -/
def TypeExpr.termMeanings? : List TypeExpr → Option (List Term)
  | [] => return []
  | .tilde inner :: terms => return ⟨true, ← inner.meaning?⟩ :: (← TypeExpr.termMeanings? terms)
  | term :: terms => return ⟨false, ← term.meaning?⟩ :: (← TypeExpr.termMeanings? terms)

/-- What type arguments mean. -/
def TypeArg.meanings? : List TypeArg → Option (List Ty)
  | [] => return []
  | ⟨_, terms⟩ :: args =>
    return .ofTerms (← TypeExpr.termMeanings? terms) :: (← TypeArg.meanings? args)

/-- What parameters and results mean. -/
def SignatureExpr.meaning? : SignatureExpr → Option Signature
  | ⟨paramDecls, results⟩ => do
    let vars ← ParamDecl.meanings? paramDecls
    return ⟨none, [], vars, ← results.meaning?, paramDecls.any ParamDecl.variadic⟩

/-- What results mean. -/
def ResultExpr.meaning? : ResultExpr → Option (List Var)
  | .list results => ParamDecl.meanings? results
  | .single type => return [⟨"", ← type.meaning?⟩]

/-- What the declarations of a parameter list mean. -/
def ParamDecl.meanings? : List ParamDecl → Option (List Var)
  | [] => return []
  | ⟨names, type, variadic⟩ :: decls => do
    let type ← type.meaning?
    return Var.ofNames names (if variadic then .slice type else type) ++
      (← ParamDecl.meanings? decls)

/-- What the declarations of fields mean. -/
def FieldDecl.meanings? : List FieldDecl → Option (List Field)
  | [] => return []
  | .named names type tag :: decls => do
    let type ← type.meaning?
    return Field.ofNames names type (tag.map Text.StringLiteral.unquote) ++
      (← FieldDecl.meanings? decls)
  | .embedded pointer name args tag :: decls => do
    let type ← name.meaning? env t m params (← TypeArg.meanings? args)
    return ⟨name.unqualified, if pointer then .pointer type else type, true,
      tag.map Text.StringLiteral.unquote⟩ :: (← FieldDecl.meanings? decls)

/-- What the elements of an interface mean. -/
def InterfaceElem.meanings? : List InterfaceElem → Option (List ResolvedElem)
  | [] => return []
  | .method name sig :: elems => do
    let sig ← sig.meaning?
    return .inl ⟨name.text, sig⟩ :: (← InterfaceElem.meanings? elems)
  | .union terms :: elems =>
    return .inr (.ofTerms (← TypeExpr.termMeanings? terms)) :: (← InterfaceElem.meanings? elems)

end

/-- What declarations of type parameters mean. -/
def TypeParamDecl.meanings? : List TypeParamDecl → Option (List TypeParam)
  | [] => return []
  | ⟨names, constraint⟩ :: decls => do
    let constraint := Ty.ofTerms (← TypeExpr.termMeanings? env t m params constraint)
    return names.map (⟨·, constraint⟩) ++ (← meanings? decls)

end

/-! ## Uses -/

/-- A name that is used as a type, with the number of its type arguments. -/
abbrev TypeUse := String × Nat

section

variable (params : List String)

/-- The use that a name makes, unless it names a type parameter. -/
def TypeName.uses (count : Nat) : TypeName → List TypeUse
  | plain name => if params.contains name.text then [] else [(name.text, count)]
  | qualified _ _ => []

mutual

/-- The names that a type expression uses under the type parameters `params`. -/
def TypeExpr.uses : TypeExpr → List TypeUse
  | .named name args => TypeArg.allUses args ++ name.uses params args.length
  | .pointer elem => elem.uses
  | .slice elem => elem.uses
  | .array _ elem => elem.uses
  | .map key value => key.uses ++ value.uses
  | .chan _ elem => elem.uses
  | .func sig => sig.uses
  | .struct fields => FieldDecl.allUses fields
  | .interface elems => InterfaceElem.allUses elems
  | .group inner => inner.uses
  | .tilde inner => inner.uses

/-- The names that the terms of a union use. -/
def TypeExpr.allUses : List TypeExpr → List TypeUse
  | [] => []
  | term :: terms => term.uses ++ TypeExpr.allUses terms

/-- The names that type arguments use. -/
def TypeArg.allUses : List TypeArg → List TypeUse
  | [] => []
  | ⟨_, terms⟩ :: args => TypeExpr.allUses terms ++ TypeArg.allUses args

/-- The names that parameters and results use. -/
def SignatureExpr.uses : SignatureExpr → List TypeUse
  | ⟨paramDecls, results⟩ => ParamDecl.allUses paramDecls ++ results.uses

/-- The names that results use. -/
def ResultExpr.uses : ResultExpr → List TypeUse
  | .list results => ParamDecl.allUses results
  | .single type => type.uses

/-- The names that the declarations of a parameter list use. -/
def ParamDecl.allUses : List ParamDecl → List TypeUse
  | [] => []
  | ⟨_, type, _⟩ :: decls => type.uses ++ ParamDecl.allUses decls

/-- The names that the declarations of fields use. -/
def FieldDecl.allUses : List FieldDecl → List TypeUse
  | [] => []
  | .named _ type _ :: decls => type.uses ++ FieldDecl.allUses decls
  | .embedded _ name args _ :: decls =>
    TypeArg.allUses args ++ name.uses params args.length ++ FieldDecl.allUses decls

/-- The names that the elements of an interface use. -/
def InterfaceElem.allUses : List InterfaceElem → List TypeUse
  | [] => []
  | .method _ sig :: elems => sig.uses ++ InterfaceElem.allUses elems
  | .union terms :: elems => TypeExpr.allUses terms ++ InterfaceElem.allUses elems

end

/-- The names that declarations of type parameters use. -/
def TypeParamDecl.allUses : List TypeParamDecl → List TypeUse
  | [] => []
  | ⟨_, constraint⟩ :: decls => TypeExpr.allUses params constraint ++ allUses decls

end

/-! ## Names that are not hidden -/

section

variable {params : List String}

theorem TypeName.uses_eq_filter (count : Nat) (name : TypeName) :
    name.uses params count = (name.uses [] count).filter fun u => !params.contains u.1 := by
  cases name with
  | plain name => by_cases h : name.text ∈ params <;> simp [uses, h]
  | qualified package name => rfl

mutual

/-- Type parameters hide the uses of their names, and no others. -/
theorem TypeExpr.uses_eq_filter : ∀ e : TypeExpr,
    e.uses params = (e.uses []).filter fun u => !params.contains u.1
  | .named name args => by
    simp only [TypeExpr.uses, List.filter_append, TypeArg.allUses_eq_filter args,
      @TypeName.uses_eq_filter params args.length name]
  | .pointer elem | .slice elem | .array _ elem | .chan _ elem | .group elem | .tilde elem => by
    simp only [TypeExpr.uses, TypeExpr.uses_eq_filter elem]
  | .map key value => by
    simp only [TypeExpr.uses, List.filter_append, TypeExpr.uses_eq_filter key,
      TypeExpr.uses_eq_filter value]
  | .func sig => by simp only [TypeExpr.uses, SignatureExpr.uses_eq_filter sig]
  | .struct fields => by simp only [TypeExpr.uses, FieldDecl.allUses_eq_filter fields]
  | .interface elems => by simp only [TypeExpr.uses, InterfaceElem.allUses_eq_filter elems]
termination_by structural e => e

theorem TypeExpr.allUses_eq_filter : ∀ terms : List TypeExpr,
    TypeExpr.allUses params terms =
      (TypeExpr.allUses [] terms).filter fun u => !params.contains u.1
  | [] => rfl
  | term :: terms => by
    simp only [TypeExpr.allUses, List.filter_append, TypeExpr.uses_eq_filter term,
      TypeExpr.allUses_eq_filter terms]
termination_by structural terms => terms

theorem TypeArg.allUses_eq_filter : ∀ args : List TypeArg,
    TypeArg.allUses params args = (TypeArg.allUses [] args).filter fun u => !params.contains u.1
  | [] => rfl
  | ⟨_, terms⟩ :: args => by
    simp only [TypeArg.allUses, List.filter_append, TypeExpr.allUses_eq_filter terms,
      TypeArg.allUses_eq_filter args]
termination_by structural args => args

theorem SignatureExpr.uses_eq_filter : ∀ sig : SignatureExpr,
    sig.uses params = (sig.uses []).filter fun u => !params.contains u.1
  | ⟨decls, results⟩ => by
    simp only [SignatureExpr.uses, List.filter_append, ParamDecl.allUses_eq_filter decls,
      ResultExpr.uses_eq_filter results]
termination_by structural sig => sig

theorem ResultExpr.uses_eq_filter : ∀ results : ResultExpr,
    results.uses params = (results.uses []).filter fun u => !params.contains u.1
  | .list decls => by simp only [ResultExpr.uses, ParamDecl.allUses_eq_filter decls]
  | .single type => by simp only [ResultExpr.uses, TypeExpr.uses_eq_filter type]
termination_by structural results => results

theorem ParamDecl.allUses_eq_filter : ∀ decls : List ParamDecl,
    ParamDecl.allUses params decls =
      (ParamDecl.allUses [] decls).filter fun u => !params.contains u.1
  | [] => rfl
  | ⟨_, type, _⟩ :: decls => by
    simp only [ParamDecl.allUses, List.filter_append, TypeExpr.uses_eq_filter type,
      ParamDecl.allUses_eq_filter decls]
termination_by structural decls => decls

theorem FieldDecl.allUses_eq_filter : ∀ decls : List FieldDecl,
    FieldDecl.allUses params decls =
      (FieldDecl.allUses [] decls).filter fun u => !params.contains u.1
  | [] => rfl
  | .named _ type _ :: decls => by
    simp only [FieldDecl.allUses, List.filter_append, TypeExpr.uses_eq_filter type,
      FieldDecl.allUses_eq_filter decls]
  | .embedded _ name args _ :: decls => by
    simp only [FieldDecl.allUses, List.filter_append, TypeArg.allUses_eq_filter args,
      @TypeName.uses_eq_filter params args.length name, FieldDecl.allUses_eq_filter decls]
termination_by structural decls => decls

theorem InterfaceElem.allUses_eq_filter : ∀ elems : List InterfaceElem,
    InterfaceElem.allUses params elems =
      (InterfaceElem.allUses [] elems).filter fun u => !params.contains u.1
  | [] => rfl
  | .method _ sig :: elems => by
    simp only [InterfaceElem.allUses, List.filter_append, SignatureExpr.uses_eq_filter sig,
      InterfaceElem.allUses_eq_filter elems]
  | .union terms :: elems => by
    simp only [InterfaceElem.allUses, List.filter_append, TypeExpr.allUses_eq_filter terms,
      InterfaceElem.allUses_eq_filter elems]
termination_by structural elems => elems

end

theorem TypeParamDecl.allUses_eq_filter (decls : List TypeParamDecl) :
    TypeParamDecl.allUses params decls =
      (TypeParamDecl.allUses [] decls).filter fun u => !params.contains u.1 := by
  induction decls with
  | nil => rfl
  | cons decl decls ih =>
    obtain ⟨_, constraint⟩ := decl
    rw [TypeParamDecl.allUses, TypeParamDecl.allUses, List.filter_append, ih,
      TypeExpr.allUses_eq_filter constraint]

end

/-! ## What occurs in a meaning -/

variable {env : Env} {t : Table} {m : Meanings} {params : List String} {A : Ty.Allowed}

theorem Env.known_kindType? (kind : Option String) : Ty.Known (kind.bind kindType?) := by
  intro type htype
  obtain ⟨name, -, htype⟩ := Option.bind_eq_some_iff.mp htype
  unfold kindType? at htype
  split at htype
  · exact Or.inr (Option.some.inj htype).symm
  · obtain ⟨k, -, rfl⟩ := Option.map_eq_some_iff.mp htype
    exact Or.inl ⟨k, rfl⟩

/-- Of an imported type at most a kind or `error` is known, which may always occur. -/
theorem Env.proper_importedType (env : Env) (path name : String) :
    (env.importedType path name).Proper A := by
  unfold importedType
  split
  · trivial
  · exact known_kindType? _

theorem Ty.Proper.withArguments {type : Ty} (h : type.Proper A) (t : Table) (args : List Ty) :
    (type.withArguments t args).Proper A := by
  cases type with
  | imported path name underlying =>
    by_cases hempty : args.isEmpty = true
    · rwa [Ty.withArguments, if_pos hempty]
    · rw [Ty.withArguments, if_neg hempty]
      exact h
  | _ => exact h

/-- Predeclared types are kinds, `error` and `comparable`. -/
theorem Universe.proper_type? (herror : A.named errorId 0) (hcomparable : A.named comparableId 0)
    {name : String} {type : Ty} (h : Universe.type? name = some type) : type.Proper A := by
  obtain ⟨meaning, -, rfl⟩ := Option.map_eq_some_iff.mp h
  cases meaning with
  | basic kind => trivial
  | any => exact ⟨trivial, trivial⟩
  | error => exact ⟨herror, trivial⟩
  | comparable => exact ⟨hcomparable, trivial⟩

theorem TypeArg.length_meanings? {args : List TypeArg} {types : List Ty}
    (h : TypeArg.meanings? env t m params args = some types) : types.length = args.length := by
  induction args generalizing types with
  | nil =>
    cases h
    rfl
  | cons arg args ih =>
    cases arg
    obtain ⟨_, _, -, hrest, rfl⟩ := Option.of_return₂_eq_some h
    rw [List.length_cons, List.length_cons, ih hrest]

theorem Var.allProper_ofNames {names : List String} {type : Ty} (h : type.Proper A) :
    Var.AllProper A (Var.ofNames names type) := by
  rw [Var.allProper_iff]
  intro v hv
  unfold Var.ofNames at hv
  split at hv
  · rw [List.mem_singleton] at hv
    exact hv ▸ h
  · obtain ⟨_, -, rfl⟩ := List.mem_map.mp hv
    exact h

theorem Var.AllProper.append {vs ws : List Var} (hv : Var.AllProper A vs)
    (hw : Var.AllProper A ws) : Var.AllProper A (vs ++ ws) := by
  rw [Var.allProper_iff] at *
  exact fun v hmem => (List.mem_append.mp hmem).elim (hv v) (hw v)

theorem Field.AllProper.append {fs gs : List Field} (hf : Field.AllProper A fs)
    (hg : Field.AllProper A gs) : Field.AllProper A (fs ++ gs) := by
  rw [Field.allProper_iff] at *
  exact fun f hmem => (List.mem_append.mp hmem).elim (hf f) (hg f)

theorem Field.allProper_ofNames {names : List String} {type : Ty} {tag : Option String}
    (h : type.Proper A) : Field.AllProper A (Field.ofNames names type tag) := by
  rw [Field.allProper_iff]
  intro f hf
  obtain ⟨_, -, rfl⟩ := List.mem_map.mp hf
  exact h

theorem Ty.proper_ofTerms {terms : List Term} (h : Term.AllProper A terms) :
    (Ty.ofTerms terms).Proper A := by
  unfold Ty.ofTerms
  split
  · exact h.1
  · exact ⟨trivial, h, trivial⟩

theorem Embedded.proper_ofTerms {terms : List Term} (h : Term.AllProper A terms) :
    (Embedded.ofTerms terms).Proper A := by
  unfold Embedded.ofTerms
  split
  · exact h.1
  · exact h

/-- Only what is allowed occurs in an element of an interface. -/
def ResolvedElem.Proper (A : Ty.Allowed) : ResolvedElem → Prop
  | .inl m => m.signature.Proper A
  | .inr e => e.Proper A

theorem Interface.proper_ofElems {found : List ResolvedElem} (h : ∀ e ∈ found, e.Proper A) :
    (Interface.ofElems (found.filterMap Sum.getLeft?)
      (found.filterMap Sum.getRight?)).Proper A := by
  refine ⟨Method.allProper_iff.mpr fun method hmethod => ?_,
    Embedded.allProper_iff.mpr fun element helement => ?_⟩
  · obtain ⟨e, he, hleft⟩ := List.mem_filterMap.mp (List.mem_mergeSort.mp hmethod)
    rw [Sum.getLeft?_eq_some_iff] at hleft
    subst hleft
    exact h _ he
  · obtain ⟨e, he, hright⟩ := List.mem_filterMap.mp helement
    rw [Sum.getRight?_eq_some_iff] at hright
    subst hright
    exact h _ he

/-- Changing the methods and the embedded elements one by one keeps the order of the methods, if it
keeps their names. -/
theorem Interface.ofElems_map (f : Method → Method) (g : Embedded → Embedded)
    (hname : ∀ m, (f m).name = m.name) (found : List ResolvedElem) :
    Interface.ofElems ((found.map (Sum.map f g)).filterMap Sum.getLeft?)
        ((found.map (Sum.map f g)).filterMap Sum.getRight?) =
      ⟨(Interface.ofElems (found.filterMap Sum.getLeft?) []).methods.map f,
        (found.filterMap Sum.getRight?).map g, false⟩ := by
  have hleft : (found.map (Sum.map f g)).filterMap Sum.getLeft? =
      (found.filterMap Sum.getLeft?).map f := by
    rw [List.filterMap_map, List.map_filterMap]
    congr 1
    funext e
    cases e <;> rfl
  have hright : (found.map (Sum.map f g)).filterMap Sum.getRight? =
      (found.filterMap Sum.getRight?).map g := by
    rw [List.filterMap_map, List.map_filterMap]
    congr 1
    funext e
    cases e <;> rfl
  rw [hleft, hright, Interface.ofElems, Interface.ofElems]
  congr 1
  exact (List.map_mergeSort fun m _ n _ => by rw [hname m, hname n]).symm

/-- A name of a declared type means what is known about it, if no type parameter bears the name. -/
theorem Ty.ofName?_of_isType {name : String} {id : Nat} {args : List Ty}
    (htype : env.scope.isType name = true)
    (h : Ty.ofName? env m params name = some (.named id args)) :
    params.contains name = false ∧ m name = some (.named id args) := by
  unfold Ty.ofName? at h
  unfold FileScope.isType at htype
  split at h
  · cases h
  · next hparam =>
    split at htype
    · next spec hlookup =>
      rw [hlookup] at h
      exact ⟨by simpa using hparam, h⟩
    · cases htype

/-- A name of a declared type that no type parameter bears means what is known about it. -/
theorem Ty.ofName?_eq_of_isType {name : String}
    (htype : env.scope.isType name = true) (hparam : params.contains name = false) :
    Ty.ofName? env m params name = m name := by
  unfold FileScope.isType at htype
  rw [Ty.ofName?, if_neg (by simpa using hparam)]
  split at htype
  · next spec hlookup => rw [hlookup]
  · cases htype

/-- Only the predeclared types `error` and `comparable` are declared without a declaration. -/
theorem Ty.le_comparableId_of_ofName? {m : Meanings} {name : String} {id : Nat} {args : List Ty}
    (htype : env.scope.isType name = false)
    (h : Ty.ofName? env m params name = some (.named id args)) : id ≤ comparableId := by
  unfold FileScope.isType at htype
  unfold Ty.ofName? at h
  split at h
  · cases h
  · split at h
    · next hlookup => simp [hlookup] at htype
    · cases h
    · split at h
      · next huniverse =>
        obtain ⟨meaning, -, hmeaning⟩ := Option.map_eq_some_iff.mp huniverse
        cases h
        cases meaning <;> cases hmeaning
        · exact Nat.zero_le _
        · exact Nat.le_refl _
      · split at h
        · cases h
        · obtain ⟨path, -, himported⟩ := Option.map_eq_some_iff.mp h
          unfold Env.importedType at himported
          split at himported <;> cases himported

section

variable (herror : A.named errorId 0) (hcomparable : A.named comparableId 0)
  (hparams : ∀ name ∈ params, A.param name)

/-- What is allowed to occur has to include what the names that are used mean: the declared types,
with the numbers of their arguments, and whatever occurs in other types. -/
def Meanings.Allows (m : Meanings) (A : Ty.Allowed) (uses : List TypeUse) : Prop :=
  ∀ u ∈ uses, ∀ type, m u.1 = some type →
    (∀ id, type = .named id [] → A.named id u.2) ∧ ((∃ id, type = .named id []) ∨ type.Proper A)

theorem Meanings.Allows.of_names {uses : List TypeUse}
    (hm : ∀ name type, m name = some type → (∃ id, type = .named id []) ∨ type.Proper A)
    (huses : ∀ u ∈ uses, ∀ id, m u.1 = some (.named id []) → A.named id u.2) : m.Allows A uses :=
  fun u hu type htype => ⟨fun id hid => huses u hu id (hid ▸ htype), hm u.1 type htype⟩

theorem Meanings.Allows.left {us vs : List TypeUse} (h : m.Allows A (us ++ vs)) : m.Allows A us :=
  fun u hu => h u (List.mem_append_left _ hu)

theorem Meanings.Allows.right {us vs : List TypeUse} (h : m.Allows A (us ++ vs)) : m.Allows A vs :=
  fun u hu => h u (List.mem_append_right _ hu)

include herror hcomparable hparams

/-- A name means a declared type, or else only what is allowed occurs in its meaning. -/
theorem Ty.proper_of_ofName? {name : String} {type : Ty}
    (hname : params.contains name = false → ∀ type, m name = some type →
      (∃ id, type = .named id []) ∨ type.Proper A)
    (h : Ty.ofName? env m params name = some type) :
    (∃ id, type = .named id [] ∧ params.contains name = false ∧ m name = some (.named id [])) ∨
      type.Proper A := by
  unfold Ty.ofName? at h
  split at h
  · next hparam =>
    cases h
    exact Or.inr (hparams name (by simpa using hparam))
  · next hparam =>
    have hparam : params.contains name = false := by simpa using hparam
    split at h
    · rcases hname hparam type h with ⟨id, rfl⟩ | htype
      · exact Or.inl ⟨id, rfl, hparam, h⟩
      · exact Or.inr htype
    · cases h
    · split at h
      · next huniverse =>
        cases h
        exact Or.inr (Universe.proper_type? herror hcomparable huniverse)
      · split at h
        · cases h
        · obtain ⟨path, -, rfl⟩ := Option.map_eq_some_iff.mp h
          exact Or.inr (env.proper_importedType path name)

/-- With arguments, the declared type has to be allowed with as many arguments. -/
theorem TypeName.proper_of_meaning? {name : TypeName} {args : List Ty} {type : Ty}
    (hargs : Ty.AllProper A args) (huses : m.Allows A (name.uses params args.length))
    (h : name.meaning? env t m params args = some type) : type.Proper A := by
  cases name with
  | qualified package name =>
    obtain ⟨entry, -, rfl⟩ := Option.map_eq_some_iff.mp h
    exact (env.proper_importedType entry.path name.text).withArguments t args
  | plain name =>
    have hallowed : params.contains name.text = false → ∀ type, m name.text = some type →
        (∀ id, type = .named id [] → A.named id args.length) ∧
          ((∃ id, type = .named id []) ∨ type.Proper A) :=
      fun hparam => huses (name.text, args.length) (by simpa [uses] using hparam)
    have hname := fun hparam type htype => (hallowed hparam type htype).2
    simp only [meaning?] at h
    split at h
    · next hempty =>
      rcases Ty.proper_of_ofName? herror hcomparable hparams hname h with
        ⟨id, rfl, hparam, hid⟩ | htype
      · rw [List.isEmpty_iff] at hempty
        subst hempty
        exact ⟨(hallowed hparam _ hid).1 id rfl, trivial⟩
      · exact htype
    · obtain ⟨head, hhead, h⟩ := Option.bind_eq_some_iff.mp h
      split at h
      · next id =>
        obtain ⟨htype, h⟩ := Option.ite_none_right_eq_some.mp h
        cases h
        obtain ⟨hparam, hid⟩ := Ty.ofName?_of_isType htype hhead
        exact ⟨(hallowed hparam _ hid).1 id rfl, hargs⟩
      · next hnot =>
        obtain ⟨-, h⟩ := Option.ite_none_right_eq_some.mp h
        cases h
        rcases Ty.proper_of_ofName? herror hcomparable hparams hname hhead with
          ⟨id, rfl, -, -⟩ | htype
        · exact absurd rfl (hnot id)
        · exact htype

-- each lemma of the block has the assumptions for the others, which the linter does not see
set_option linter.unusedSectionVars false in
mutual

/-- Only what is allowed occurs in what a type expression means. -/
theorem TypeExpr.proper_of_meaning? : ∀ (e : TypeExpr) {type : Ty},
    m.Allows A (e.uses params) → e.meaning? env t m params = some type → type.Proper A
  | .named name args, type, huses, h => by
    obtain ⟨types, htypes, h⟩ := Option.bind_eq_some_iff.mp h
    exact TypeName.proper_of_meaning? herror hcomparable hparams
      (TypeArg.allProper_of_meanings? args huses.left htypes)
      (TypeArg.length_meanings? htypes ▸ huses.right) h
  | .pointer elem, type, huses, h => by
    obtain ⟨_, helem, rfl⟩ := Option.of_return_eq_some h
    exact (TypeExpr.proper_of_meaning? elem huses helem :)
  | .slice elem, type, huses, h => by
    obtain ⟨_, helem, rfl⟩ := Option.of_return_eq_some h
    exact (TypeExpr.proper_of_meaning? elem huses helem :)
  | .array length elem, type, huses, h => by
    obtain ⟨_, helem, rfl⟩ := Option.of_return_eq_some h
    exact (TypeExpr.proper_of_meaning? elem huses helem :)
  | .map key value, type, huses, h => by
    obtain ⟨_, _, hkey, hvalue, rfl⟩ := Option.of_return₂_eq_some h
    exact ⟨TypeExpr.proper_of_meaning? key huses.left hkey,
      TypeExpr.proper_of_meaning? value huses.right hvalue⟩
  | .chan dir elem, type, huses, h => by
    obtain ⟨_, helem, rfl⟩ := Option.of_return_eq_some h
    exact (TypeExpr.proper_of_meaning? elem huses helem :)
  | .func sig, type, huses, h => by
    obtain ⟨_, hsig, rfl⟩ := Option.of_return_eq_some h
    exact SignatureExpr.proper_of_meaning? sig huses hsig
  | .struct fields, type, huses, h => by
    obtain ⟨_, hfields, rfl⟩ := Option.of_return_eq_some h
    exact FieldDecl.allProper_of_meanings? fields huses hfields
  | .interface elems, type, huses, h => by
    obtain ⟨_, helems, rfl⟩ := Option.of_return_eq_some h
    exact Interface.proper_ofElems (InterfaceElem.allProper_of_meanings? elems huses helems)
  | .group inner, type, huses, h => TypeExpr.proper_of_meaning? inner huses h
  | .tilde inner, type, huses, h => by
    obtain ⟨_, hinner, rfl⟩ := Option.of_return_eq_some h
    exact ⟨trivial, ⟨TypeExpr.proper_of_meaning? inner huses hinner, trivial⟩, trivial⟩
termination_by structural e => e

theorem TypeExpr.allProper_of_termMeanings? : ∀ (terms : List TypeExpr) {found : List Term},
    m.Allows A (TypeExpr.allUses params terms) →
      TypeExpr.termMeanings? env t m params terms = some found → Term.AllProper A found
  | [], _, _, h => by
    cases h
    trivial
  | term :: terms, found, huses, h => by
    have hterm : ∀ {type}, term.meaning? env t m params = some type → type.Proper A :=
      TypeExpr.proper_of_meaning? term huses.left
    have hterms : ∀ {found}, TypeExpr.termMeanings? env t m params terms = some found →
        Term.AllProper A found := TypeExpr.allProper_of_termMeanings? terms huses.right
    cases term
    case tilde inner =>
      obtain ⟨type, _, hinner, hrest, rfl⟩ := Option.of_return₂_eq_some h
      have hunion : (Ty.union [⟨true, type⟩]).Proper A :=
        hterm (by simp [TypeExpr.meaning?, hinner])
      exact ⟨hunion.2.1.1, hterms hrest⟩
    all_goals
      obtain ⟨_, _, hfirst, hrest, rfl⟩ := Option.of_return₂_eq_some h
      exact ⟨hterm hfirst, hterms hrest⟩
termination_by structural terms => terms

theorem TypeArg.allProper_of_meanings? : ∀ (args : List TypeArg) {types : List Ty},
    m.Allows A (TypeArg.allUses params args) →
      TypeArg.meanings? env t m params args = some types → Ty.AllProper A types
  | [], _, _, h => by
    cases h
    trivial
  | ⟨_, terms⟩ :: args, types, huses, h => by
    obtain ⟨_, _, hterms, hargs, rfl⟩ := Option.of_return₂_eq_some h
    exact ⟨Ty.proper_ofTerms (TypeExpr.allProper_of_termMeanings? terms huses.left hterms),
      TypeArg.allProper_of_meanings? args huses.right hargs⟩
termination_by structural args => args

theorem SignatureExpr.proper_of_meaning? : ∀ (sig : SignatureExpr) {signature : Signature},
    m.Allows A (sig.uses params) → sig.meaning? env t m params = some signature →
      signature.Proper A
  | ⟨decls, results⟩, signature, huses, h => by
    obtain ⟨_, _, hdecls, hresults, rfl⟩ := Option.of_return₂_eq_some h
    exact ⟨rfl, rfl, ParamDecl.allProper_of_meanings? decls huses.left hdecls,
      ResultExpr.allProper_of_meaning? results huses.right hresults⟩
termination_by structural sig => sig

theorem ResultExpr.allProper_of_meaning? : ∀ (results : ResultExpr) {vars : List Var},
    m.Allows A (results.uses params) → results.meaning? env t m params = some vars →
      Var.AllProper A vars
  | .list decls, vars, huses, h => ParamDecl.allProper_of_meanings? decls huses h
  | .single type, vars, huses, h => by
    obtain ⟨_, htype, rfl⟩ := Option.of_return_eq_some h
    exact ⟨TypeExpr.proper_of_meaning? type huses htype, trivial⟩
termination_by structural results => results

theorem ParamDecl.allProper_of_meanings? : ∀ (decls : List ParamDecl) {vars : List Var},
    m.Allows A (ParamDecl.allUses params decls) →
      ParamDecl.meanings? env t m params decls = some vars → Var.AllProper A vars
  | [], _, _, h => by
    cases h
    trivial
  | ⟨names, type, variadic⟩ :: decls, vars, huses, h => by
    obtain ⟨_, _, htype, hdecls, rfl⟩ := Option.of_return₂_eq_some h
    have hproper := TypeExpr.proper_of_meaning? type huses.left htype
    refine (Var.allProper_ofNames ?_).append
      (ParamDecl.allProper_of_meanings? decls huses.right hdecls)
    cases variadic <;> exact hproper
termination_by structural decls => decls

theorem FieldDecl.allProper_of_meanings? : ∀ (decls : List FieldDecl) {fields : List Field},
    m.Allows A (FieldDecl.allUses params decls) →
      FieldDecl.meanings? env t m params decls = some fields → Field.AllProper A fields
  | [], _, _, h => by
    cases h
    trivial
  | .named names type tag :: decls, fields, huses, h => by
    obtain ⟨_, _, htype, hdecls, rfl⟩ := Option.of_return₂_eq_some h
    exact (Field.allProper_ofNames (TypeExpr.proper_of_meaning? type huses.left htype)).append
      (FieldDecl.allProper_of_meanings? decls huses.right hdecls)
  | .embedded pointer name args tag :: decls, fields, huses, h => by
    obtain ⟨types, hargs, h⟩ := Option.bind_eq_some_iff.mp h
    obtain ⟨_, _, htype, hdecls, rfl⟩ := Option.of_return₂_eq_some h
    have hproper := TypeName.proper_of_meaning? herror hcomparable hparams
      (TypeArg.allProper_of_meanings? args huses.left.left hargs)
      (TypeArg.length_meanings? hargs ▸ huses.left.right) htype
    refine ⟨?_, FieldDecl.allProper_of_meanings? decls huses.right hdecls⟩
    cases pointer <;> exact hproper
termination_by structural decls => decls

theorem InterfaceElem.allProper_of_meanings? :
    ∀ (elems : List InterfaceElem) {found : List ResolvedElem},
      m.Allows A (InterfaceElem.allUses params elems) →
        InterfaceElem.meanings? env t m params elems = some found → ∀ e ∈ found, e.Proper A
  | [], _, _, h => by
    cases h
    simp
  | .method name sig :: elems, found, huses, h => by
    obtain ⟨_, _, hsig, helems, rfl⟩ := Option.of_return₂_eq_some h
    exact List.forall_mem_cons.mpr ⟨SignatureExpr.proper_of_meaning? sig huses.left hsig,
      InterfaceElem.allProper_of_meanings? elems huses.right helems⟩
  | .union terms :: elems, found, huses, h => by
    obtain ⟨_, _, hterms, helems, rfl⟩ := Option.of_return₂_eq_some h
    exact List.forall_mem_cons.mpr
      ⟨Embedded.proper_ofTerms (TypeExpr.allProper_of_termMeanings? terms huses.left hterms),
        InterfaceElem.allProper_of_meanings? elems huses.right helems⟩
termination_by structural elems => elems

end

/-- Only what is allowed occurs in the constraints of type parameters. -/
theorem TypeParamDecl.proper_of_meanings? {decls : List TypeParamDecl} {found : List TypeParam}
    (huses : m.Allows A (TypeParamDecl.allUses params decls))
    (h : TypeParamDecl.meanings? env t m params decls = some found) :
    ∀ param ∈ found, param.constraint.Proper A := by
  induction decls generalizing found with
  | nil =>
    cases h
    simp
  | cons decl decls ih =>
    obtain ⟨_, _, hterms, hdecls, rfl⟩ := Option.of_return₂_eq_some h
    have hconstraint := Ty.proper_ofTerms (TypeExpr.allProper_of_termMeanings? herror hcomparable
      hparams decl.constraint huses.left hterms)
    refine List.forall_mem_append.mpr ⟨?_, ih huses.right hdecls⟩
    exact List.forall_mem_map.mpr fun _ _ => hconstraint

end

end GoSignatures

import GoSignatures.Proofs.Resolution.Completeness
import GoSignatures.Proofs.Resolution.Instances
import GoSignatures.Proofs.Ty.Composing
import GoSignatures.Ty.Equality

/-!
# Layers that are stripped

The underlying type of a declared or imported type is looked up once: what is stored for the
declared type is returned, with its type parameters replaced. That strips all layers as long as
nothing that is stored is a type parameter, since a parameter is replaced by an argument, which may
be a declared type again. A parameter is stored exactly for a generic type that is declared as one
of its own type parameters.

* `Ty.isStripped`, `Ty.Solid` — nothing can be stripped, before and after replacing parameters
* `ResolvedFile.Makes` — the types that are made of the types of a file
* `TypeSpec.namesParam` — a type is declared as one of its own type parameters
* `SourceFile.StripsLayers` — looking up an underlying type strips every layer
* `SourceFile.stripsLayers_iff` — that is so exactly if no type is declared as its own parameter
-/

namespace GoSignatures

/-! ## Types without layers -/

/-- Whether nothing can be stripped from a type: it is neither declared, nor imported with a known
underlying type. -/
def Ty.isStripped : Ty → Bool
  | .named .. | .imported _ _ (some _) => false
  | _ => true

/-- Nothing can be stripped from a type, whatever its type parameters stand for. -/
structure Ty.Solid (type : Ty) : Prop where
  stripped : type.isStripped = true
  noParam : ∀ name, type ≠ .param name

theorem Ty.solid_interface (iface : Interface) : (Ty.interface iface).Solid := by
  constructor
  · rfl
  · intro name h
    cases h

theorem Ty.Solid.subst {type : Ty} (h : type.Solid) (bind : Binding) : (type.subst bind).Solid := by
  obtain ⟨hstripped, hparam⟩ := h
  cases type with
  | param name => exact absurd rfl (hparam name)
  | named id args => cases hstripped
  | imported path name known => exact ⟨hstripped, hparam⟩
  | _ =>
    constructor
    · rfl
    · intro name h
      cases h

/-- A type without layers is its own underlying type. -/
theorem Table.underlying_of_isStripped (t : Table) {type : Ty} (h : type.isStripped = true) :
    t.underlying type = type := by
  cases type with
  | named id args => cases h
  | imported path name known =>
    cases known with
    | none => rfl
    | some type => cases h
  | _ => rfl

theorem Table.solid_instance? {t : Table} {id : Nat} {args : List Ty} {stored : Ty}
    (hstored : t.underlying? id = some stored) (h : stored.Solid) :
    (t.underlying (.named id args)).Solid := by
  rw [Table.underlying, Table.instance?, hstored, Option.map_some, Option.getD_some]
  split
  · exact h
  · exact h.subst _

/-! ## Meanings that are type parameters -/

/-- Whether an expression is, apart from parentheses, one of the type parameters. -/
def TypeExpr.namesParam (params : List String) : TypeExpr → Bool
  | .named (.plain name) _ => params.contains name.text
  | .group inner => inner.namesParam params
  | _ => false

/-- Whether a type is declared as one of its own type parameters. Another name for a type has
none. -/
def TypeSpec.namesParam (spec : TypeSpec) : Bool :=
  spec.type.namesParam spec.params

variable {env : Env} {t : Table} {m : Meanings} {params : List String} {p q : Progress}

theorem Env.importedType_ne_param (env : Env) (path name param : String) :
    env.importedType path name ≠ .param param := by
  unfold importedType
  split <;> exact nofun

theorem Ty.withArguments_ne_param {type : Ty} {param : String} (h : type ≠ .param param)
    (t : Table) (args : List Ty) : type.withArguments t args ≠ .param param := by
  cases type with
  | imported path name known =>
    intro hparam
    rw [Ty.withArguments] at hparam
    split at hparam <;> cases hparam
  | _ => exact h

theorem Universe.type?_ne_param {name param : String} :
    Universe.type? name ≠ some (.param param) := by
  intro h
  obtain ⟨meaning, -, htype⟩ := Option.map_eq_some_iff.mp h
  cases meaning <;> cases htype

/-- An unqualified name means a type parameter only where it is one. -/
theorem Ty.param_of_ofName? {name param : String} (hm : m name ≠ some (.param param))
    (h : Ty.ofName? env m params name = some (.param param)) :
    name = param ∧ params.contains name = true := by
  unfold Ty.ofName? at h
  split at h
  · next hparam =>
    cases h
    exact ⟨rfl, hparam⟩
  · split at h
    · exact absurd h hm
    · cases h
    · split at h
      · next huniverse =>
        rw [h] at huniverse
        exact absurd huniverse Universe.type?_ne_param
      · split at h
        · cases h
        · obtain ⟨path, -, himported⟩ := Option.map_eq_some_iff.mp h
          exact absurd himported (env.importedType_ne_param path name param)

/-- An expression that means a type parameter is one, if no name that it uses stands for one. -/
theorem TypeExpr.namesParam_of_meaning? {param : String} : ∀ e : TypeExpr,
    (∀ u ∈ e.uses params, m u.1 ≠ some (.param param)) →
      e.meaning? env t m params = some (.param param) → e.namesParam params = true
  | .named (.plain name) targs, hm, h => by
    by_cases hparam : params.contains name.text = true
    · exact hparam
    have hname : m name.text ≠ some (.param param) := by
      refine hm (name.text, targs.length) ?_
      rw [TypeExpr.uses, TypeName.uses, if_neg hparam]
      exact List.mem_append_right _ (List.mem_singleton.mpr rfl)
    have hbare : Ty.ofName? env m params name.text ≠ some (.param param) := by
      intro hmeans
      exact hparam (Ty.param_of_ofName? hname hmeans).2
    obtain ⟨types, -, h⟩ := Option.bind_eq_some_iff.mp h
    simp only [TypeName.meaning?] at h
    split at h
    · exact absurd h hbare
    · obtain ⟨head, hhead, h⟩ := Option.bind_eq_some_iff.mp h
      split at h
      · obtain ⟨-, h⟩ := Option.ite_none_right_eq_some.mp h
        cases h
      · obtain ⟨-, h⟩ := Option.ite_none_right_eq_some.mp h
        cases h
        exact absurd hhead hbare
  | .named (.qualified package name) targs, _, h => by
    obtain ⟨types, -, h⟩ := Option.bind_eq_some_iff.mp h
    obtain ⟨entry, -, himported⟩ := Option.map_eq_some_iff.mp h
    exact absurd himported
      (Ty.withArguments_ne_param (env.importedType_ne_param entry.path name.text param) t types)
  | .group inner, hm, h => TypeExpr.namesParam_of_meaning? inner hm h
  | .pointer _, _, h | .slice _, _, h | .array .., _, h | .map .., _, h | .chan .., _, h
  | .func _, _, h | .struct _, _, h | .interface _, _, h | .tilde _, _, h => by
    simp [TypeExpr.meaning?, Ty.union, Option.bind_eq_some_iff] at h
termination_by structural e => e

/-- An expression that is a type parameter means it. -/
theorem TypeExpr.param_of_namesParam {type : Ty} : ∀ e : TypeExpr,
    e.namesParam params = true → e.meaning? env t m params = some type →
      ∃ param ∈ params, type = .param param
  | .named (.plain name) targs, hparam, h => by
    have hmem : name.text ∈ params := by simpa [TypeExpr.namesParam] using hparam
    have hbare : Ty.ofName? env m params name.text = some (.param name.text) := if_pos hparam
    refine ⟨name.text, hmem, ?_⟩
    obtain ⟨types, -, h⟩ := Option.bind_eq_some_iff.mp h
    simp only [TypeName.meaning?] at h
    split at h
    · exact Option.some.inj (h.symm.trans hbare)
    · rw [Ty.ofGenericName?, hbare, Option.bind_some] at h
      obtain ⟨-, h⟩ := Option.ite_none_right_eq_some.mp h
      exact (Option.some.inj h).symm
  | .group inner, hparam, h => TypeExpr.param_of_namesParam inner hparam h
  | .named (.qualified ..) _, hparam, _ | .pointer _, hparam, _ | .slice _, hparam, _
  | .array .., hparam, _ | .map .., hparam, _ | .chan .., hparam, _ | .func _, hparam, _
  | .struct _, hparam, _ | .interface _, hparam, _ | .tilde _, hparam, _ => by
    cases hparam
termination_by structural e => e

namespace Env.Consistent

variable {opened unset : List EnteredType}

/-- No name that is declared stands for a type parameter. -/
theorem typeOf?_ne_param (h : env.Consistent opened unset p) (name param : String) :
    env.typeOf? p name ≠ some (.param param) := by
  intro hmeans
  refine h.induction (P := fun _ type => type ≠ .param param) ?_ ?_ hmeans rfl
  · intro e _ htype
    cases htype
  · rintro name spec _ - halias hreads huses rfl
    -- another name for a type has no type parameters that could be named
    have hnone : spec.params = [] := if_pos halias
    have hnames := TypeExpr.namesParam_of_meaning? spec.type
      (fun u hu hu' => huses u hu _ hu' rfl) hreads.meaning
    obtain ⟨param, hmem, -⟩ := TypeExpr.param_of_namesParam spec.type hnames hreads.meaning
    rw [hnone] at hmem
    cases hmem

end Env.Consistent

/-! ## What is stored -/

/-- The underlying type of a type that is not a type parameter has no layers, if that is so of what
is stored for the declared types that are looked up. -/
theorem Table.solid_underlying {type : Ty} (hparam : ∀ name, type ≠ .param name)
    (hknown : ∀ path name known, type = .imported path name known → Ty.Known known)
    (hlooked : ∀ id args, type = .named id args ∨ id = errorId →
      ∃ stored, t.underlying? id = some stored ∧ stored.Solid) :
    (t.underlying type).Solid := by
  cases type with
  | named id args =>
    obtain ⟨stored, hstored, hsolid⟩ := hlooked id args (Or.inl rfl)
    exact Table.solid_instance? hstored hsolid
  | imported path name known =>
    cases known with
    | none => exact ⟨rfl, nofun⟩
    | some type =>
      rcases hknown path name _ rfl type rfl with ⟨kind, rfl⟩ | rfl
      · exact ⟨rfl, nofun⟩
      · obtain ⟨stored, hstored, hsolid⟩ := hlooked errorId [] (Or.inr rfl)
        exact Table.solid_instance? hstored hsolid
  | param name => exact absurd rfl (hparam name)
  | _ => exact ⟨rfl, nofun⟩

namespace Env.Settled

/-- The predeclared types are interfaces. -/
theorem solid_predeclared (h : env.Settled p q) {id : Nat} (hle : id ≤ comparableId) :
    ∃ stored, q.table.underlying? id = some stored ∧ stored.Solid := by
  obtain ⟨iface, hiface⟩ := h.consistent.underlying?_predeclared hle
  exact ⟨.interface iface, h.settles.known id _ hiface, Ty.solid_interface iface⟩

/-- If no declared type is one of its own type parameters, nothing that is stored has layers. -/
theorem solid_underlying? (h : env.Settled p q)
    (hnone : ∀ e ∈ p.entered, ∀ spec, env.scope.lookup e.name.text = some (.type spec) →
      spec.namesParam = false) {id : Nat} {stored : Ty}
    (hid : q.table.underlying? id = some stored) : stored.Solid := by
  have hknown : ∀ {e : EnteredType} {type : Ty}, env.RightMeans p e type →
      ∀ path name known, type = .imported path name known → Ty.Known known := by
    rintro e type ⟨spec, hspec, hreads⟩ path name known rfl
    exact h.proper_right hspec (hreads q h.later)
  -- along the definitions of types as other types
  induction h.consistent.grounded_of_settles h.settles hid generalizing stored with
  | predeclared hle =>
    obtain ⟨stored', hid', hsolid⟩ := h.solid_predeclared hle
    cases hid'.symm.trans hid
    exact hsolid
  | @own e type he hright hown =>
    rcases h.consistent.underlying?_of_right h.settles he hright with
      hstored | ⟨target, args, htype, -⟩
    · cases hstored.symm.trans hid
      refine Table.solid_underlying ?_ (hknown hright) ?_
      · rintro name rfl
        obtain ⟨spec, hspec, hreads⟩ := hright
        have hnames : spec.namesParam = true :=
          TypeExpr.namesParam_of_meaning? spec.type
            (fun u _ => h.consistent.typeOf?_ne_param u.1 name) (hreads p (.refl p)).meaning
        rw [hnone e he spec hspec] at hnames
        cases hnames
      · rintro id args (htype | rfl)
        · exact absurd htype (hown id args)
        · exact h.solid_predeclared (Nat.zero_le _)
    · exact absurd htype (hown target args)
  | @lent e target args he hright _ ih =>
    rcases h.consistent.underlying?_of_right h.settles he hright with
      hstored | ⟨target', args', htype, -, hstored⟩
    · cases hstored.symm.trans hid
      obtain ⟨spec, hspec, hreads⟩ := hright
      obtain ⟨hsize, -⟩ := (h.proper_right hspec (hreads q h.later)).1
      obtain ⟨lender, hlender⟩ := h.consistent.underlying?_isSome h.settles hsize
      exact Table.solid_instance? hlender (ih hlender)
    · cases htype
      exact ih (hstored.symm.trans hid)

/-- For a type that is declared as one of its own type parameters that parameter is stored. -/
theorem underlying?_of_namesParam (h : env.Settled p q) {e : EnteredType} (he : e ∈ p.entered)
    {spec : TypeSpec} (hspec : env.scope.lookup e.name.text = some (.type spec))
    (hnames : spec.namesParam = true) :
    ∃ param ∈ spec.params, q.table.underlying? e.id = some (.param param) := by
  obtain ⟨type, hright, -⟩ := h.consistent.right e he (by simp)
  have hstored := h.consistent.underlying?_of_right h.settles he hright
  obtain ⟨spec', hspec', hreads⟩ := hright
  cases hspec.symm.trans hspec'
  obtain ⟨param, hmem, rfl⟩ :=
    TypeExpr.param_of_namesParam spec.type hnames (hreads p (.refl p)).meaning
  refine ⟨param, hmem, ?_⟩
  rcases hstored with hstored | ⟨target, args, htype, -⟩
  · exact hstored
  · cases htype

end Env.Settled

/-! ## The types of a file -/

/-- A type is made of the types of a file: the declared types in it have entries, under whatever
type arguments, and the imported types in it occur in the file. -/
structure ResolvedFile.Makes (file : ResolvedFile) (type : Ty) : Prop where
  places : ∀ id args, .named id args ∈ type.occurring → id < file.table.size
  imports : ∀ path name known, .imported path name known ∈ type.occurring →
    .imported path name known ∈ file.occurring

/-- Every type that occurs in a file that is accepted is made of its types. -/
theorem SourceFile.makes_of_mem_occurring {file : SourceFile} {config : Config}
    {result : ResolvedFile} (h : file.resolve config = .ok result) {type : Ty}
    (htype : type ∈ result.occurring) : result.Makes type := by
  constructor
  · intro id args hmem
    exact (proper_occurring h _ (result.closed_occurring type htype hmem)).1
  · intro path name known hmem
    exact result.closed_occurring type htype hmem

/-- An instance of a declared type under predeclared types is made of the types of a file. -/
theorem ResolvedFile.makes_instance {file : ResolvedFile} {id : Nat} (hid : id < file.table.size)
    (count : Nat) : file.Makes (.named id (List.replicate count .error)) := by
  have herrors : ∀ count, ∀ s ∈ Ty.allOccurring (List.replicate count .error), s = .error := by
    intro count
    induction count with
    | zero => exact List.forall_mem_nil _
    | succ count ih =>
      intro s hs
      rw [List.replicate_succ, Ty.allOccurring, List.mem_append] at hs
      rcases hs with hs | hs
      · exact List.mem_singleton.mp hs
      · exact ih s hs
  constructor
  · intro id' args hmem
    rcases List.mem_cons.mp hmem with hself | harg
    · cases hself
      exact hid
    · cases herrors count _ harg
      exact Nat.lt_of_le_of_lt (Nat.zero_le _) hid
  · intro path name known hmem
    rcases List.mem_cons.mp hmem with hself | harg
    · cases hself
    · cases herrors count _ harg

namespace SourceFile

/-- In a file that is accepted, the underlying type of every type made of its types has no layers
left, and is its own underlying type. -/
def StripsLayers (file : SourceFile) (config : Config) : Prop :=
  ∀ result, file.resolve config = .ok result → ∀ type, result.Makes type →
    (result.table.underlying type).isStripped = true ∧
      result.table.underlying (result.table.underlying type) = result.table.underlying type

variable {file : SourceFile} {config : Config}

/-- A type that is declared as one of its own type parameters has an instance whose underlying type
is a declared type. -/
theorem exists_layered (henter : file.enterTypes config = .ok (env, p)) (h : env.Settled p q)
    {spec : TypeSpec} (hspec : spec ∈ file.typeSpecs) (hname : spec.name.text ≠ "_")
    (hnames : spec.namesParam = true) :
    ∃ id < q.table.size, ∃ count,
      q.table.underlying (.named id (List.replicate count .error)) = .error := by
  have hentered := enterTypes_ok henter
  have hlookup : env.scope.lookup spec.name.text = some (.type spec) :=
    (FileScope.lookup_eq_type_iff hentered.scope).mpr ⟨mem_typeSpecs.mp hspec, rfl, hname⟩
  have halias : spec.isAlias = false := by
    by_contra halias
    rw [Bool.not_eq_false] at halias
    obtain ⟨type, hmeaning, -⟩ := exists_readsRight henter (.refl p) hspec hname
    obtain ⟨param, hmem, -⟩ := TypeExpr.param_of_namesParam spec.type hnames hmeaning
    rw [TypeSpec.params, if_pos halias] at hmem
    cases hmem
  obtain ⟨type, htype⟩ := (hentered.specs spec hspec).named hname
  obtain ⟨e, he, hename, -⟩ :=
    Env.entered_of_typeOf? ((FileScope.isAlias_eq hlookup).trans halias) htype
  rw [← hename] at hlookup
  obtain ⟨param, hmem, hstored⟩ := h.underlying?_of_namesParam he hlookup hnames
  obtain ⟨spec', hlookup', hreads⟩ := h.consistent.params e he (by simp)
  cases hlookup.symm.trans hlookup'
  have hparams : param ∈ (q.table.typeParams e.id).map TypeParam.name := by
    rw [h.settles.typeParams, Env.Consistent.length_meanings? (hreads p (.refl p)).meaning]
    rwa [TypeSpec.params, if_neg (by simp [halias])] at hmem
  let args := List.replicate (q.table.typeParams e.id).length Ty.error
  obtain ⟨arg, harg⟩ : ∃ arg, TypeParam.argument? (q.table.typeParams e.id) args param = some arg :=
    TypeParam.exists_argument? (List.length_replicate ..) hparams
  obtain rfl : arg = .error := List.eq_of_mem_replicate (TypeParam.mem_of_argument? harg)
  have hargs : ¬ args.isEmpty = true := by
    intro hempty
    rw [List.isEmpty_iff.mp hempty, TypeParam.argument?_nil_right] at harg
    cases harg
  refine ⟨e.id, h.settles.size ▸ (h.consistent.bounds he).2, args.length, ?_⟩
  rw [List.length_replicate]
  show ((q.table.instance? e.id args).getD .invalid) = .error
  rw [Table.instance?, hstored, Option.map_some, Option.getD_some, if_neg hargs, Ty.instantiate,
    Ty.subst, harg, Option.getD_some]

/-- Looking up underlying types strips every layer if and only if no type of the file is declared as
one of its own type parameters. -/
theorem stripsLayers_iff (file : SourceFile) (config : Config) :
    file.StripsLayers config ↔
      ∀ result, file.resolve config = .ok result → ∀ spec ∈ file.typeSpecs,
        spec.name.text ≠ "_" → spec.namesParam = false := by
  constructor
  · intro hstrips result hresolve spec hspec hname
    obtain ⟨env, q, -, -, hsettle, -, -, -, -, htable, -⟩ := resolve_ok hresolve
    obtain ⟨p, henter, hsettled⟩ := settled_of_settleTypes hsettle
    by_contra hnames
    rw [Bool.not_eq_false] at hnames
    obtain ⟨id, hid, count, hlayered⟩ := exists_layered henter hsettled hspec hname hnames
    rw [← htable] at hid hlayered
    obtain ⟨hstripped, -⟩ := hstrips result hresolve _ (ResolvedFile.makes_instance hid count)
    rw [hlayered] at hstripped
    cases hstripped
  · intro hnone result hresolve type hmakes
    obtain ⟨env, q, -, -, hsettle, -, -, -, -, htable, -⟩ := resolve_ok hresolve
    obtain ⟨p, henter, hsettled⟩ := settled_of_settleTypes hsettle
    have hsolid : ∀ {id stored}, q.table.underlying? id = some stored → stored.Solid := by
      refine hsettled.solid_underlying? fun e _ spec hlookup => ?_
      obtain ⟨hmem, hspec, hname⟩ :=
        (FileScope.lookup_eq_type_iff (enterTypes_ok henter).scope).mp hlookup
      exact hnone result hresolve spec (mem_typeSpecs.mpr hmem) (hspec ▸ hname)
    have hstripped : (result.table.underlying type).isStripped = true := by
      by_cases hparam : ∃ name, type = .param name
      · obtain ⟨name, rfl⟩ := hparam
        rfl
      refine (Table.solid_underlying (not_exists.mp hparam) ?_ ?_).stripped
      · rintro path name known rfl
        exact proper_occurring hresolve _ (hmakes.imports path name known (Ty.mem_occurring_self _))
      · intro id args hid
        have hsize : id < q.table.size := by
          rcases hid with rfl | rfl
          · exact htable ▸ hmakes.places id args (Ty.mem_occurring_self _)
          · exact hsettled.error_lt_size
        obtain ⟨stored, hstored⟩ := hsettled.consistent.underlying?_isSome hsettled.settles hsize
        exact ⟨stored, htable ▸ hstored, hsolid hstored⟩
    exact ⟨hstripped, result.table.underlying_of_isStripped hstripped⟩

/-! ## A type that is declared as its own parameter -/

/-- The file `type G[T any] T; type E struct { x int }; type D G[E]`. -/
def ofOwnParam : SourceFile where
  path := "a.go"
  packageName := "p"
  declarations :=
    [.type ⟨⟨"G", ⟨16, 3, 6⟩⟩, false, [⟨["T"], [.named (.plain ⟨"any", ⟨20, 3, 10⟩⟩) []]⟩],
        .named (.plain ⟨"T", ⟨25, 3, 15⟩⟩) []⟩,
      .type ⟨⟨"E", ⟨32, 4, 6⟩⟩, false, [],
        .struct [.named ["x"] (.named (.plain ⟨"int", ⟨45, 4, 19⟩⟩) []) none]⟩,
      .type ⟨⟨"D", ⟨56, 5, 6⟩⟩, false, [],
        .named (.plain ⟨"G", ⟨58, 5, 8⟩⟩) [⟨"E", [.named (.plain ⟨"E", ⟨60, 5, 10⟩⟩) []]⟩]⟩]

/-- The underlying type of `D`, defined as `G[E]`, is the declared type `E`. -/
theorem not_stripsLayers_ofOwnParam :
    ¬ ofOwnParam.StripsLayers {} ∧
      ∃ result, ofOwnParam.resolve {} = .ok result ∧ result.table.size = 5 ∧
        result.table.underlying (.named 4 []) = .named 3 [] := by
  have hresolves : (ofOwnParam.resolve {}).toOption.map (fun result =>
      (result.table.size, result.table.underlying (.named 4 []))) = some (5, .named 3 []) := by
    decide +kernel
  obtain ⟨result, hresolve, hresult⟩ := Option.map_eq_some_iff.mp hresolves
  obtain ⟨hsize, hunderlying⟩ := Prod.mk.injEq .. ▸ hresult
  rw [Except.toOption_eq_some_iff] at hresolve
  refine ⟨fun h => ?_, result, hresolve, hsize, hunderlying⟩
  have hmakes : result.Makes (.named 4 []) :=
    ResolvedFile.makes_instance (by rw [hsize]; decide) 0
  obtain ⟨hstripped, -⟩ := h result hresolve _ hmakes
  rw [hunderlying] at hstripped
  cases hstripped

end SourceFile

end GoSignatures

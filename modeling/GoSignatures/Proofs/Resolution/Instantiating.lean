import GoSignatures.Proofs.Resolution.Finding
import GoSignatures.Proofs.Resolution.Lending
import GoSignatures.Proofs.Resolution.Referring
import GoSignatures.Proofs.Resolution.WritingOut

/-!
# Instances and what is written out

An instance of a generic type has the underlying type of the right-hand side of its declaration,
with the type parameters replaced. The same right-hand side can be written with the type arguments
in the places of the type parameters, and then be resolved. Both ways lead to the same underlying
type where the type parameters can be seen in the right-hand side. They do not where a type
parameter is an argument of an imported generic type: there it has become part of a name, and is
not replaced.

* `Env.WritesOut` — the instances of a type have the underlying types of what is written out
* `Env.Transparent` — the type parameters can be seen in the right-hand side of a declaration
* `SourceFile.writesOut_of_transparent` — such a declaration can be written out
-/

namespace GoSignatures

/-- The right-hand side of a declaration with type arguments written out for its parameters. -/
def TypeSpec.writtenOut? (spec : TypeSpec) (args : List TypeArg) : Option TypeExpr :=
  spec.type.writeOut? (TypeArg.argument? spec.params args)

/-- Whether a declaration is that of a generic type. -/
def TypeSpec.isGeneric (spec : TypeSpec) : Bool :=
  !spec.isAlias && !spec.typeParams.isEmpty

/-- Where all types are known, an instance of a declared type whose right-hand side can be written
out under the type arguments has the underlying type of what is written out. -/
def Env.WritesOut (env : Env) (p : Progress) (spec : TypeSpec) : Prop :=
  ∀ args inst q, (TypeExpr.named (.plain spec.name) args).resolve env env.enter [] p
      = .ok (inst, q) →
    ∀ e, spec.writtenOut? args = some e →
      ∃ type r, e.resolve env env.enter [] p = .ok (type, r) ∧
        p.table.underlying type = p.table.underlying inst

/-- The type parameters of a declaration can be seen in its right-hand side. If this is an instance
of another type, it has lent its underlying type, in which there are no type parameters but those
of the other type. -/
structure Env.Transparent (env : Env) (p : Progress) (spec : TypeSpec) : Prop where
  exposes : spec.type.Exposes env p.table (env.typeOf? p) spec.params
  fits : ∀ u ∈ spec.rightUses, env.Fits [] p u
  notParam : ∀ name,
    spec.type.meaning? env p.table (env.typeOf? p) spec.params ≠ some (.param name)
  lent : ∀ target args,
    spec.type.meaning? env p.table (env.typeOf? p) spec.params = some (.named target args) →
      ∀ id, env.typeOf? p spec.name.text = some (.named id []) →
        p.table.underlying? id = p.table.instance? target args
  lender : ∀ target args,
    spec.type.meaning? env p.table (env.typeOf? p) spec.params = some (.named target args) →
      ∀ known, p.table.underlying? target = some known →
        known.Proper (.paramsIn ((p.table.typeParams target).map TypeParam.name))

variable {env : Env} {p q : Progress} {t : Table} {m : Meanings} {params : List String}

/-! ## Type arguments as type expressions -/

theorem TypeExpr.meaning?_union {terms : List TypeExpr} {found : List Term}
    (h : TypeExpr.termMeanings? env t m params terms = some found) :
    (TypeExpr.interface [.union terms]).meaning? env t m params =
      some (.interface ⟨[], [.ofTerms found], false⟩) := by
  have hfound : InterfaceElem.meanings? env t m params [.union terms] =
      some [.inr (.ofTerms found)] := Option.return₂_eq_some h rfl
  rw [TypeExpr.meaning?, hfound]
  exact congrArg (fun methods => some (Ty.interface ⟨methods, [.ofTerms found], false⟩))
    List.mergeSort_nil

theorem TypeExpr.length_termMeanings? {terms : List TypeExpr} {found : List Term}
    (h : TypeExpr.termMeanings? env t m params terms = some found) :
    found.length = terms.length := by
  induction terms generalizing found with
  | nil =>
    cases h
    rfl
  | cons term terms ih =>
    cases term
    all_goals
      obtain ⟨_, _, -, hrest, rfl⟩ := Option.of_return₂_eq_some h
      rw [List.length_cons, List.length_cons, ih hrest]

namespace TypeArg

/-- A type argument is a term without a tilde, or a union that stands in an interface. -/
theorem toExpr_cases (arg : TypeArg) :
    (∃ term, arg.terms = [term] ∧ arg.toExpr = term ∧ ∀ inner, term ≠ .tilde inner) ∨
      arg.toExpr = .interface [.union arg.terms] ∧
        ∀ term, arg.terms = [term] → ∃ inner, term = .tilde inner := by
  obtain ⟨text, terms⟩ := arg
  rcases terms with _ | ⟨term, _ | ⟨other, rest⟩⟩
  · exact Or.inr ⟨rfl, by simp⟩
  · cases term
    case tilde inner => exact Or.inr ⟨rfl, fun term h => ⟨inner, (List.cons.inj h).1.symm⟩⟩
    all_goals exact Or.inl ⟨_, rfl, rfl, by simp⟩
  · exact Or.inr ⟨by cases term <;> rfl, by simp⟩

theorem toExpr_ne_tilde (arg : TypeArg) (inner : TypeExpr) : arg.toExpr ≠ .tilde inner := by
  rcases arg.toExpr_cases with ⟨term, -, hexpr, hterm⟩ | ⟨hexpr, -⟩
  · exact hexpr ▸ hterm inner
  · rw [hexpr]
    nofun

theorem uses_toExpr (arg : TypeArg) :
    arg.toExpr.uses params = TypeExpr.allUses params arg.terms := by
  rcases arg.toExpr_cases with ⟨term, hterms, hexpr, -⟩ | ⟨hexpr, -⟩
  · rw [hterms, hexpr, TypeExpr.allUses, TypeExpr.allUses, List.append_nil]
  · rw [hexpr, TypeExpr.uses, InterfaceElem.allUses, InterfaceElem.allUses, List.append_nil]

/-- A type argument means the same as a type expression. -/
theorem meaning?_toExpr {arg : TypeArg} {found : List Term}
    (h : TypeExpr.termMeanings? env t m params arg.terms = some found) :
    arg.toExpr.meaning? env t m params = some (.ofTerms found) := by
  rcases arg.toExpr_cases with ⟨term, hterms, hexpr, hterm⟩ | ⟨hexpr, htilde⟩
  · rw [hterms, TypeExpr.termMeanings?_cons hterm] at h
    obtain ⟨type, _, htype, hrest, rfl⟩ := Option.of_return₂_eq_some h
    cases hrest
    rw [hexpr, htype]
    rfl
  · rw [hexpr, TypeExpr.meaning?_union h]
    unfold Ty.ofTerms Embedded.ofTerms
    split
    · obtain ⟨term, hterms⟩ : ∃ term, arg.terms = [term] :=
        List.length_eq_one_iff.mp (TypeExpr.length_termMeanings? h).symm
      obtain ⟨inner, rfl⟩ := htilde term hterms
      rw [hterms] at h
      obtain ⟨_, _, -, -, heq⟩ := Option.of_return₂_eq_some h
      simp at heq
    · rfl

theorem uses_of_argument? {name : String} {expr : TypeExpr} :
    ∀ {names : List String} {args : List TypeArg}, argument? names args name = some expr →
      ∀ u ∈ expr.uses params, u ∈ TypeArg.allUses params args
  | first :: names, ⟨text, terms⟩ :: args, h, u, hu => by
    rw [argument?] at h
    split at h
    · cases h
      rw [uses_toExpr] at hu
      exact List.mem_append_left _ hu
    · exact List.mem_append_right _ (uses_of_argument? h u hu)

end TypeArg

/-- Type arguments, written out for type parameters, mean what stands at the places of these. -/
theorem Writing.means_argument? : ∀ {ps : List TypeParam} {args : List TypeArg} {types : List Ty},
    TypeArg.meanings? env t m [] args = some types → types.length = ps.length →
      Writing.Means env t m (ps.map TypeParam.name)
        (TypeArg.argument? (ps.map TypeParam.name) args) (TypeParam.argument? ps types)
  | [], args, types, _, _ => ⟨fun _ _ => rfl, fun _ h => by cases h⟩
  | p :: ps, [], types, hmeans, hlength => by
    cases hmeans
    cases hlength
  | p :: ps, ⟨text, terms⟩ :: args, types, hmeans, hlength => by
    obtain ⟨found, rest, hfound, hrest, rfl⟩ := Option.of_return₂_eq_some hmeans
    have ih := means_argument? hrest (Nat.succ.inj hlength)
    refine ⟨fun name hname => ?_, fun name hname => ?_⟩
    · rw [List.map_cons, List.contains_cons, Bool.or_eq_false_iff] at hname
      rw [List.map_cons, TypeArg.argument?, if_neg fun h => by simp [h] at hname]
      exact ih.other name hname.2
    · rw [List.map_cons, TypeArg.argument?, TypeParam.argument?]
      by_cases hfirst : p.name = name
      · rw [if_pos hfirst, if_pos hfirst]
        exact ⟨_, _, rfl, TypeArg.toExpr_ne_tilde _, TypeArg.meaning?_toExpr hfound, rfl⟩
      · rw [if_neg hfirst, if_neg hfirst]
        refine ih.param name ?_
        rw [List.map_cons, List.contains_cons, Bool.or_eq_true, beq_iff_eq] at hname
        exact hname.resolve_left (Ne.symm hfirst)

/-! ## Instances -/

namespace Env.TypesKnown

/-- An instance of a declared type is that type with what the type arguments mean. -/
theorem eq_of_meaning? (h : env.TypesKnown p) {name : Piece} {id : Nat} {types : List Ty}
    {inst : Ty} (hknown : env.typeOf? p name.text = some (.named id []))
    (hmeans : (TypeName.plain name).meaning? env t (env.typeOf? p) [] types = some inst) :
    inst = .named id types := by
  have htype := h.isType name.text _ hknown
  have hhead : Ty.ofName? env (env.typeOf? p) [] name.text = some (.named id []) :=
    (Ty.ofName?_eq_of_isType htype rfl).trans hknown
  rw [TypeName.meaning?, Ty.ofGenericName?, hhead] at hmeans
  split at hmeans
  · next hempty =>
    rw [List.isEmpty_iff.mp hempty]
    exact (Option.some.inj hmeans).symm
  · rw [Option.bind_some] at hmeans
    exact (Option.some.inj hmeans).symm

/-- A type expression that means a declared type has as many type arguments for it as it has
parameters. -/
theorem length_args (h : env.TypesKnown p) {e : TypeExpr} {id : Nat} {args : List Ty}
    (hreads : env.Reads [] (fun t m => e.meaning? env t m params) (e.uses params)
      (.named id args) p) : args.length = (p.table.typeParams id).length := by
  obtain ⟨⟨hsize, hcount⟩, -⟩ := h.keeps.counts_meaning h.sameTypes (fun _ _ => trivial) hreads
  rw [h.arity id hsize]
  rcases hcount with hcount | ⟨hzero, -⟩
  · exact hcount
  -- an alias would bring its own type arguments, and any other name is used with the right number
  by_cases hpredeclared : id ≤ comparableId
  · rw [hzero, Env.arity, if_pos hpredeclared]
  · obtain ⟨name, count, -, htype, huse, hmeans⟩ :=
      TypeExpr.head_of_meaning? (Nat.lt_of_not_le hpredeclared) e hreads.meaning
    rcases hmeans with ⟨hmeans, rfl⟩ | ⟨-, hne⟩
    · obtain ⟨type, htypeOf, hfits⟩ := hreads.fits (name, args.length) huse htype
      cases htypeOf.symm.trans hmeans
      exact (hfits id rfl).2 List.not_mem_nil
    · exact absurd (List.length_eq_zero_iff.mp hzero) hne

end Env.TypesKnown

namespace Env.Settled

variable {spec : TypeSpec}

/-- No type parameters occur in the underlying type of what is known of an imported type. -/
theorem closed_underlying_known (h : env.Settled p q) {known : Ty}
    (hknown : Ty.Known (some known)) :
    (q.table.underlying known).Proper (.paramsIn []) := by
  rcases hknown known rfl with ⟨kind, rfl⟩ | rfl
  · trivial
  · have herror : p.table.underlying? errorId = some (.interface ⟨[.error], [], false⟩) := by
      have hentry : p.table.get? errorId = Table.initial.get? errorId :=
        h.consistent.get?_predeclared (Nat.zero_le comparableId)
      rw [Table.underlying?, hentry]
      rfl
    have hstored := h.settles.known _ _ herror
    rw [Ty.error, Table.underlying, Table.instance?, hstored]
    exact ⟨⟨⟨rfl, rfl, trivial, trivial, trivial⟩, trivial⟩, trivial⟩

/-- A type whose declaration is transparent has the underlying type of its right-hand side. -/
theorem underlying?_of_transparent (h : env.Settled p q) (ht : env.Transparent q spec)
    {e : EnteredType} (he : e ∈ p.entered) {right : Ty}
    (hknown : env.typeOf? q spec.name.text = some (.named e.id []))
    (hright : env.RightMeans p e right)
    (hmeans : spec.type.meaning? env q.table (env.typeOf? q) spec.params = some right) :
    q.table.underlying? e.id = some (q.table.underlying right) := by
  rcases h.consistent.underlying?_of_right h.settles he hright with
    hstored | ⟨target, args, rfl, -, -⟩
  · exact hstored
  · obtain ⟨hsize, -⟩ : (Ty.named target args).Proper q.table.places :=
      h.known.keeps.proper_meaning h.known.sameTypes hmeans
    obtain ⟨known, hlender⟩ := h.consistent.underlying?_isSome h.settles hsize
    rw [ht.lent target args hmeans e.id hknown]
    simp [Table.underlying, Table.instance?, hlender]

/-- An instance has the underlying type of the right-hand side under the type arguments. -/
theorem underlying_instance (h : env.Settled p q) (ht : env.Transparent q spec) {id : Nat}
    {right : Ty} {types : List Ty}
    (hright : env.Reads [] (fun t m => spec.type.meaning? env t m spec.params) spec.rightUses
      right q)
    (hstored : q.table.underlying? id = some (q.table.underlying right)) :
    q.table.underlying (right.subst (TypeParam.argument? (q.table.typeParams id) types)) =
      q.table.underlying (.named id types) := by
  have hproper := h.known.keeps.counts_meaning h.known.sameTypes (fun _ _ => trivial) hright
  show _ = (q.table.instance? id types).getD .invalid
  rw [Table.instance?, hstored]
  cases types with
  | nil =>
    have hself : right.subst (TypeParam.argument? (q.table.typeParams id) []) = right :=
      Ty.subst_eq_self (fun name _ => by rw [TypeParam.argument?_nil_right]; rfl) hproper
    rw [hself]
    rfl
  | cons type types =>
    refine Table.underlying_subst _ (fun name hparam => ?_) (fun target args hnamed => ?_)
      fun path name known himported => ?_
    · subst hparam
      exact ht.notParam name hright.meaning
    · subst hnamed
      obtain ⟨known, hlender⟩ := h.consistent.underlying?_isSome h.settles hproper.1.1
      refine ⟨h.known.length_args hright, fun known' hknown' => ?_⟩
      cases hlender.symm.trans hknown'
      exact (ht.lender target args hright.meaning known hlender).free
    · subst himported
      exact Ty.subst_closed (h.closed_underlying_known hproper) _

/-- A declaration that is transparent can be written out. -/
theorem writesOut (h : env.Settled p q)
    (hspec : env.scope.lookup spec.name.text = some (.type spec)) (halias : spec.isAlias = false)
    (ht : env.Transparent q spec) : env.WritesOut q spec := by
  intro args inst r hrun e hwrites
  -- the declared type, with its right-hand side and its type parameters
  obtain ⟨type, hknown⟩ := h.known.complete spec.name.text (FileScope.isType_iff.mpr ⟨spec, hspec⟩)
  obtain ⟨declared, hdeclared, hname, rfl⟩ := entered_of_typeOf?
    ((FileScope.isAlias_eq hspec).trans halias) (h.typeOf? _ ▸ hknown)
  obtain ⟨right, hright, -⟩ := h.consistent.right declared hdeclared (by simp)
  have hmeans : spec.type.meaning? env q.table (env.typeOf? q) spec.params = some right := by
    obtain ⟨spec', hspec', hreads⟩ := hright
    cases hspec.symm.trans (hname ▸ hspec')
    exact (hreads q h.later).meaning
  have hparams : (q.table.typeParams declared.id).map TypeParam.name = spec.params :=
    h.map_name_typeParams hdeclared (hname ▸ hspec)
  -- its instance, and what is written out
  obtain ⟨-, -, hinst⟩ := TypesKnown.of_yields (h.known.typeExpr_yields [] _) h.known.sameTypes hrun
  obtain ⟨types, htypes, hinstMeans⟩ := Option.bind_eq_some_iff.mp hinst.meaning
  obtain rfl := h.known.eq_of_meaning? hknown hinstMeans
  have hw : Writing.Means env q.table (env.typeOf? q) spec.params
      (TypeArg.argument? spec.params args)
      (TypeParam.argument? (q.table.typeParams declared.id) types) :=
    hparams ▸ Writing.means_argument? htypes (h.known.length_args hinst)
  have hclosed : ∀ name type, env.typeOf? q name = some type → type.Proper (.paramsIn []) :=
    fun name type htype => h.consistent.closed_of_typeOf? (h.typeOf? name ▸ htype)
  have hwritten := TypeExpr.meaning?_writeOut? hclosed hw spec.type ht.exposes hmeans hwrites
  have hargsFits := (List.forall_mem_append.mp hinst.fits).1
  have hfits := TypeExpr.uses_writeOut? hw
    (fun name expr hexpr u hu => hargsFits u (TypeArg.uses_of_argument? hexpr u hu))
    spec.type ht.fits hwrites
  obtain ⟨r', hrun', -⟩ := TypeExpr.resolve_finds h.known e hfits hwritten q (.refl q)
  exact ⟨_, r', hrun', h.underlying_instance ht ⟨hmeans, ht.fits⟩
    (h.underlying?_of_transparent ht hdeclared hknown hright hmeans)⟩

end Env.Settled

/-! ## Files -/

namespace SourceFile

variable {file : SourceFile} {config : Config}

/-- In a file that is accepted, the instances of every generic type have the underlying types of
what is written out. -/
def WritesOut (file : SourceFile) (config : Config) : Prop :=
  ∀ result, file.resolve config = .ok result → ∀ env p, file.settleTypes config = .ok (env, p) →
    ∀ spec ∈ file.typeSpecs, spec.name.text ≠ "_" → spec.isGeneric = true → env.WritesOut p spec

/-- The instances of a generic type have the underlying types of what is written out, if the type
parameters can be seen in the right-hand side of its declaration. -/
theorem writesOut_of_transparent (hsettle : file.settleTypes config = .ok (env, p))
    {spec : TypeSpec} (hspec : spec ∈ file.typeSpecs) (hname : spec.name.text ≠ "_")
    (hgeneric : spec.isGeneric = true) (ht : env.Transparent p spec) : env.WritesOut p spec := by
  obtain ⟨q, henter, hsettled⟩ := settled_of_settleTypes hsettle
  have hlookup : env.scope.lookup spec.name.text = some (.type spec) :=
    (FileScope.lookup_eq_type_iff (enterTypes_ok henter).scope).mpr
      ⟨mem_typeSpecs.mp hspec, rfl, hname⟩
  have halias : spec.isAlias = false := by
    rw [TypeSpec.isGeneric, Bool.and_eq_true, Bool.not_eq_true'] at hgeneric
    exact hgeneric.1
  exact hsettled.writesOut hlookup halias ht

/-- The declaration `type W[T any] struct { n N[T]; f func(...T) }`. -/
def genericFields : TypeSpec :=
  ⟨⟨"W", ⟨36, 4, 6⟩⟩, false, [⟨["T"], [.named (.plain ⟨"any", ⟨40, 4, 10⟩⟩) []]⟩],
    .struct [
      .named ["n"] (.named (.plain ⟨"N", ⟨56, 4, 26⟩⟩)
        [⟨"T", [.named (.plain ⟨"T", ⟨58, 4, 28⟩⟩) []]⟩]) none,
      .named ["f"] (.func ⟨[⟨[], .named (.plain ⟨"T", ⟨73, 4, 43⟩⟩) [], true⟩], .list []⟩) none]⟩

/-- The file `type N[K any] []K` with the declaration of `W`. -/
def ofGenericFields : SourceFile where
  path := "a.go"
  packageName := "p"
  declarations :=
    [.type ⟨⟨"N", ⟨16, 3, 6⟩⟩, false, [⟨["K"], [.named (.plain ⟨"any", ⟨20, 3, 10⟩⟩) []]⟩],
        .slice (.named (.plain ⟨"K", ⟨27, 3, 17⟩⟩) [])⟩,
      .type genericFields]

/-- The declaration of `W` is transparent, so every instance can be written out. -/
theorem writesOut_of_transparent_genericFields :
    ∃ env p, ofGenericFields.settleTypes {} = .ok (env, p) ∧ env.Transparent p genericFields ∧
      env.WritesOut p genericFields := by
  have hsettles : (ofGenericFields.settleTypes {}).toOption.map (fun settled =>
      (settled.1.typeOf? settled.2 "N", settled.1.arity settled.2.table 2)) =
        some (some (.named 2 []), 1) := by
    decide +kernel
  obtain ⟨⟨env, p⟩, hsettle, hfound⟩ := Option.map_eq_some_iff.mp hsettles
  obtain ⟨hknown, harity⟩ := Prod.mk.injEq .. ▸ hfound
  rw [Except.toOption_eq_some_iff] at hsettle
  have hstruct : ∀ type, genericFields.type.meaning? env p.table (env.typeOf? p)
      genericFields.params = some type → ∃ fields, type = .struct fields := by
    intro type hmeans
    obtain ⟨fields, -, rfl⟩ := Option.of_return_eq_some hmeans
    exact ⟨fields, rfl⟩
  have ht : env.Transparent p genericFields := by
    refine ⟨?_, ?_, fun name hmeans => ?_, fun target args hmeans => ?_,
      fun target args hmeans => ?_⟩
    · simp [genericFields, TypeExpr.Exposes, FieldDecl.AllExpose, TypeArg.AllExpose,
        TypeExpr.AllExpose, SignatureExpr.Exposes, ParamDecl.AllExpose, ResultExpr.Exposes,
        TypeName.Exposes]
    · have huses : genericFields.rightUses = [("N", 1)] := by decide
      rw [huses, List.forall_mem_singleton]
      intro _
      refine ⟨_, hknown, fun id hid => ?_⟩
      cases hid
      exact ⟨fun h => absurd h List.not_mem_nil, fun _ => harity.symm⟩
    all_goals
      obtain ⟨fields, htype⟩ := hstruct _ hmeans
      cases htype
  exact ⟨env, p, hsettle, ht, writesOut_of_transparent hsettle (List.mem_cons_of_mem _
    (List.mem_singleton_self _)) (by decide) (by decide) ht⟩

/-! ## An instance of an imported type -/

/-- The declaration `type W[T any] struct { s iter.Seq[T] }`. -/
def importedField : TypeSpec :=
  ⟨⟨"W", ⟨31, 5, 6⟩⟩, false, [⟨["T"], [.named (.plain ⟨"any", ⟨35, 5, 10⟩⟩) []]⟩],
    .struct [.named ["s"] (.named (.qualified ⟨"iter", ⟨51, 5, 26⟩⟩ ⟨"Seq", ⟨56, 5, 31⟩⟩)
      [⟨"T", [.named (.plain ⟨"T", ⟨60, 5, 35⟩⟩) []]⟩]) none]⟩

/-- The file `import "iter"` with the declaration of `W`. -/
def ofImportedField : SourceFile where
  path := "a.go"
  packageName := "p"
  declarations := [.imported ⟨⟨18, 3, 8⟩, none, "\"iter\""⟩, .type importedField]

/-- The type argument `int`. -/
def intArgument : TypeArg :=
  ⟨"int", [.named (.plain ⟨"int", ⟨74, 7, 10⟩⟩) []]⟩

/-- Arguments are shown in the name of `iter.Seq`. -/
theorem withArguments_seq (t : Table) (arg : Ty) :
    (Ty.imported "iter" "Seq" none).withArguments t [arg] =
      .imported "iter" ("Seq" ++ "[" ++ arg.render t ++ "]") none := rfl

/-- The instance `W[int]` has a field of the type `iter.Seq[T]`; what is written out has one of the
type `iter.Seq[int]`. -/
theorem not_writesOut_ofImportedField : ¬ ofImportedField.WritesOut {} := by
  have hresolves : (ofImportedField.resolve {}).toOption.isSome = true := by decide +kernel
  have hsettles : (ofImportedField.settleTypes {}).toOption.isSome = true := by decide +kernel
  -- the table while the right-hand side of `W` is resolved
  let t := (Table.initial.declare "W" "p").setTypeParams 2 [⟨"T", .interface ⟨[], [], false⟩⟩]
  have hfound : (ofImportedField.settleTypes {}).toOption.map (fun settled =>
      (((TypeExpr.named (.plain importedField.name) [intArgument]).resolve settled.1
          settled.1.enter [] settled.2).toOption.map fun found =>
            settled.2.table.underlying found.1,
        (importedField.writtenOut? [intArgument]).map fun e =>
          (e.resolve settled.1 settled.1.enter [] settled.2).toOption.map fun found =>
            settled.2.table.underlying found.1)) =
      (ofImportedField.settleTypes {}).toOption.map fun settled =>
        (some (.struct [⟨"s", (Ty.imported "iter" "Seq" none).withArguments t [.param "T"],
            false, none⟩]),
          some (some (.struct [⟨"s", (Ty.imported "iter" "Seq" none).withArguments settled.2.table
            [.basic .int], false, none⟩]))) := by
    with_unfolding_all rfl
  intro h
  obtain ⟨result, hresolve⟩ := Option.isSome_iff_exists.mp hresolves
  obtain ⟨⟨env, p⟩, hsettle⟩ := Option.isSome_iff_exists.mp hsettles
  rw [hsettle, Option.map_some, Option.map_some] at hfound
  obtain ⟨hinstance, hwritten⟩ := Prod.mk.inj (Option.some.inj hfound)
  obtain ⟨⟨inst, q⟩, hinst, hinstType⟩ := Option.map_eq_some_iff.mp hinstance
  obtain ⟨e, hwrites, hwritten⟩ := Option.map_eq_some_iff.mp hwritten
  obtain ⟨⟨type, r⟩, hrun, htype⟩ := Option.map_eq_some_iff.mp hwritten
  rw [Except.toOption_eq_some_iff] at hresolve hsettle hinst hrun
  obtain ⟨type', r', hrun', hsame⟩ := h result hresolve env p hsettle importedField
    (List.mem_singleton_self _) (by decide) (by decide) [intArgument] inst q hinst e hwrites
  cases hrun.symm.trans hrun'
  rw [htype, hinstType, withArguments_seq, withArguments_seq] at hsame
  simp [Ty.render, Ty.chars, Kind.name] at hsame

end SourceFile

end GoSignatures

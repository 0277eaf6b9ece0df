import GoSignatures.Proofs.Resolution.Resettling

/-!
# Type arguments that are retained

A type that waits for the type that it is defined as receives its underlying type as it is stored,
without the type arguments of the definition. If no type is defined as an instance of a generic type
whose declaration leads to it, then nothing is lost: no type parameter is free in what such a type
receives. And only its own type parameters are free in what any type lends.

* `Env.Consistent.named_of_leads` — a declaration that leads to a type means an instance of it
* `Env.Lends` — which type parameters are free in what a type lends
* `Env.Settled.lends` — they are in every type, along the definitions of types as other types
* `Env.Settled.lendsAll` — no type loses type arguments
* `SourceFile.scoped_of_resolve` — only its own type parameters are free in what a type lends
-/

namespace GoSignatures

variable {env : Env} {p q : Progress} {t : Table}

/-! ## Definitions of types as other types -/

/-- A declaration that leads to a type means an instance of that type. -/
theorem Env.Consistent.named_of_leads {opened unset : List EnteredType}
    (h : env.Consistent opened unset p) {name target : String}
    (hleads : env.scope.Leads name target) {spec : TypeSpec}
    (hspec : env.scope.lookup name = some (.type spec)) {type : Ty}
    (hmeans : spec.type.meaning? env p.table (env.typeOf? p) spec.params = some type) :
    ∃ e ∈ p.entered, e.name.text = target ∧ ∃ args, type = .named e.id args := by
  induction hleads generalizing spec type with
  | @here name target hhead htype hdefined =>
    rw [FileScope.headOf_eq hspec] at hhead
    obtain ⟨known, hknown, hnamed⟩ := TypeExpr.named_of_head? htype spec.type hhead hmeans
    obtain ⟨e, he, hname, rfl⟩ := entered_of_typeOf? hdefined hknown
    exact ⟨e, he, hname, hnamed _ _ rfl⟩
  | @through name other target hhead halias _ ih =>
    rw [FileScope.headOf_eq hspec] at hhead
    obtain ⟨known, hknown, hnamed⟩ :=
      TypeExpr.named_of_head? (FileScope.isType_of_isAlias halias) spec.type hhead hmeans
    obtain ⟨-, spec', hspec', -, hreads⟩ := h.aliasFound halias hknown
    obtain ⟨e, he, hname, args, rfl⟩ := ih hspec' (hreads p (.refl p)).meaning
    exact ⟨e, he, hname, hnamed _ _ rfl⟩

namespace Env.Settled

/-- If no constraint of a generic type leads back to it, a type that is defined as an instance of
another has a type argument for each of its type parameters. -/
theorem length_args_right (h : env.Settled p q) (hback : ∀ generic, ¬ env.scope.LeadsBack generic)
    {e : EnteredType} {target : Nat} {args : List Ty}
    (hright : env.RightMeans p e (.named target args)) :
    args.length = (q.table.typeParams target).length := by
  obtain ⟨spec, hspec, hreads⟩ := hright
  obtain ⟨⟨hsize, hcount⟩, -⟩ := h.proper_right hspec (hreads q h.later)
  rw [h.known.arity target hsize]
  rcases hcount with hcount | ⟨hzero, -⟩
  · exact hcount
  -- no arguments are too few only where a type is used whose type parameters are being resolved
  by_cases hpredeclared : target ≤ comparableId
  · rw [hzero, arity, if_pos hpredeclared]
  obtain ⟨hmeaning, hcounted⟩ := hreads p (.refl p)
  obtain ⟨name, count, -, -, huse, hmeans | ⟨-, hne⟩⟩ :=
    TypeExpr.head_of_meaning? (Nat.lt_of_not_le hpredeclared) spec.type hmeaning
  · obtain ⟨hmeans, rfl⟩ := hmeans
    rw [← h.known.arity target hsize, h.settles.typeParams]
    exact (h.consistent.length_typeParams_of_counted h.consistent h.complete hback
      (FileScope.mem_usesOf_right hspec huse) (hcounted _ huse) hmeans (by simp)).symm
  · exact absurd (List.length_eq_zero_iff.mp hzero) hne

/-- The type that another one is defined as an instance of has an underlying type. -/
theorem exists_lent (h : env.Settled p q) {e : EnteredType} {target : Nat} {args : List Ty}
    (hright : env.RightMeans p e (.named target args)) :
    ∃ known, q.table.underlying? target = some known := by
  obtain ⟨spec, hspec, hreads⟩ := hright
  obtain ⟨⟨hsize, -⟩, -⟩ := h.proper_right hspec (hreads q h.later)
  exact h.consistent.underlying?_isSome h.settles hsize

/-- The type parameters in what a declaration defines a type as are its own. -/
theorem proper_params_right (h : env.Settled p q) {e : EnteredType} (he : e ∈ p.entered)
    {type : Ty} (hright : env.RightMeans p e type) :
    type.Proper (.paramsIn ((q.table.typeParams e.id).map TypeParam.name)) := by
  obtain ⟨spec, hspec, hreads⟩ := hright
  rw [h.map_name_typeParams he hspec]
  refine TypeExpr.proper_of_meaning? trivial trivial ?_ spec.type ?_ (hreads p (.refl p)).meaning
  · exact fun _ hname => hname
  · exact fun u _ used hused => ⟨fun _ _ => trivial,
      Or.inr ((h.consistent.closed_of_typeOf? hused).of_closed _)⟩

end Env.Settled

/-! ## What types lend -/

namespace Table

variable {id : Nat} {known : Ty} {args : List Ty}

/-- If there is an argument for each type parameter, those parameters are free in an instance that
are free in the arguments. -/
theorem proper_params_instance {names : List String} (hknown : t.underlying? id = some known)
    (hproper : known.Proper (.paramsIn ((t.typeParams id).map TypeParam.name)))
    (hlength : args.length = (t.typeParams id).length)
    (hargs : Ty.AllProper (.paramsIn names) args) :
    (t.underlying (.named id args)).Proper (.paramsIn names) := by
  rw [underlying, instance?, hknown, Option.map_some, Option.getD_some]
  have hsubst : (known.subst (TypeParam.argument? (t.typeParams id) args)).Proper
      (.paramsIn names) := by
    refine Ty.proper_subst (fun _ _ _ => trivial) (fun name hname => ?_) known hproper
    obtain ⟨arg, harg⟩ := TypeParam.exists_argument? hlength hname
    rw [harg]
    exact Ty.allProper_iff.mp hargs arg (TypeParam.mem_of_argument? harg)
  cases args with
  | cons => exact hsubst
  | nil =>
    have hself : known.subst (TypeParam.argument? (t.typeParams id) []) = known :=
      Ty.subst_eq_self (fun name _ => by rw [TypeParam.argument?_nil_right]; rfl) hproper
    rwa [hself] at hsubst

/-- All instances of a type have the same underlying type if no type parameter is free in it. -/
theorem underlying_of_closed (hknown : t.underlying? id = some known)
    (hclosed : known.Proper (.paramsIn [])) : t.underlying (.named id args) = known := by
  rw [underlying, instance?, hknown, Option.map_some, Option.getD_some]
  split
  · rfl
  · exact Ty.subst_closed hclosed _

end Table

/-- Only its own type parameters are free in what a type lends, and none if it may wait. -/
structure Env.Lends (env : Env) (q : Progress) (id : Nat) : Prop where
  own : ∀ known, q.table.underlying? id = some known →
    known.Proper (.paramsIn ((q.table.typeParams id).map TypeParam.name))
  closed : ∀ e ∈ q.entered, e.id = id → env.scope.MayWait e.name.text →
    ∀ known, q.table.underlying? id = some known → known.Proper (.paramsIn [])

namespace Env.Settled

variable (h : env.Settled p q) (hfree : env.scope.OrderFree)
include h

theorem lends_predeclared {id : Nat} (hid : id ≤ comparableId) : env.Lends q id := by
  have hproper : ∀ {A : Ty.Allowed} known, q.table.underlying? id = some known →
      known.Proper A := by
    intro A known hknown
    obtain ⟨type, htype, hproper⟩ := h.proper_predeclared (A := A) hid
    cases htype.symm.trans hknown
    exact hproper
  exact ⟨hproper, fun _ _ _ _ => hproper⟩

variable {e : EnteredType} (he : e ∈ p.entered) {type : Ty} (hright : env.RightMeans p e type)
  (hlends : ∀ target args, type = .named target args → env.Lends q target)
include hfree he hright hlends

/-- Only its own type parameters are free in the underlying type of what a type is defined as. -/
theorem proper_params_underlying :
    (q.table.underlying type).Proper
      (.paramsIn ((q.table.typeParams e.id).map TypeParam.name)) := by
  have hproper := h.proper_params_right he hright
  refine Table.proper_underlying_of_instances hproper (fun id args htype => ?_) ?_
  · subst htype
    obtain ⟨known, hknown⟩ := h.exists_lent hright
    exact Table.proper_params_instance hknown ((hlends id args rfl).own known hknown)
      (h.length_args_right hfree.back hright) hproper.2
  · obtain ⟨known, hknown, hclosed⟩ := h.proper_predeclared (Nat.zero_le comparableId)
    have hsame : q.table.underlying .error = known := Table.underlying_of_closed hknown hclosed
    rw [hsame]
    exact hclosed.of_closed _

omit he in
/-- If a type may wait, no type parameter is free in what it is lent. -/
theorem closed_of_mayWait (hmay : env.scope.MayWait e.name.text) :
    ∃ target args known, type = .named target args ∧ q.table.underlying? target = some known ∧
      known.Proper (.paramsIn []) := by
  obtain ⟨spec, hspec, hreads⟩ := id hright
  have hmeaning := (hreads p (.refl p)).meaning
  cases hmay with
  | used hleads huses =>
    obtain ⟨e', he', rfl, args, rfl⟩ := h.consistent.named_of_leads hleads hspec hmeaning
    obtain ⟨known, hknown⟩ := h.exists_lent hright
    refine ⟨e'.id, args, known, rfl, hknown, ?_⟩
    -- the other type is not generic
    have hown := (hlends _ _ rfl).own known hknown
    have harity := hfree.instances _ _ hleads huses
    rw [← h.consistent.arity_entered he',
      ← Consistent.keeps.arity p h.consistent e'.id (h.consistent.bounds he').2 (by simp),
      List.length_eq_zero_iff, ← h.settles.typeParams] at harity
    rwa [harity] at hown
  | waits hleads hwaits =>
    obtain ⟨e', he', rfl, args, rfl⟩ := h.consistent.named_of_leads hleads hspec hmeaning
    obtain ⟨known, hknown⟩ := h.exists_lent hright
    -- the other type may wait, too
    exact ⟨e'.id, args, known, rfl, hknown,
      (hlends _ _ rfl).closed e' (h.entered ▸ he') rfl hwaits known hknown⟩

/-- A type has the underlying type of what it is defined as, with the type arguments. -/
theorem underlying?_eq : q.table.underlying? e.id = some (q.table.underlying type) := by
  rcases h.consistent.underlying?_of_right h.settles he hright with
    hstored | ⟨target, args, rfl, hpending, hstored⟩
  · exact hstored
  obtain ⟨-, e', he', hsame, -, hmay⟩ := h.consistent.waiting _ hpending
  obtain rfl := h.consistent.eq_of_id_eq he' he hsame
  obtain ⟨_, _, known, htype, hknown, hclosed⟩ := h.closed_of_mayWait hfree hright hlends hmay
  cases htype
  rw [hstored, Table.underlying_of_closed hknown hclosed, hknown]

/-- What a type lends has the type parameters of the type if this holds of the type that it is
defined as. -/
theorem lends_of_right : env.Lends q e.id where
  own known hknown := by
    cases (h.underlying?_eq hfree he hright hlends).symm.trans hknown
    exact h.proper_params_underlying hfree he hright hlends
  closed e' he' hsame hmay known hknown := by
    obtain rfl := h.consistent.eq_of_id_eq (h.entered ▸ he') he hsame
    obtain ⟨_, _, lent, rfl, hlent, hclosed⟩ := h.closed_of_mayWait hfree hright hlends hmay
    cases (h.underlying?_eq hfree he hright hlends).symm.trans hknown
    rwa [Table.underlying_of_closed hlent hclosed]

end Env.Settled

/-! ## All types -/

namespace Env.Settled

variable (h : env.Settled p q) (hfree : env.scope.OrderFree)
include h hfree

/-- Of every type it is known which type parameters are free in what it lends. -/
theorem lends {id : Nat} (hgrounded : env.Grounded p id) : env.Lends q id := by
  induction hgrounded with
  | predeclared hle => exact h.lends_predeclared hle
  | own he hright hown =>
    exact h.lends_of_right hfree he hright fun target args htype => absurd htype (hown target args)
  | lent he hright _ ih =>
    refine h.lends_of_right hfree he hright fun target args htype => ?_
    cases htype
    exact ih

theorem lends_of_underlying? {id : Nat} {known : Ty}
    (hknown : q.table.underlying? id = some known) : env.Lends q id :=
  h.lends hfree (h.consistent.grounded_of_settles h.settles hknown)

/-- If it makes no difference which type is reached first, then no type arguments are lost. -/
theorem lendsAll : env.LendsAll p q := by
  intro e he type hright
  refine h.underlying?_eq hfree he hright fun target args htype => ?_
  subst htype
  obtain ⟨known, hknown⟩ := h.exists_lent hright
  exact h.lends_of_underlying? hfree hknown

end Env.Settled

/-- If it makes no difference which type of an accepted file is reached first, then only its own
type parameters are free in what a declared type lends. -/
theorem SourceFile.scoped_of_resolve {file : SourceFile} {config : Config} {result : ResolvedFile}
    (h : file.resolve config = .ok result) {scope : FileScope}
    (hscope : FileScope.ofDeclarations file.path file.declarations = .ok scope)
    (hfree : scope.OrderFree) : result.table.Scoped := by
  obtain ⟨env, q, -, -, hsettle, -, -, -, -, htable, -⟩ := resolve_ok h
  obtain ⟨p, henter, hsettled⟩ := settled_of_settleTypes hsettle
  cases hscope.symm.trans (enterTypes_ok henter).scope
  intro id known hknown
  rw [htable] at hknown ⊢
  exact ((hsettled.lends_of_underlying? hfree hknown).own known hknown).free

end GoSignatures

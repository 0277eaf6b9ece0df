import GoSignatures.Proofs.Resolution.Declarations
import GoSignatures.Proofs.Resolution.Placing
import GoSignatures.Proofs.Resolution.Succeeding

/-!
# Entering types in another order

If all types of a file were entered in one run, then they can be entered in any order. Names of
types do not lead back to themselves, because each stands for something that was found in that run
before it; declarations do not nest too deep; and uses have the right number of arguments. The last
needs that no generic type is led back to from its own constraints, for the types on the way see it
without type parameters if it is entered first, and with them otherwise.

* `Progress.rank` — in which order other names for types were found
* `Env.enterType_succeeds` — entering a name
* `Env.resolveTypeSpecs_succeeds` — resolving the declarations of types in any order
-/

namespace GoSignatures

open Resolve

variable {env : Env} {p q : Progress} {opened unset : List EnteredType}

/-! ## The order of other names for types -/

/-- Where a name stands among the other names for types that were found. -/
def Progress.rank (q : Progress) (name : String) : Nat :=
  (q.aliases.map Prod.fst).idxOf name

/-- Another name for a type was found after those that its declaration uses. -/
theorem Env.Consistent.rank_lt (hq : env.Consistent [] [] q) {name : String} {spec : TypeSpec}
    {type : Ty} (hspec : env.scope.lookup name = some (.type spec)) (halias : spec.isAlias = true)
    (htype : env.typeOf? q name = some type) {u : TypeUse} (hu : u ∈ spec.rightUses)
    (hused : env.scope.isAlias u.1 = true) : q.rank u.1 < q.rank name := by
  rw [typeOf?, if_pos ((FileScope.isAlias_eq hspec).trans halias)] at htype
  obtain ⟨l, r, hlr, hfirst⟩ := List.lookup_eq_some_iff.mp htype
  have hearlier : u.1 ∈ l.map Prod.fst := hq.ordered l (name, type) r hlr spec hspec u hu hused
  have hnew : name ∉ l.map Prod.fst := by
    intro hmem
    obtain ⟨a, ha, rfl⟩ := List.mem_map.mp hmem
    simpa using hfirst a ha
  have hname : q.rank name = (l.map Prod.fst).length := by
    rw [Progress.rank, hlr, List.map_append, List.idxOf_append_of_notMem hnew, List.map_cons,
      List.idxOf_cons_self, Nat.add_zero]
  have huse : q.rank u.1 = (l.map Prod.fst).idxOf u.1 := by
    rw [Progress.rank, hlr, List.map_append, List.idxOf_append_of_mem hearlier]
  rw [hname, huse]
  exact List.idxOf_lt_length_of_mem hearlier

/-! ## Entering a name -/

/-- Entering a name succeeds while at most `n` defined types are not entered, if the name was found
before the names `resolving`, in case it is another name for a type. -/
def Env.EntersAgain (env : Env) (q : Progress) (n : Nat) (resolving : List String)
    (enter : EnterType) : Prop :=
  ∀ opened unset (name : Piece), env.Tracked opened unset name.text →
    env.scope.isType name.text = true →
      (env.scope.isAlias name.text = true → ∀ other ∈ resolving, q.rank name.text < q.rank other) →
        Succeeds (fun p => env.Consistent opened unset p ∧ env.undeclared p ≤ n) (enter name)

/-- A use has as many arguments as the type has parameters wherever the invariant holds. -/
def Env.Suits (env : Env) (opened unset : List EnteredType) (u : TypeUse) : Prop :=
  ∀ p, env.Consistent opened unset p → ∀ id, env.typeOf? p u.1 = some (.named id []) →
    (p.table.typeParams id).length = u.2

section

variable {n : Nat} {resolving : List String} {enter : EnterType}

namespace Env.EntersAgain

variable (hagain : env.EntersAgain q n resolving enter)
include hagain

theorem admits {u : TypeUse} (htracked : env.Tracked opened unset u.1)
    (hrank : env.scope.isAlias u.1 = true → ∀ other ∈ resolving, q.rank u.1 < q.rank other)
    (hsuits : env.Suits opened unset u) :
    env.Admits (env.Tracked opened unset)
      (fun p => env.Consistent opened unset p ∧ env.undeclared p ≤ n) enter u where
  reached := htracked
  enters htype name hname :=
    hagain opened unset name (hname ▸ htracked) (hname ▸ htype) (hname ▸ hrank)
  count p hp := hsuits p hp.1

/-- A type expression that means something in some run is resolved. -/
theorem typeExpr (henter : env.Enters enter) {params : List String} {e : TypeExpr}
    (htracked : ∀ u ∈ e.uses params, env.Tracked opened unset u.1)
    (hrank : ∀ u ∈ e.uses params, env.scope.isAlias u.1 = true →
      ∀ other ∈ resolving, q.rank u.1 < q.rank other)
    (hsuits : ∀ u ∈ e.uses params, env.Suits opened unset u) {t : Table} {m : Meanings} {type : Ty}
    (hmeans : e.meaning? env t m params = some type) (hp : env.Consistent opened unset p)
    (hn : env.undeclared p ≤ n) : ∃ type' p', e.resolve env enter params p = .ok (type', p') :=
  TypeExpr.resolve_succeeds
    ((@Consistent.keeps env opened unset).and (env.undeclared_le_of_extends n))
    (fun name hname => (henter opened unset name hname).and (env.undeclared_le_of_extends n)) e
    (fun u hu => hagain.admits (htracked u hu) (hrank u hu) (hsuits u hu)) hmeans p ⟨hp, hn⟩

end Env.EntersAgain

variable (hq : env.Consistent [] [] q) (hcomplete : env.Complete q)
  (hback : ∀ generic, ¬ env.scope.LeadsBack generic)
include hq hcomplete hback

/-! ### Uses -/

/-- The right-hand side of another name for a type can be resolved. -/
theorem Env.suits_alias (opened : List EnteredType) {name : String} {spec : TypeSpec}
    (hspec : env.scope.lookup name = some (.type spec)) (halias : spec.isAlias = true)
    (htracked : env.Tracked opened unset name) :
    ∃ type, spec.type.meaning? env q.table (env.typeOf? q) [] = some type ∧
      ∀ u ∈ spec.type.uses [], env.Suits opened unset u := by
  have hparams : spec.params = [] := if_pos halias
  obtain ⟨type, htype⟩ := hcomplete name (FileScope.isType_iff.mpr ⟨spec, hspec⟩)
  obtain ⟨-, spec', hspec', -, hreads⟩ :=
    hq.aliasFound ((FileScope.isAlias_eq hspec).trans halias) htype
  cases hspec.symm.trans hspec'
  obtain ⟨hmeaning, hcounted⟩ := hreads q (.refl q)
  rw [TypeSpec.rightUses, hparams] at hcounted
  refine ⟨type, hparams ▸ hmeaning, fun u hu p hp id hid => ?_⟩
  have hmem : u ∈ env.scope.usesOf name := by
    refine FileScope.mem_usesOf_right hspec ?_
    rwa [TypeSpec.rightUses, hparams]
  exact hp.length_typeParams_of_counted hq hcomplete hback hmem (hcounted u hu) hid
    fun e he _ => htracked.reached_alias hspec halias hp e he

variable {e e' : EnteredType} {spec : TypeSpec}
  (hspec : env.scope.lookup e.name.text = some (.type spec)) (he' : e' ∈ q.entered)
  (hname : e'.name.text = e.name.text)
  (hreached : ∀ d ∈ unset, env.scope.Reached d.name.text e.name.text)
include hspec he' hname hreached

/-- The right-hand side of a defined type can be resolved. -/
theorem Env.suits_right (opened : List EnteredType) :
    ∃ type, spec.type.meaning? env q.table (env.typeOf? q) spec.params = some type ∧
      ∀ u ∈ spec.rightUses, env.Suits opened unset u := by
  obtain ⟨type, ⟨spec', hspec', hreads⟩, -⟩ := hq.right e' he' (by simp)
  rw [hname] at hspec' hreads
  cases hspec.symm.trans hspec'
  obtain ⟨hmeaning, hcounted⟩ := hreads q (.refl q)
  refine ⟨type, hmeaning, fun u hu p hp id hid => ?_⟩
  exact hp.length_typeParams_of_counted hq hcomplete hback (FileScope.mem_usesOf_right hspec hu)
    (hcounted u hu) hid fun d hd _ => hreached d hd

/-- The constraints of a defined type can be resolved while it is without type parameters. -/
theorem Env.suits_constraints (opened : List EnteredType) (halias : spec.isAlias = false) :
    ∃ params, TypeParamDecl.meanings? env q.table (env.typeOf? q) spec.params spec.typeParams =
        some params ∧
      ∀ u ∈ TypeParamDecl.allUses spec.params spec.typeParams,
        env.Suits opened (e :: unset) u := by
  have hconstraints : spec.constraintUses = TypeParamDecl.allUses spec.params spec.typeParams := by
    simp [TypeSpec.constraintUses, halias]
  obtain ⟨spec', hspec', hreads⟩ := hq.params e' he' (by simp)
  rw [hname] at hspec' hreads
  cases hspec.symm.trans hspec'
  obtain ⟨hmeaning, hown, hcounted⟩ := hreads q (.refl q)
  rw [← hconstraints]
  refine ⟨_, hmeaning, fun u hu p hp id hid => ?_⟩
  have hmeans := hp.typeOf?_placeIn hq hcomplete hid
  obtain ⟨hopened, hnil⟩ := hp.noParams e List.mem_cons_self
  have hplace : p.placeIn q e.id = e'.id :=
    hp.placeIn_entered hq (hp.unfinished e hopened).1 he' hname
  by_cases hsame : id = e.id
  · -- the type itself is used without arguments
    subst hsame
    rw [Ty.rename, hplace] at hmeans
    rw [hnil, hown u hu (Consistent.keeps.isType p hp _ _ hid) hmeans, List.length_nil]
  · have hother : env.typeOf? q u.1 ≠ some (.named e'.id []) := by
      intro hself
      rw [hmeans, Ty.rename, ← hplace] at hself
      obtain ⟨hsame', -⟩ := Ty.named.inj (Option.some.inj hself)
      exact hsame (hp.placeIn_injective hq hcomplete hsame')
    exact hp.length_typeParams_of_counted hq hcomplete hback
      (FileScope.mem_usesOf_constraint hspec hu) (hcounted u hu hother) hid
      (List.forall_mem_cons.mpr ⟨fun hid => absurd hid.symm hsame, fun d hd _ => hreached d hd⟩)

end

section

variable (hq : env.Consistent [] [] q) (hcomplete : env.Complete q)
  (hback : ∀ generic, ¬ env.scope.LeadsBack generic) {n : Nat} {enter : EnterType}
  (henter : env.Enters enter) (hagain : env.EntersAgain q n [] enter)
  {e e' : EnteredType} {spec : TypeSpec}
  (hspec : env.scope.lookup e.name.text = some (.type spec)) (halias : spec.isAlias = false)
  (he' : e' ∈ q.entered) (hname : e'.name.text = e.name.text)
  (hreached : ∀ d ∈ unset, env.scope.Reached d.name.text e.name.text)
include hq hcomplete hback henter hagain hspec halias he' hname hreached

/-- The type parameters of a defined type are set. -/
theorem TypeSpec.resolveParams_succeeds
    (hused : ∀ d ∈ opened,
      d.name.text = e.name.text ∨ Relation.TransGen env.scope.Uses d.name.text e.name.text)
    (hp : env.Consistent opened (e :: unset) p) (hn : env.undeclared p ≤ n) :
    ∃ p', spec.resolveParams env enter e.id p = .ok ((), p') := by
  have hparams : spec.params = TypeParamDecl.allNames spec.typeParams := by
    simp [TypeSpec.params, halias]
  have htracked := env.tracked_constraintUses hspec halias hused hreached
  obtain ⟨params, hmeans, hsuits⟩ :=
    env.suits_constraints hq hcomplete hback hspec he' hname hreached opened halias
  unfold TypeSpec.resolveParams
  rw [← hparams]
  split
  · exact ⟨p, rfl⟩
  · obtain ⟨found, p₁, hrun⟩ := TypeParamDecl.resolveAll_succeeds
      ((@Env.Consistent.keeps env opened (e :: unset)).and (env.undeclared_le_of_extends n))
      (fun name hname => (henter _ _ name hname).and (env.undeclared_le_of_extends n))
      spec.typeParams
      (fun u hu => hagain.admits (htracked u hu) (fun _ _ h => absurd h List.not_mem_nil)
        (hsuits u hu)) hmeans p ⟨hp, hn⟩
    exact ⟨_, bind_eq_ok_iff.mpr ⟨found, p₁, hrun, rfl⟩⟩

/-- The declaration of a defined type is resolved. -/
theorem TypeSpec.resolveDefined_succeeds (hunset : e ∉ unset)
    (hused : ∀ d ∈ opened, Relation.TransGen env.scope.Uses d.name.text e.name.text)
    (hp : env.Consistent (e :: opened) (e :: unset) p) (hn : env.undeclared p ≤ n) :
    ∃ p', spec.resolveDefined env enter e.id p = .ok ((), p') := by
  have hparams : spec.params = TypeParamDecl.allNames spec.typeParams := by
    simp [TypeSpec.params, halias]
  have hused' : ∀ d ∈ e :: opened,
      d.name.text = e.name.text ∨ Relation.TransGen env.scope.Uses d.name.text e.name.text :=
    List.forall_mem_cons.mpr ⟨.inl rfl, fun d hd => .inr (hused d hd)⟩
  obtain ⟨p₁, hconstraints⟩ := spec.resolveParams_succeeds hq hcomplete hback henter hagain hspec
    halias he' hname hreached hused' hp hn
  obtain ⟨hp₁, hlater, -⟩ :=
    henter.constraints hspec halias hunset hused' hreached hp hconstraints
  have hn₁ := Nat.le_trans (Env.undeclared_le_of_prefix hlater.entered) hn
  obtain ⟨type, hmeans, hsuits⟩ :=
    env.suits_right hq hcomplete hback hspec he' hname hreached (e :: opened)
  obtain ⟨type', p₂, hright⟩ := hagain.typeExpr henter
    (fun u hu => .of_use (FileScope.mem_usesOf_right hspec hu) hused' hreached)
    (fun _ _ _ _ h => absurd h List.not_mem_nil) hsuits hmeans hp₁ hn₁
  rw [TypeSpec.resolveDefined_eq, ← hparams]
  exact ⟨_, bind_eq_ok_iff.mpr ⟨(), p₁, hconstraints, bind_eq_ok_iff.mpr ⟨type', p₂, hright, rfl⟩⟩⟩

end

section

variable (hnamed : env.scope.Named) (hq : env.Consistent [] [] q) (hcomplete : env.Complete q)
  (hback : ∀ generic, ¬ env.scope.LeadsBack generic)
include hnamed hq hcomplete hback

section

variable {depth : Nat} {resolving : List String} {n : Nat} {spec : TypeSpec}
  (ih : ∀ {resolving n}, env.nestable n resolving < depth →
    env.EntersAgain q n resolving (env.enterType depth resolving))
  (hdepth : env.nestable n resolving < depth + 1) {name : Piece}
  (hspec : env.scope.lookup name.text = some (.type spec))
  (htracked : env.Tracked opened unset name.text) (hp : env.Consistent opened unset p)
  (hn : env.undeclared p ≤ n)
include ih hdepth hspec htracked hp hn

/-- Another name for a type is resolved through, since it was found before those in progress. -/
theorem Env.enterType_alias_succeeds (halias : spec.isAlias = true)
    (hrank : ∀ other ∈ resolving, q.rank name.text < q.rank other) :
    ∃ type p', env.enterType (depth + 1) resolving name p = .ok (type, p') := by
  cases hknown : p.aliases.lookup name.text with
  | some type => exact ⟨type, p, enterType_alias_known hspec halias hknown⟩
  | none =>
    have hnew : resolving.contains name.text = false := by
      by_contra hmem
      exact Nat.lt_irrefl _ (hrank name.text (by simpa using hmem))
    have hlt := env.nestable_alias_lt (n := n) hspec halias hnew
    obtain ⟨type, hmeans, hsuits⟩ :=
      env.suits_alias hq hcomplete hback opened hspec halias htracked
    obtain ⟨found, hfound⟩ := hcomplete name.text (FileScope.isType_iff.mpr ⟨spec, hspec⟩)
    -- the names that the declaration uses were found before all names in progress
    have hearlier : ∀ u ∈ spec.type.uses [], env.scope.isAlias u.1 = true →
        ∀ other ∈ name.text :: resolving, q.rank u.1 < q.rank other := by
      intro u hu hused
      have hright : u ∈ spec.rightUses := by
        rwa [TypeSpec.rightUses, TypeSpec.params, if_pos halias]
      have hless := hq.rank_lt hspec halias hfound hright hused
      exact List.forall_mem_cons.mpr
        ⟨hless, fun other hother => Nat.lt_trans hless (hrank other hother)⟩
    have hagain : env.EntersAgain q n (name.text :: resolving)
        (env.enterType depth (name.text :: resolving)) := ih (by omega)
    obtain ⟨type', p₁, hrun⟩ := hagain.typeExpr (enterType_enters hnamed _ _)
      (htracked.alias_uses hspec halias hp) hearlier hsuits hmeans hp hn
    rw [enterType_alias_new hspec halias hknown, if_neg (by simpa using hnew)]
    exact ⟨type', _, bind_eq_ok_iff.mpr ⟨type', p₁, hrun, rfl⟩⟩

/-- A defined type is entered, which leaves fewer that are not. -/
theorem Env.enterType_defined_succeeds (halias : spec.isAlias = false) :
    ∃ type p', env.enterType (depth + 1) resolving name p = .ok (type, p') := by
  cases hknown : p.enteredType? name.text with
  | some e => exact ⟨_, p, enterType_entered hspec halias hknown⟩
  | none =>
    obtain ⟨type, hfound⟩ := hcomplete name.text (FileScope.isType_iff.mpr ⟨spec, hspec⟩)
    obtain ⟨e', he', hsame, -⟩ :=
      entered_of_typeOf? ((FileScope.isAlias_eq hspec).trans halias) hfound
    have hname := hnamed _ _ hspec
    rw [enterType_new hspec halias hknown]
    rw [← hname] at hspec hknown htracked hsame
    have hunset : ⟨spec.name, p.table.size⟩ ∉ unset := fun hmem =>
      absurd (hp.bounds (hp.unfinished _ (hp.noParams _ hmem).1).1).2 (Nat.lt_irrefl _)
    have hlt := env.undeclared_enter_lt hspec halias hknown env.packageName
    have hfewer := env.nestable_enter_lt (Nat.lt_of_lt_of_le hlt hn) resolving
    obtain ⟨p', hrun⟩ := spec.resolveDefined_succeeds (e := ⟨spec.name, p.table.size⟩) hq
      hcomplete hback (enterType_enters hnamed depth [])
      (ih (n := env.undeclared (p.enter spec.name env.packageName)) (by omega)) hspec halias he'
      hsame (htracked.reached_new hp hknown) hunset htracked.opened
      (hp.enter hspec halias hknown) (Nat.le_refl _)
    exact ⟨_, p', bind_eq_ok_iff.mpr ⟨(), p', hrun, rfl⟩⟩

end

/-- Entering a name succeeds as long as the depth is above the measure. -/
theorem Env.enterType_succeeds (depth : Nat) {resolving : List String} {n : Nat}
    (hdepth : env.nestable n resolving < depth) :
    env.EntersAgain q n resolving (env.enterType depth resolving) := by
  induction depth generalizing resolving n with
  | zero => omega
  | succ depth ih =>
    rintro opened unset name htracked htype hrank p ⟨hp, hn⟩
    obtain ⟨spec, hspec⟩ := FileScope.isType_iff.mp htype
    cases halias : spec.isAlias with
    | true =>
      exact env.enterType_alias_succeeds hnamed hq hcomplete hback ih hdepth hspec htracked hp hn
        halias (hrank ((FileScope.isAlias_eq hspec).trans halias))
    | false =>
      exact env.enterType_defined_succeeds hnamed hq hcomplete hback ih hdepth hspec htracked hp hn
        halias

/-! ## Declarations -/

/-- A declaration of a type that is known in the other run is resolved. -/
theorem Env.resolveTypeSpec_succeeds {spec : TypeSpec}
    (hspec : spec.name.text ≠ "_" → env.scope.lookup spec.name.text = some (.type spec))
    (hfound : env.SpecFound q spec) (hp : env.Consistent [] [] p) :
    ∃ p', env.resolveTypeSpec spec p = .ok ((), p') := by
  have hagain := env.enterType_succeeds hnamed hq hcomplete hback env.scope.nesting
    (env.nestable_lt_nesting p)
  rw [resolveTypeSpec_eq]
  by_cases hblank : spec.name.text = "_"
  · obtain ⟨type, hreads⟩ := hfound.blank hblank
    obtain ⟨hmeaning, hfits⟩ := hreads q (.refl q)
    obtain ⟨type', p₁, hrun⟩ := hagain.typeExpr (enterType_enters hnamed _ _)
      (fun _ _ => .none _) (fun _ _ _ _ h => absurd h List.not_mem_nil)
      (fun u hu p hp id hid =>
        hp.length_typeParams_of_fits hq hcomplete (hfits u hu) List.not_mem_nil hid) hmeaning hp
      (Nat.le_refl _)
    rw [if_pos hblank]
    exact ⟨_, bind_eq_ok_iff.mpr ⟨type', p₁, hrun, rfl⟩⟩
  · obtain ⟨type, p₁, hrun⟩ := hagain [] [] spec.name (.none _)
      (FileScope.isType_iff.mpr ⟨spec, hspec hblank⟩) (fun _ _ h => absurd h List.not_mem_nil) p
      ⟨hp, Nat.le_refl _⟩
    rw [if_neg hblank]
    exact ⟨_, bind_eq_ok_iff.mpr ⟨type, p₁, hrun, rfl⟩⟩

/-- Declarations of types that are known in the other run are resolved in any order. -/
theorem Env.resolveTypeSpecs_succeeds {specs : List TypeSpec}
    (hspecs : ∀ spec ∈ specs, spec.name.text ≠ "_" →
      env.scope.lookup spec.name.text = some (.type spec))
    (hfound : ∀ spec ∈ specs, env.SpecFound q spec) (hp : env.Consistent [] [] p) :
    ∃ p', specs.forM env.resolveTypeSpec p = .ok ((), p') := by
  induction specs generalizing p with
  | nil => exact ⟨p, rfl⟩
  | cons spec specs ih =>
    obtain ⟨hspec, hspecs⟩ := List.forall_mem_cons.mp hspecs
    obtain ⟨hfirst, hrest⟩ := List.forall_mem_cons.mp hfound
    obtain ⟨p₁, hrun⟩ := env.resolveTypeSpec_succeeds hnamed hq hcomplete hback hspec hfirst hp
    obtain ⟨hp₁, -⟩ := resolveTypeSpec_ok hnamed hspec hp hrun
    obtain ⟨p', hrun'⟩ := ih hspecs hrest hp₁
    exact ⟨p', bind_eq_ok_iff.mpr ⟨(), p₁, hrun, hrun'⟩⟩

end

end GoSignatures

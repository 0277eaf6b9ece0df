import GoSignatures.Proofs.Resolution.Agreement

/-!
# How deep declarations nest

Whenever a name leads into another declaration, one of two things happens. A defined type is entered
for the first time, which happens once for each of them; the other names in progress are forgotten
then. Or another name for a type is added to those in progress. So the number of defined types that
are not entered decreases, or it stays and the number of other names that are not in progress
decreases.

* `Env.undeclared`, `FileScope.unresolving` — the two numbers
* `Env.nestable` — the measure that they make up
* `Env.enterTypeGuarded_eq` — as long as the bounds are above the measure, they do not matter
-/

namespace GoSignatures

open Resolve

variable {broken : ResolveError} {env : Env} {p q : Progress}

/-! ## The measure -/

/-- How many defined types of the scope are not entered. -/
def Env.undeclared (env : Env) (p : Progress) : Nat :=
  env.scope.entries.countP fun entry =>
    match entry.2 with
    | .type spec => spec.isAlias == false && (p.enteredType? entry.1).isNone
    | _ => false

/-- How many other names for types are not in progress. -/
def FileScope.unresolving (scope : FileScope) (resolving : List String) : Nat :=
  scope.entries.countP fun entry =>
    match entry.2 with
    | .type spec => spec.isAlias == true && !resolving.contains entry.1
    | _ => false

/-- A bound for the number of declarations that can be nested below those in progress. -/
def Env.nestable (env : Env) (undeclared : Nat) (resolving : List String) : Nat :=
  undeclared * (env.scope.countTypes true + 1) + env.scope.unresolving resolving

theorem FileScope.mem_entries {scope : FileScope} {name : String} {entry : ScopeEntry}
    (h : scope.lookup name = some entry) : (name, entry) ∈ scope.entries := by
  obtain ⟨l, r, hlr, -⟩ := List.lookup_eq_some_iff.mp h
  simp [hlr]

theorem Env.undeclared_le_countTypes (env : Env) (p : Progress) :
    env.undeclared p ≤ env.scope.countTypes false := by
  refine List.countP_mono_left fun entry _ h => ?_
  obtain ⟨name, entry⟩ := entry
  cases entry with
  | type spec => exact (Bool.and_eq_true_iff.mp h).1
  | _ => cases h

theorem FileScope.unresolving_le_countTypes (scope : FileScope) (resolving : List String) :
    scope.unresolving resolving ≤ scope.countTypes true := by
  refine List.countP_mono_left fun entry _ h => ?_
  obtain ⟨name, entry⟩ := entry
  cases entry with
  | type spec => exact (Bool.and_eq_true_iff.mp h).1
  | _ => cases h

theorem Env.undeclared_le_of_prefix (h : p.entered <+: q.entered) :
    env.undeclared q ≤ env.undeclared p := by
  refine List.countP_mono_left fun entry _ hentry => ?_
  obtain ⟨name, entry⟩ := entry
  cases entry with
  | type spec =>
    obtain ⟨halias, hnone⟩ := Bool.and_eq_true_iff.mp hentry
    refine Bool.and_eq_true_iff.mpr ⟨halias, ?_⟩
    rw [Option.isNone_iff_eq_none] at hnone ⊢
    cases hfound : p.enteredType? name with
    | none => rfl
    | some e =>
      have hlater : q.enteredType? name = some e := h.find?_eq_some hfound
      rw [hlater] at hnone
      cases hnone
  | _ => cases hentry

/-- Entering a defined type leaves fewer that are not entered. -/
theorem Env.undeclared_enter_lt {spec : TypeSpec}
    (hspec : env.scope.lookup spec.name.text = some (.type spec)) (halias : spec.isAlias = false)
    (hnew : p.enteredType? spec.name.text = none) (packageName : String) :
    env.undeclared (p.enter spec.name packageName) < env.undeclared p := by
  have hprefix : p.entered <+: (p.enter spec.name packageName).entered := List.prefix_append _ _
  have hfound : (p.enter spec.name packageName).enteredType? spec.name.text =
      some ⟨spec.name, p.table.size⟩ := by
    have hnone : (p.entered.find? fun e => e.name.text == spec.name.text) = none := hnew
    simp [Progress.enter, Progress.enteredType?, List.find?_append, hnone]
  refine countP_lt_countP (fun entry _ hentry => ?_) (FileScope.mem_entries hspec) ?_ ?_
  · obtain ⟨name, entry⟩ := entry
    cases entry with
    | type spec' =>
      obtain ⟨halias', hnone⟩ := Bool.and_eq_true_iff.mp hentry
      refine Bool.and_eq_true_iff.mpr ⟨halias', ?_⟩
      rw [Option.isNone_iff_eq_none] at hnone ⊢
      cases hold : p.enteredType? name with
      | none => rfl
      | some e =>
        have hlater := hprefix.find?_eq_some hold
        exact absurd (hlater.symm.trans hnone) (by simp)
    | _ => cases hentry
  · simp [hfound]
  · simp [halias, hnew]

/-- Another name for a type that is added to those in progress was not among them. -/
theorem FileScope.unresolving_cons_lt {scope : FileScope} {name : String} {spec : TypeSpec}
    {resolving : List String} (hspec : scope.lookup name = some (.type spec))
    (halias : spec.isAlias = true) (hnew : resolving.contains name = false) :
    scope.unresolving (name :: resolving) < scope.unresolving resolving := by
  refine countP_lt_countP (fun entry _ hentry => ?_) (FileScope.mem_entries hspec) ?_ ?_
  · obtain ⟨other, entry⟩ := entry
    cases entry with
    | type spec' =>
      simp only [Bool.and_eq_true, Bool.not_eq_true', List.contains_cons, Bool.or_eq_false_iff]
        at hentry ⊢
      exact ⟨hentry.1, hentry.2.2⟩
    | _ => cases hentry
  · simp
  · simp only [halias, hnew, Bool.not_false, Bool.and_true, beq_self_eq_true]

theorem Env.nestable_alias_lt {n : Nat} {name : String} {spec : TypeSpec}
    {resolving : List String} (hspec : env.scope.lookup name = some (.type spec))
    (halias : spec.isAlias = true) (hnew : resolving.contains name = false) :
    env.nestable n (name :: resolving) < env.nestable n resolving :=
  Nat.add_lt_add_left (FileScope.unresolving_cons_lt hspec halias hnew) _

theorem Env.nestable_enter_lt {n m : Nat} (h : n < m) (resolving : List String) :
    env.nestable n [] < env.nestable m resolving := by
  have hall := env.scope.unresolving_le_countTypes []
  have hmul : (n + 1) * (env.scope.countTypes true + 1) ≤ m * (env.scope.countTypes true + 1) :=
    Nat.mul_le_mul_right _ h
  rw [Nat.succ_mul] at hmul
  unfold nestable
  omega

theorem Env.nestable_lt_nesting (env : Env) (p : Progress) :
    env.nestable (env.undeclared p) [] < env.scope.nesting := by
  have hdefined := env.undeclared_le_countTypes p
  have hall := env.scope.unresolving_le_countTypes []
  have hmul := Nat.mul_le_mul_right (env.scope.countTypes true + 1) hdefined
  have hnesting : env.scope.nesting = env.scope.countTypes false * (env.scope.countTypes true + 1) +
      (env.scope.countTypes true + 1) := Nat.succ_mul _ _
  unfold nestable
  omega

/-! ## Invariants with the measure -/

/-- What every extension of the progress keeps may be added to an invariant. -/
theorem Env.Keeps.and {unset : List Nat} {Q : String → Prop} {I J : Progress → Prop}
    (hI : env.Keeps unset Q I) (hJ : ∀ p q, p.Extends q → J p → J q) :
    env.Keeps unset Q (fun p => I p ∧ J p) where
  define p f hf hp hsig := ⟨hI.define p f hf hp.1 hsig, hJ p _ (p.extends_define hf) hp.2⟩
  isType p hp := hI.isType p hp.1
  proper p hp := hI.proper p hp.1
  reaches p hp := hI.reaches p hp.1
  size p hp := hI.size p hp.1
  noParams p hp := hI.noParams p hp.1
  arity p hp := hI.arity p hp.1

theorem Resolve.Yields.and {α : Type} {I J : Progress → Prop} {S : α → Progress → Prop}
    {x : Resolve α} (hJ : ∀ p q, p.Extends q → J p → J q) (h : Yields I S x) :
    Yields (fun p => I p ∧ J p) S x := by
  intro p a q hp hrun
  obtain ⟨hq, hext, hS⟩ := h p a q hp.1 hrun
  exact ⟨⟨hq, hJ p q hext hp.2⟩, hext, hS⟩

theorem Env.undeclared_le_of_extends (env : Env) (n : Nat) (p q : Progress) (h : p.Extends q)
    (hn : env.undeclared p ≤ n) : env.undeclared q ≤ n :=
  Nat.le_trans (Env.undeclared_le_of_prefix h.entered) hn

/-! ## Entering under guard -/

/-- Entering a name under guard does what entering it does, while at most `n` defined types are not
entered. -/
def Env.EntersAlike (env : Env) (n : Nat) (enter' enter : EnterType) : Prop :=
  ∀ opened unset (name : Piece), env.Tracked opened unset name.text →
    Agrees (fun q => env.Consistent opened unset q ∧ env.undeclared q ≤ n) (enter' name)
      (enter name)

section

variable {n : Nat} {enter enter' : EnterType} {opened unset : List EnteredType}
  (henter : env.Enters enter) (halike : env.EntersAlike n enter' enter)
include henter halike

theorem Env.EntersAlike.typeExpr {params : List String} {e : TypeExpr}
    (huses : ∀ u ∈ e.uses params, env.Tracked opened unset u.1)
    (hp : env.Consistent opened unset p) (hn : env.undeclared p ≤ n) :
    e.resolveGuarded broken env enter' params p = e.resolve env enter params p :=
  TypeExpr.resolveGuarded_agrees
    ((@Consistent.keeps env opened unset).and (env.undeclared_le_of_extends n))
    (fun name hname => (henter opened unset name hname).and (env.undeclared_le_of_extends n))
    (fun name hname => halike opened unset name hname) e huses p ⟨hp, hn⟩

/-- The type parameters of a defined type are set under guard as they are without. -/
theorem Env.EntersAlike.params {e : EnteredType} {spec : TypeSpec}
    (hspec : env.scope.lookup e.name.text = some (.type spec)) (halias : spec.isAlias = false)
    (hused : ∀ e' ∈ opened,
      e'.name.text = e.name.text ∨ Relation.TransGen env.scope.Uses e'.name.text e.name.text)
    (hreached : ∀ e' ∈ unset, env.scope.Reached e'.name.text e.name.text)
    (hp : env.Consistent opened (e :: unset) p) (hn : env.undeclared p ≤ n) :
    spec.resolveParamsGuarded broken env enter' e.id p = spec.resolveParams env enter e.id p := by
  have hparams : spec.params = TypeParamDecl.allNames spec.typeParams := by
    simp [TypeSpec.params, halias]
  have huses := env.tracked_constraintUses hspec halias hused hreached
  have hkeeps := (@Consistent.keeps env opened (e :: unset)).and (env.undeclared_le_of_extends n)
  have hyields := fun (name : Piece) hname =>
    (henter opened (e :: unset) name hname).and (env.undeclared_le_of_extends n)
  unfold TypeSpec.resolveParamsGuarded TypeSpec.resolveParams
  rw [← hparams]
  split
  · rfl
  · refine (TypeParamDecl.resolveAllGuarded_agrees hkeeps hyields
      (fun name hname => halike opened (e :: unset) name hname) spec.typeParams huses).bind
      (TypeParamDecl.resolveAll_yields hkeeps hyields spec.typeParams huses) (fun params => ?_) p
      ⟨hp, hn⟩
    rintro q ⟨⟨hq, -⟩, -⟩
    have hentered := (hq.unfinished e (hq.noParams e List.mem_cons_self).1).1
    exact guardPlace_bind (hq.bounds hentered).2 _

/-- The declaration of a defined type is resolved under guard as it is without. -/
theorem Env.EntersAlike.defined {e : EnteredType} {spec : TypeSpec}
    (hspec : env.scope.lookup e.name.text = some (.type spec)) (halias : spec.isAlias = false)
    (hunset : e ∉ unset)
    (hused : ∀ e' ∈ opened, Relation.TransGen env.scope.Uses e'.name.text e.name.text)
    (hreached : ∀ e' ∈ unset, env.scope.Reached e'.name.text e.name.text)
    (hp : env.Consistent (e :: opened) (e :: unset) p) (hn : env.undeclared p ≤ n) :
    spec.resolveDefinedGuarded broken env enter' e.id p = spec.resolveDefined env enter e.id p := by
  have hparams : spec.params = TypeParamDecl.allNames spec.typeParams := by
    simp [TypeSpec.params, halias]
  have hused' : ∀ e' ∈ e :: opened,
      e'.name.text = e.name.text ∨ Relation.TransGen env.scope.Uses e'.name.text e.name.text :=
    List.forall_mem_cons.mpr ⟨Or.inl rfl, fun e' he' => Or.inr (hused e' he')⟩
  have huses : ∀ u ∈ spec.rightUses, env.Tracked (e :: opened) unset u.1 :=
    fun u hu => .of_use (FileScope.mem_usesOf_right hspec hu) hused' hreached
  rw [TypeSpec.resolveDefined_eq, TypeSpec.resolveDefinedGuarded, ← hparams]
  refine bind_congr_run (halike.params henter hspec halias hused' hreached hp hn) ?_
  intro _ p₁ hrun
  obtain ⟨hp₁, hlater, -⟩ :=
    henter.constraints hspec halias hunset hused' hreached hp hrun
  have hn₁ : env.undeclared p₁ ≤ n :=
    Nat.le_trans (Env.undeclared_le_of_prefix hlater.entered) hn
  refine bind_congr_run (halike.typeExpr henter huses hp₁ hn₁) ?_
  intro type p₂ hright
  obtain ⟨hp₂, -, hread⟩ := TypeExpr.resolve_yields Consistent.keeps
    (henter (e :: opened) unset) spec.type huses p₁ type p₂ hp₁ hright
  have hproper := Consistent.keeps.proper_meaning hp₂ (hread p₂ (.refl p₂)).meaning
  have herror : errorId < p₂.table.size := Nat.lt_of_succ_lt (Consistent.keeps.size p₂ hp₂)
  have hall : Ty.AllProper p₂.table.places [type] := ⟨hproper, trivial⟩
  have hentered := (hp₂.unfinished e List.mem_cons_self).1
  rw [guardTypes_bind herror hall, guardPlace_bind (hp₂.bounds hentered).2]

end

/-- As long as both bounds are above the measure, entering a name under guard does what entering it
does. -/
theorem Env.enterTypeGuarded_eq (hnamed : env.scope.Named) (broken : ResolveError)
    (depth : Nat) {depth' : Nat} {resolving : List String} {n : Nat}
    (hdepth : env.nestable n resolving < depth) (hdepth' : env.nestable n resolving < depth') :
    env.EntersAlike n (env.enterTypeGuarded broken depth' resolving)
      (env.enterType depth resolving) := by
  induction depth generalizing depth' resolving n with
  | zero => omega
  | succ depth ih =>
    obtain ⟨depth', rfl⟩ : ∃ d, depth' = d + 1 := ⟨depth' - 1, by omega⟩
    rintro opened unset name htracked p ⟨hp, hn⟩
    cases hlookup : env.scope.lookup name.text with
    | none => simp only [enterTypeGuarded, enterType, hlookup]
    | some entry =>
      cases entry with
      | type spec =>
        have hname := hnamed _ _ hlookup
        simp only [enterTypeGuarded, enterType, hlookup]
        by_cases halias : spec.isAlias = true
        · simp only [halias, if_true, get_bind]
          cases hknown : p.aliases.lookup name.text with
          | some type => rfl
          | none =>
            dsimp only
            split
            · rfl
            · next hnew =>
              have hlt := env.nestable_alias_lt (n := n) hlookup halias (by simpa using hnew)
              have halike := @ih depth' (name.text :: resolving) n (by omega) (by omega)
              refine bind_congr_run (halike.typeExpr (enterType_enters hnamed _ _)
                (htracked.alias_uses hlookup halias hp) hp hn) fun _ _ _ => rfl
        · rw [Bool.not_eq_true] at halias
          simp only [halias, Bool.false_eq_true, if_false, get_bind]
          cases hknown : p.enteredType? name.text with
          | some e => rfl
          | none =>
            dsimp only
            simp only [get_bind, modify_bind]
            rw [← hname] at hlookup hknown htracked
            have hnew : ⟨spec.name, p.table.size⟩ ∉ unset := fun hmem =>
              absurd (hp.bounds (hp.unfinished _ (hp.noParams _ hmem).1).1).2 (Nat.lt_irrefl _)
            have hentered := hp.enter hlookup halias hknown
            have hlt := env.undeclared_enter_lt hlookup halias hknown env.packageName
            have hfewer := env.nestable_enter_lt (Nat.lt_of_lt_of_le hlt hn) resolving
            have halike := @ih depth' [] (env.undeclared (p.enter spec.name env.packageName))
              (by omega) (by omega)
            have hagree := @EntersAlike.defined broken _ _ _ _ _ _ _
              (enterType_enters hnamed depth []) halike _ _ hlookup halias hnew htracked.opened
              (htracked.reached_new hp hknown) hentered (Nat.le_refl _)
            exact bind_congr_run hagree fun _ _ _ => rfl
      | _ => simp only [enterTypeGuarded, enterType, hlookup]

end GoSignatures

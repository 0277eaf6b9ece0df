import GoSignatures.Proofs.Ty.References

/-!
# Replacing type parameters twice

Replacing parameters first under one binding and then under another is replacing them once. So an
instance whose arguments are replaced is the instance under the replaced arguments, if no other
parameters are free in the generic type. The arguments may mention the very parameters that are
replaced: what they stand for is not searched again.

The underlying type of a type is that of what a declared type lends under the type arguments, so
that parameters may be replaced before or after it is taken.

* `Ty.Allowed.paramsIn` — no type parameters but some
* `Ty.subst_instantiate` — replacement in an instance
* `Table.Scoped` — only its own type parameters are free in what a declared type lends
* `Table.underlying_subst` — replacement before or after taking the underlying type
* `Ty.instantiate_spec` — how replacing by lists of arguments composes with itself and with taking
  the underlying type
-/

namespace GoSignatures

/-- All types, with no type parameters but `names`. -/
def Ty.Allowed.paramsIn (names : List String) : Ty.Allowed where
  named _ _ := True
  param name := name ∈ names

/-- Where no type parameter occurs, nothing is replaced. -/
theorem Ty.subst_closed {type : Ty} (h : type.Proper (.paramsIn [])) (bind : Binding) :
    type.subst bind = type :=
  Ty.subst_eq_self (fun _ hname => absurd hname List.not_mem_nil) h

theorem Ty.substs_closed {types : List Ty} (h : Ty.AllProper (.paramsIn []) types)
    (bind : Binding) : Ty.substs bind types = types := by
  rw [Ty.substs_eq_map]
  exact (List.map_congr_left fun type htype =>
    Ty.subst_closed (Ty.allProper_iff.mp h type htype) bind).trans types.map_id

/-- Where no type parameter occurs, only those occur that are allowed. -/
theorem Ty.Proper.of_closed {type : Ty} (h : type.Proper (.paramsIn [])) (names : List String) :
    type.Proper (.paramsIn names) := by
  refine h.mono ?_ ?_
  · exact fun _ _ _ => trivial
  · exact fun _ hname => absurd hname List.not_mem_nil

/-! ## Instances -/

theorem TypeParam.argument?_substs (bind : Binding) (name : String) :
    ∀ (ps : List TypeParam) (as : List Ty),
      argument? ps (Ty.substs bind as) name = (argument? ps as name).map (Ty.subst bind)
  | [], as => by cases as <;> rfl
  | p :: ps, [] => rfl
  | p :: ps, a :: as => by
    rw [Ty.substs, argument?, argument?, argument?_substs bind name ps as]
    split <;> rfl

/-- Where there is an argument for each parameter, all parameters are replaced. -/
theorem TypeParam.exists_argument? {name : String} : ∀ {ps : List TypeParam} {as : List Ty},
    as.length = ps.length → name ∈ ps.map TypeParam.name → ∃ a, argument? ps as name = some a
  | p :: ps, a :: as, hlength, hname => by
    rw [argument?]
    by_cases hfirst : p.name = name
    · exact ⟨a, if_pos hfirst⟩
    · rw [if_neg hfirst]
      exact exists_argument? (Nat.succ.inj hlength)
        ((List.mem_cons.mp hname).resolve_left (Ne.symm hfirst))

/-- Replacing in an instance is replacing in its arguments. -/
theorem Ty.subst_instantiate {ps : List TypeParam} {as : List Ty} {type : Ty}
    (hfree : ∀ name ∈ type.free, name ∈ ps.map TypeParam.name) (hlength : as.length = ps.length)
    (bind : Binding) :
    (type.instantiate ps as).subst bind = type.instantiate ps (Ty.substs bind as) := by
  refine Ty.subst_subst_of_free type fun name hname => ?_
  obtain ⟨a, ha⟩ := TypeParam.exists_argument? hlength (hfree name hname)
  rw [TypeParam.argument?_substs, ha]
  rfl

/-! ## Underlying types -/

/-- Only its own type parameters are free in what a declared type lends. -/
def Table.Scoped (t : Table) : Prop :=
  ∀ id known, t.underlying? id = some known →
    ∀ name ∈ known.free, name ∈ (t.typeParams id).map TypeParam.name

/-- Every declared type that occurs in the type has as many type arguments as it has parameters. -/
def Table.Counts (t : Table) (type : Ty) : Prop :=
  ∀ r ∈ type.references, r.2 = (t.typeParams r.1).length

/-- The type within the imported layers of a type. -/
def Ty.core : Ty → Ty
  | .imported _ _ (some type) => type.core
  | type => type

/-- No type parameter is free within the imported layers of a type. -/
def Ty.Sealed : Ty → Prop
  | .imported _ _ (some type) => type.core.free = []
  | _ => True

theorem Ty.references_core (type : Ty) : type.core.references = type.references := by
  fun_induction Ty.core type with
  | case1 path name type ih => exact ih
  | case2 => rfl

theorem Ty.core_ne_imported (type : Ty) (path name : String) (known : Ty) :
    type.core ≠ .imported path name (some known) := by
  fun_induction Ty.core type with
  | case1 path name type ih => exact ih
  | case2 type hlayer => exact hlayer path name known

namespace Table

variable {t : Table} {type : Ty}

theorem underlying_core (type : Ty) : t.underlying type.core = t.underlying type := by
  fun_induction Ty.core type with
  | case1 path name type ih => exact ih
  | case2 => rfl

/-- Replacing type parameters before or after taking the underlying type makes no difference, if
the type is not a type parameter itself, only those of the declared type are free in what a
declared type lends, and none is replaced in what is known of an imported type. -/
theorem underlying_subst (bind : Binding) (hparam : ∀ name, type ≠ .param name)
    (hnamed : ∀ id args, type = .named id args → args.length = (t.typeParams id).length ∧
      ∀ known, t.underlying? id = some known →
        ∀ name ∈ known.free, name ∈ (t.typeParams id).map TypeParam.name)
    (himported : ∀ path name known, type = .imported path name (some known) →
      (t.underlying known).subst bind = t.underlying known) :
    t.underlying (type.subst bind) = (t.underlying type).subst bind := by
  cases type with
  | named id args =>
    obtain ⟨hlength, hfree⟩ := hnamed id args rfl
    have hempty : (Ty.substs bind args).isEmpty = args.isEmpty := by
      rw [Ty.substs_eq_map, List.isEmpty_map]
    rw [Ty.subst, underlying, underlying, instance?, instance?, hempty]
    cases hknown : t.underlying? id with
    | none => rfl
    | some known =>
      cases args with
      | nil =>
        -- nothing is free in what a type without parameters lends
        have hclosed := hfree known hknown
        rw [List.length_eq_zero_iff.mp hlength.symm] at hclosed
        exact (Ty.subst_eq_self_of_free fun name hname => absurd (hclosed name hname)
          List.not_mem_nil).symm
      | cons a args => exact (Ty.subst_instantiate (hfree known hknown) hlength bind).symm
  | imported path name underlying =>
    cases underlying with
    | none => rfl
    | some known => exact (himported path name known rfl).symm
  | param name => exact absurd rfl (hparam name)
  | _ => rfl

theorem Counts.length_args (h : t.Counts type) (id : Nat) (args : List Ty)
    (htype : type = .named id args) : args.length = (t.typeParams id).length := by
  subst htype
  exact h (id, args.length) List.mem_cons_self

/-- Nothing is replaced in the underlying type of what is known of an imported type. -/
theorem Scoped.subst_underlying_known (h : t.Scoped) (hcounts : t.Counts type)
    (hsealed : type.core.free = []) (bind : Binding) :
    (t.underlying type).subst bind = t.underlying type := by
  have hself : type.core.subst bind = type.core :=
    Ty.subst_eq_self_of_free fun name hname => absurd (hsealed ▸ hname) List.not_mem_nil
  have hcore : t.underlying (type.core.subst bind) = (t.underlying type.core).subst bind := by
    refine underlying_subst bind (fun name hparam => ?_) (fun id args hnamed => ?_)
      fun path name known himported => absurd himported (type.core_ne_imported path name known)
    · rw [hparam] at hsealed
      exact List.cons_ne_nil _ _ hsealed
    · have hcounted : t.Counts type.core := by
        rw [Counts, Ty.references_core]
        exact hcounts
      exact ⟨hcounted.length_args id args hnamed, h id⟩
  rw [← underlying_core, ← hcore, hself]

theorem Scoped.underlying_subst (h : t.Scoped) (hcounts : t.Counts type)
    (hparam : ∀ name, type ≠ .param name) (hsealed : type.Sealed) (bind : Binding) :
    t.underlying (type.subst bind) = (t.underlying type).subst bind := by
  refine Table.underlying_subst bind hparam
    (fun id args hnamed => ⟨hcounts.length_args id args hnamed, h id⟩)
    fun path name known himported => ?_
  subst himported
  exact h.subst_underlying_known hcounts hsealed bind

end Table

/-- Replacing type parameters by arguments and then others in the result is replacing them by the
arguments in which the others are replaced. And they may be replaced before or after taking the
underlying type of a type that is not a type parameter itself. -/
theorem Ty.instantiate_spec :
    (∀ (type : Ty) (ps qs : List TypeParam) (as bs : List Ty), as.length = ps.length →
      (∀ name ∈ type.free, name ∈ ps.map TypeParam.name) →
      (type.instantiate ps as).instantiate qs bs =
        type.instantiate ps (as.map (Ty.instantiate qs bs))) ∧
    ∀ (t : Table) (type : Ty) (ps : List TypeParam) (as : List Ty), t.Scoped → t.Counts type →
      (∀ name, type ≠ .param name) → type.Sealed →
      t.underlying (type.instantiate ps as) = (t.underlying type).instantiate ps as := by
  refine ⟨fun type ps qs as bs hlength hfree => ?_, fun t type ps as hscoped hcounts hparam
    hsealed => hscoped.underlying_subst hcounts hparam hsealed _⟩
  rw [Ty.instantiate, Ty.subst_instantiate hfree hlength, Ty.substs_eq_map]
  rfl

/-- A table with a declared type of two parameters, which refers to itself. -/
def Table.ofPair : Table :=
  ⟨Table.initial.entries ++ [{
    name := "Pair", package := "p", typeParams := [⟨"A", .any⟩, ⟨"B", .any⟩]
    underlying := some (.struct [
      ⟨"next", .pointer (.named 2 [.param "B", .param "A"]), false, none⟩,
      ⟨"call", .func ⟨none, [], [⟨"a", .param "A"⟩], [⟨"", .param "B"⟩], false⟩, false, none⟩]) }]⟩

theorem Table.scoped_ofPair : Table.ofPair.Scoped
  | 0, _, h | 1, _, h | 2, _, h => by
    cases h
    decide
  | _ + 3, _, h => by cases h

/-- Each of two parameters is replaced by a type that mentions the other. -/
theorem Ty.instantiate_spec_ofPair :
    let params : List TypeParam := [⟨"A", .any⟩, ⟨"B", .any⟩]
    let type : Ty := .named 2 [.param "B", .slice (.param "A")]
    let args : List Ty := [.map (.param "B") (.param "A"), .pointer (.param "A")]
    let others : List Ty := [.basic .int, .basic .string]
    args.length = params.length ∧ (∀ name ∈ type.free, name ∈ params.map TypeParam.name) ∧
      Table.ofPair.Scoped ∧ Table.ofPair.Counts type ∧ (∀ name, type ≠ .param name) ∧
      type.Sealed ∧
      (type.instantiate params args).instantiate params others =
        type.instantiate params
          [.map (.basic .string) (.basic .int), .pointer (.basic .int)] ∧
      Table.ofPair.underlying (type.instantiate params args) =
        (Table.ofPair.underlying type).instantiate params args := by
  intro params type args others
  have hlength : args.length = params.length := rfl
  have hfree : ∀ name ∈ type.free, name ∈ params.map TypeParam.name := by decide
  have hcounts : Table.ofPair.Counts type := by
    show ∀ r ∈ type.references, r.2 = (Table.ofPair.typeParams r.1).length
    decide
  have hparam : ∀ name, type ≠ .param name := fun _ => Ty.noConfusion
  exact ⟨hlength, hfree, Table.scoped_ofPair, hcounts, hparam, trivial,
    Ty.instantiate_spec.1 type params params args others hlength hfree,
    Ty.instantiate_spec.2 Table.ofPair type params args Table.scoped_ofPair hcounts hparam trivial⟩

end GoSignatures

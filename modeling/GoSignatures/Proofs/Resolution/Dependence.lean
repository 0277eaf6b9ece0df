import GoSignatures.Proofs.Resolution.Meaning
import Mathlib.Logic.Relation
import Mathlib.Tactic.ByContra

/-!
# How declarations of types depend on each other

A declaration of a type is resolved when its name is used for the first time, so the order in which
types are reached follows the uses of names. Two kinds of dependence matter: what is reached while
the type parameters of a generic type are resolved, and through which names a type is defined as
another.

* `FileScope.Reached` — what is reached from the constraints of a generic type
* `FileScope.ReachesSelf` — a generic type is reached from its own constraints
* `FileScope.LeadsBack` — another declaration leads from its constraints back to it
* `FileScope.Leads` — a type is defined, through other names, as another
* `FileScope.MayWait` — a type may be reached before the type that it is defined as is finished
* `FileScope.OrderFree` — it makes no difference which type is reached first
* `TypeExpr.head_of_meaning?`, `TypeExpr.named_of_head?` — an expression means a declared type if
  the name in front of it does, and only then
-/

namespace GoSignatures

/-! ## What a declaration uses -/

namespace TypeSpec

/-- The type parameters in force in a declaration. Another name for a type has none. -/
def params (spec : TypeSpec) : List String :=
  if spec.isAlias then [] else TypeParamDecl.allNames spec.typeParams

/-- The names that the constraints of a declaration use. -/
def constraintUses (spec : TypeSpec) : List TypeUse :=
  if spec.isAlias then [] else TypeParamDecl.allUses spec.params spec.typeParams

/-- The names that the right-hand side of a declaration uses. -/
def rightUses (spec : TypeSpec) : List TypeUse :=
  spec.type.uses spec.params

/-- The names that a declaration uses. -/
def uses (spec : TypeSpec) : List TypeUse :=
  spec.constraintUses ++ spec.rightUses

/-- The number of type parameters of a declaration. -/
def arity (spec : TypeSpec) : Nat :=
  (TypeParamDecl.allNames spec.typeParams).length

end TypeSpec

/-- The name in front of a type expression, if a declared type may be meant by it. -/
def TypeExpr.head? (params : List String) : TypeExpr → Option String
  | .named (.plain name) _ => if params.contains name.text then none else some name.text
  | .group inner => inner.head? params
  | _ => none

/-- The name in front of the right-hand side of a declaration. -/
def TypeSpec.head? (spec : TypeSpec) : Option String :=
  spec.type.head? spec.params

namespace FileScope

variable (scope : FileScope)

/-- The declaration of a type name. -/
def spec? (name : String) : Option TypeSpec :=
  match scope.lookup name with
  | some (.type spec) => some spec
  | _ => none

/-- The names that the constraints of a declared type use. -/
def constraintUsesOf (name : String) : List TypeUse :=
  ((scope.spec? name).map TypeSpec.constraintUses).getD []

/-- The names that the declaration of a type uses. -/
def usesOf (name : String) : List TypeUse :=
  ((scope.spec? name).map TypeSpec.uses).getD []

/-- The name in front of the right-hand side of a declaration. -/
def headOf (name : String) : Option String :=
  ((scope.spec? name).map TypeSpec.head?).getD none

/-- The number of type parameters of a declared type. -/
def arityOf (name : String) : Nat :=
  ((scope.spec? name).map TypeSpec.arity).getD 0

/-! ## Dependence -/

/-- The declaration of a type uses a name. -/
def Uses (name other : String) : Prop :=
  ∃ u ∈ scope.usesOf name, u.1 = other

/-- The declarations that are reached from the constraints of a generic type without going through
the type itself. -/
inductive Reached (generic : String) : String → Prop
  | constraint {u : TypeUse} (hu : u ∈ scope.constraintUsesOf generic) (hne : u.1 ≠ generic) :
      Reached generic u.1
  | use {name : String} {u : TypeUse} (h : Reached generic name) (hu : u ∈ scope.usesOf name)
      (hne : u.1 ≠ generic) : Reached generic u.1

/-- A type is defined as another type of the file, directly or through other names for it. -/
inductive Leads : String → String → Prop
  | here {name target : String} (hhead : scope.headOf name = some target)
      (htype : scope.isType target = true) (hdefined : scope.isAlias target = false) :
      Leads name target
  | through {name other target : String} (hhead : scope.headOf name = some other)
      (halias : scope.isAlias other = true) (h : Leads other target) : Leads name target

/-- A type may be reached before the type that it is defined as has its underlying type: the other
type uses it, or has to wait itself. -/
inductive MayWait : String → Prop
  | used {name target : String} (h : scope.Leads name target)
      (huses : Relation.TransGen scope.Uses target name) : MayWait name
  | waits {name target : String} (h : scope.Leads name target) (hwaits : MayWait target) :
      MayWait name

/-- A declaration that is reached from the constraints of a generic type uses that type. -/
def LeadsBack (generic : String) : Prop :=
  ∃ name, scope.Reached generic name ∧ scope.Uses name generic

/-- A generic type is reached from its own constraints: one of them uses it, or a declaration that
is reached from them does. -/
def ReachesSelf (generic : String) : Prop :=
  (∃ u ∈ scope.constraintUsesOf generic, u.1 = generic) ∨
    ∃ name, scope.Reached generic name ∧ scope.Uses name generic

/-- It makes no difference which type is reached first. No other declaration leads from the
constraints of a generic type back to it, which has no type parameters yet; and no type is defined
as an instance of a generic type whose declaration leads to it. -/
structure OrderFree : Prop where
  back : ∀ generic, ¬ scope.LeadsBack generic
  instances : ∀ name target, scope.Leads name target →
    Relation.TransGen scope.Uses target name → scope.arityOf target = 0

variable {scope} {name : String} {spec : TypeSpec}

theorem Reached.ne {generic : String} (h : scope.Reached generic name) : name ≠ generic := by
  cases h with
  | constraint _ hne => exact hne
  | use _ _ hne => exact hne

/-- Where the name in front of a right-hand side leads, the declaration leads. -/
theorem Leads.of_head {other target : String} (hhead : scope.headOf name = some other)
    (htype : scope.isType other = true)
    (h : if scope.isAlias other then scope.Leads other target else other = target) :
    scope.Leads name target := by
  by_cases halias : scope.isAlias other = true
  · rw [if_pos halias] at h
    exact .through hhead halias h
  · rw [if_neg halias] at h
    subst h
    exact .here hhead htype (by simpa using halias)

theorem spec?_eq_some_iff :
    scope.spec? name = some spec ↔ scope.lookup name = some (.type spec) := by
  unfold spec?
  cases scope.lookup name with
  | none => simp
  | some entry => cases entry <;> simp

theorem spec?_eq (h : scope.lookup name = some (.type spec)) : scope.spec? name = some spec :=
  spec?_eq_some_iff.mpr h

theorem usesOf_eq (h : scope.lookup name = some (.type spec)) : scope.usesOf name = spec.uses := by
  rw [usesOf, spec?_eq h, Option.map_some, Option.getD_some]

theorem mem_usesOf_constraint (h : scope.lookup name = some (.type spec)) {u : TypeUse}
    (hu : u ∈ spec.constraintUses) : u ∈ scope.usesOf name := by
  rw [usesOf_eq h]
  exact List.mem_append_left _ hu

theorem mem_usesOf_right (h : scope.lookup name = some (.type spec)) {u : TypeUse}
    (hu : u ∈ spec.rightUses) : u ∈ scope.usesOf name := by
  rw [usesOf_eq h]
  exact List.mem_append_right _ hu

theorem constraintUsesOf_eq (h : scope.lookup name = some (.type spec)) :
    scope.constraintUsesOf name = spec.constraintUses := by
  rw [constraintUsesOf, spec?_eq h, Option.map_some, Option.getD_some]

theorem headOf_eq (h : scope.lookup name = some (.type spec)) : scope.headOf name = spec.head? := by
  rw [headOf, spec?_eq h, Option.map_some, Option.getD_some]

theorem arityOf_eq (h : scope.lookup name = some (.type spec)) :
    scope.arityOf name = spec.arity := by
  rw [arityOf, spec?_eq h, Option.map_some, Option.getD_some]

theorem isAlias_eq (h : scope.lookup name = some (.type spec)) :
    scope.isAlias name = spec.isAlias := by
  rw [isAlias, h]

end FileScope

/-- The name in front of an expression is used by it. -/
theorem TypeExpr.use_of_head? {params : List String} {name : String} :
    ∀ e : TypeExpr, e.head? params = some name → ∃ u ∈ e.uses params, u.1 = name
  | .named (.plain piece) args, h => by
    obtain ⟨hparam, h⟩ := Option.ite_none_left_eq_some.mp h
    cases h
    refine ⟨(piece.text, args.length), ?_, rfl⟩
    rw [TypeExpr.uses, TypeName.uses, if_neg hparam]
    exact List.mem_append_right _ (List.mem_singleton.mpr rfl)
  | .group inner, h => TypeExpr.use_of_head? inner h
termination_by structural e => e

theorem FileScope.uses_of_headOf {scope : FileScope} {name other : String}
    (h : scope.headOf name = some other) : scope.Uses name other := by
  cases hspec : scope.spec? name with
  | none => simp [headOf, hspec] at h
  | some spec =>
    rw [spec?_eq_some_iff] at hspec
    rw [headOf_eq hspec] at h
    obtain ⟨u, hu, rfl⟩ := TypeExpr.use_of_head? spec.type h
    exact ⟨u, mem_usesOf_right hspec hu, rfl⟩

/-- A type depends on the type that it is defined as. -/
theorem FileScope.Leads.transGen_uses {scope : FileScope} {name target : String}
    (h : scope.Leads name target) : Relation.TransGen scope.Uses name target := by
  induction h with
  | here hhead _ _ => exact .single (uses_of_headOf hhead)
  | through hhead _ _ ih => exact .head (uses_of_headOf hhead) ih

/-- The constraints of a generic type lead back to it if another name for it is reached from
them. -/
theorem FileScope.Reached.leadsBack_of_leads {scope : FileScope} {generic name : String}
    (hreached : scope.Reached generic name) (h : scope.Leads name generic)
    (hdefined : scope.isAlias generic = false) : scope.LeadsBack generic := by
  induction h with
  | here hhead _ _ => exact ⟨_, hreached, uses_of_headOf hhead⟩
  | through hhead halias _ ih =>
    obtain ⟨u, hu, rfl⟩ := uses_of_headOf hhead
    refine ih (hreached.use hu ?_) hdefined
    rintro rfl
    rw [halias] at hdefined
    cases hdefined

/-! ## Expressions that mean declared types -/

variable {env : Env} {t : Table} {m : Meanings} {params : List String}

theorem TypeName.named_of_meaning? {name : Piece} {types args : List Ty} {id : Nat}
    (hid : comparableId < id)
    (h : (plain name).meaning? env t m params types = some (.named id args)) :
    env.scope.isType name.text = true ∧ params.contains name.text = false ∧
      (m name.text = some (.named id []) ∧ types.length = args.length ∨
        m name.text = some (.named id args) ∧ args ≠ []) := by
  have hdeclared : ∀ {as : List Ty}, Ty.ofName? env m params name.text = some (.named id as) →
      env.scope.isType name.text = true := by
    intro as hmeans
    by_contra hnot
    exact absurd (Ty.le_comparableId_of_ofName? (by simpa using hnot) hmeans) (Nat.not_le_of_lt hid)
  simp only [meaning?] at h
  split at h
  · next hempty =>
    have htype := hdeclared h
    obtain ⟨hparam, hmeans⟩ := Ty.ofName?_of_isType htype h
    rw [List.isEmpty_iff] at hempty
    subst hempty
    cases args with
    | nil => exact ⟨htype, hparam, Or.inl ⟨hmeans, rfl⟩⟩
    | cons a as => exact ⟨htype, hparam, Or.inr ⟨hmeans, by simp⟩⟩
  · next hempty =>
    obtain ⟨head, hhead, h⟩ := Option.bind_eq_some_iff.mp h
    split at h
    · obtain ⟨htype, h⟩ := Option.ite_none_right_eq_some.mp h
      cases h
      obtain ⟨hparam, hmeans⟩ := Ty.ofName?_of_isType htype hhead
      exact ⟨htype, hparam, Or.inl ⟨hmeans, rfl⟩⟩
    · next hnot =>
      obtain ⟨-, h⟩ := Option.ite_none_right_eq_some.mp h
      cases h
      have htype := hdeclared hhead
      obtain ⟨hparam, hmeans⟩ := Ty.ofName?_of_isType htype hhead
      exact ⟨htype, hparam, Or.inr ⟨hmeans, fun hnil => hnot id (by rw [hnil])⟩⟩

/-- An expression means a declared type of the file only through the name in front of it: the name
means that type without arguments, and it is used with the arguments; or the name is another name
for the type with its arguments. -/
theorem TypeExpr.head_of_meaning? {id : Nat} {args : List Ty} (hid : comparableId < id) :
    ∀ e : TypeExpr, e.meaning? env t m params = some (.named id args) →
      ∃ name count, e.head? params = some name ∧ env.scope.isType name = true ∧
        (name, count) ∈ e.uses params ∧
        (m name = some (.named id []) ∧ count = args.length ∨
          m name = some (.named id args) ∧ args ≠ [])
  | .named (.plain name) targs, h => by
    obtain ⟨types, htypes, h⟩ := Option.bind_eq_some_iff.mp h
    obtain ⟨htype, hparam, hmeans⟩ := TypeName.named_of_meaning? hid h
    have hfree : ¬ params.contains name.text = true := by simpa using hparam
    refine ⟨name.text, targs.length, if_neg hfree, htype, ?_, ?_⟩
    · rw [TypeExpr.uses, TypeName.uses, if_neg hfree]
      exact List.mem_append_right _ (List.mem_singleton.mpr rfl)
    · rw [← TypeArg.length_meanings? htypes]
      exact hmeans
  | .named (.qualified package name) targs, h => by
    obtain ⟨types, -, h⟩ := Option.bind_eq_some_iff.mp h
    obtain ⟨entry, -, himported⟩ := Option.map_eq_some_iff.mp h
    unfold Env.importedType at himported
    split at himported
    · cases himported
    · simp only [Ty.withArguments] at himported
      split at himported <;> cases himported
  | .group inner, h => TypeExpr.head_of_meaning? hid inner h
  | .pointer _, h | .slice _, h | .array .., h | .map .., h | .chan .., h | .func _, h
  | .struct _, h | .interface _, h | .tilde _, h => by
    simp [TypeExpr.meaning?, Ty.union, Option.bind_eq_some_iff] at h
termination_by structural e => e

/-- If the name in front of an expression means a declared type, then so does the expression. -/
theorem TypeExpr.named_of_head? {name : String} {type : Ty}
    (hisType : env.scope.isType name = true) :
    ∀ e : TypeExpr, e.head? params = some name → e.meaning? env t m params = some type →
      ∃ known, m name = some known ∧
        ∀ id args, known = .named id args → ∃ args', type = .named id args'
  | .named (.plain piece) targs, hhead, h => by
    obtain ⟨hparam, hhead⟩ := Option.ite_none_left_eq_some.mp hhead
    cases hhead
    have hname : Ty.ofName? env m params piece.text = m piece.text :=
      Ty.ofName?_eq_of_isType hisType (by simpa using hparam)
    obtain ⟨types, -, h⟩ := Option.bind_eq_some_iff.mp h
    simp only [TypeName.meaning?, Ty.ofGenericName?, hname] at h
    split at h
    · exact ⟨type, h, fun id args htype => ⟨args, htype⟩⟩
    · obtain ⟨known, hknown, h⟩ := Option.bind_eq_some_iff.mp h
      refine ⟨known, hknown, ?_⟩
      rintro id args rfl
      cases args with
      | nil => exact ⟨types, (Option.some.inj h).symm⟩
      | cons a as =>
        obtain ⟨-, h⟩ := Option.ite_none_right_eq_some.mp h
        cases h
        exact ⟨_, rfl⟩
  | .group inner, hhead, h => TypeExpr.named_of_head? hisType inner hhead h
termination_by structural e => e

end GoSignatures

import GoSignatures.Proofs.Resolution.Growth
import GoSignatures.Resolution.Recursion

/-!
# Views of types

Two runs that differ in what is known of imported types find different types. How much of a type is
the same in both is said by a map, the view; what is made of types that look alike must look alike
again.

* `Var.view`, …, `Table.view` — parts of types, and tables, with their types looked at
* `Ty.View` — what a map has to keep for that
-/

namespace GoSignatures

/-! ## Parts -/

section

variable (v : Ty → Ty)

/-- The variable with its type looked at. -/
def Var.view (var : Var) : Var :=
  ⟨var.name, v var.type⟩

/-- The type parameter with its constraint looked at. -/
def TypeParam.view (param : TypeParam) : TypeParam :=
  ⟨param.name, v param.constraint⟩

/-- The signature with its types looked at. -/
def Signature.view (sig : Signature) : Signature where
  receiver := sig.receiver.map (Var.view v)
  typeParams := sig.typeParams.map (TypeParam.view v)
  params := sig.params.map (Var.view v)
  results := sig.results.map (Var.view v)
  variadic := sig.variadic

/-- The field with its type looked at. -/
def Field.view (field : Field) : Field :=
  { field with type := v field.type }

/-- The method with the types of its signature looked at. -/
def Method.view (m : Method) : Method :=
  ⟨m.name, m.signature.view v⟩

/-- The term with its type looked at. -/
def Term.view (term : Term) : Term :=
  ⟨term.tilde, v term.type⟩

/-- The embedded element with its types looked at. -/
def Embedded.view : Embedded → Embedded
  | .type t => .type (v t)
  | .union terms => .union (terms.map (Term.view v))

/-- The interface with the types of its elements looked at. -/
def Interface.view (iface : Interface) : Interface where
  methods := iface.methods.map (Method.view v)
  embeddeds := iface.embeddeds.map (Embedded.view v)
  comparable := iface.comparable

/-- The element of an interface with its types looked at. -/
def ResolvedElem.view : ResolvedElem → ResolvedElem :=
  Sum.map (Method.view v) (Embedded.view v)

/-- The entry with its types looked at. -/
def NamedType.view (entry : NamedType) : NamedType :=
  { entry with
    typeParams := entry.typeParams.map (TypeParam.view v)
    underlying := entry.underlying.map v }

end

/-! ## Tables -/

namespace Table

/-- The table with the types of its entries looked at. -/
def view (v : Ty → Ty) (t : Table) : Table :=
  ⟨t.entries.map (NamedType.view v)⟩

variable (v : Ty → Ty) (t : Table)

@[simp] theorem size_view : (t.view v).size = t.size :=
  List.length_map _

/-- Looking at a table is looking at each of its entries. -/
theorem get?_view (id : Nat) : (t.view v).get? id = (t.get? id).map (NamedType.view v) :=
  List.getElem?_map

theorem typeParams_view (id : Nat) :
    (t.view v).typeParams id = (t.typeParams id).map (TypeParam.view v) := by
  simp only [typeParams, get?_view]
  cases t.get? id <;> rfl

theorem underlying?_view (id : Nat) :
    (t.view v).underlying? id = (t.underlying? id).map v := by
  simp only [underlying?, get?_view]
  cases t.get? id <;> rfl

/-- Tables with the same entry at each place are the same. -/
theorem eq_of_get? {t t' : Table} (h : ∀ id, t.get? id = t'.get? id) : t = t' :=
  congrArg Table.mk (List.ext_getElem? h)

/-- It commutes with whatever is done with tables while types are resolved. -/
theorem view_declare (name package : String) :
    (t.declare name package).view v = (t.view v).declare name package := by
  simp only [view, declare, List.map_append]
  rfl

theorem view_setTypeParams (id : Nat) (params : List TypeParam) :
    (t.setTypeParams id params).view v =
      (t.view v).setTypeParams id (params.map (TypeParam.view v)) := by
  refine eq_of_get? fun j => ?_
  rw [get?_view, get?_setTypeParams, get?_setTypeParams, get?_view, Option.map_map,
    Option.map_map]
  congr 1
  funext entry
  simp only [Function.comp]
  split <;> rfl

theorem view_setUnderlying (id : Nat) (type : Ty) :
    (t.setUnderlying id type).view v = (t.view v).setUnderlying id (v type) := by
  refine eq_of_get? fun j => ?_
  rw [get?_view, get?_setUnderlying, get?_setUnderlying, get?_view, Option.map_map,
    Option.map_map]
  congr 1
  funext entry
  simp only [Function.comp]
  split <;> rfl

/-- Waiting types are settled alike in a table and in what is seen of it. -/
theorem settleRound_view (waiting : List (Nat × Nat)) :
    (t.view v).settleRound waiting = (t.settleRound waiting).map (view v) id := by
  induction waiting generalizing t with
  | nil => rfl
  | cons w waiting ih =>
    obtain ⟨place, target⟩ := w
    rw [settleRound, settleRound, underlying?_view]
    cases t.underlying? target with
    | none =>
      dsimp only [Option.map_none]
      rw [ih]
      rfl
    | some type =>
      dsimp only [Option.map_some]
      rw [← view_setUnderlying, ih]

/-- So types that wait for others can be settled in both tables or in neither. -/
theorem settle_view (waiting : List (Nat × Nat)) :
    (t.view v).settle waiting = (t.settle waiting).map (view v) := by
  induction t, waiting using settle.induct with
  | case1 t waiting t₁ hround =>
    rw [settle, settle, settleRound_view, hround]
    rfl
  | case2 t waiting t₁ place target remaining hround hlt ih =>
    rw [settle, settle, settleRound_view, hround]
    simp only [Prod.map_apply, id, hlt, if_true, ih]
  | case3 t waiting t₁ place target remaining hround hlt =>
    rw [settle, settle, settleRound_view, hround]
    simp only [Prod.map_apply, id, hlt, if_false]
    rfl

/-- The predeclared `error` has its underlying type. -/
def HasError (t : Table) : Prop :=
  t.underlying? errorId = some (.interface ⟨[.error], [], false⟩)

theorem hasError_initial : initial.HasError := rfl

theorem HasError.lt_size {t : Table} (h : t.HasError) : errorId < t.size := by
  unfold HasError underlying? at h
  by_contra hle
  rw [get?, List.getElem?_eq_none (Nat.le_of_not_lt hle)] at h
  cases h

theorem HasError.declare {t : Table} (h : t.HasError) (name package : String) :
    (t.declare name package).HasError := by
  rw [HasError, underlying?, get?_declare_of_lt h.lt_size]
  exact h

theorem HasError.setTypeParams {t : Table} (h : t.HasError) (id : Nat) (params : List TypeParam) :
    (t.setTypeParams id params).HasError := by
  rw [HasError, underlying?_setTypeParams]
  exact h

/-- The predeclared `error` stays as it is, whatever becomes of other types. -/
theorem HasError.setUnderlying {t : Table} (h : t.HasError) {id : Nat} (hid : id ≠ errorId)
    (type : Ty) : (t.setUnderlying id type).HasError := by
  rw [HasError, underlying?, get?_setUnderlying, Option.map_congr fun _ _ => if_neg hid,
    Option.map_id']
  exact h

theorem HasError.settleRound {t : Table} (h : t.HasError) {waiting : List (Nat × Nat)}
    (hwaiting : ∀ w ∈ waiting, w.1 ≠ errorId) : (t.settleRound waiting).1.HasError := by
  induction waiting generalizing t with
  | nil => exact h
  | cons w waiting ih =>
    obtain ⟨place, target⟩ := w
    obtain ⟨hplace, hwaiting⟩ := List.forall_mem_cons.mp hwaiting
    rw [Table.settleRound]
    split
    · exact ih (h.setUnderlying hplace _) hwaiting
    · exact ih h hwaiting

theorem mem_settleRound {t : Table} {waiting : List (Nat × Nat)} {w : Nat × Nat}
    (h : w ∈ (t.settleRound waiting).2) : w ∈ waiting := by
  induction waiting generalizing t with
  | nil => cases h
  | cons first waiting ih =>
    obtain ⟨place, target⟩ := first
    rw [Table.settleRound] at h
    split at h
    · exact List.mem_cons_of_mem _ (ih h)
    · rcases List.mem_cons.mp h with rfl | h
      · exact List.mem_cons_self
      · exact List.mem_cons_of_mem _ (ih h)

/-- No type of the file has its place, so it does not wait for another one. -/
theorem HasError.settle {t t' : Table} (h : t.HasError) {waiting : List (Nat × Nat)}
    (hwaiting : ∀ w ∈ waiting, w.1 ≠ errorId) (hsettle : t.settle waiting = .ok t') :
    t'.HasError := by
  induction t, waiting using settle.induct with
  | case1 t waiting t₁ hround =>
    rw [Table.settle, hround] at hsettle
    cases hsettle
    have hdone := h.settleRound hwaiting
    rwa [hround] at hdone
  | case2 t waiting t₁ place target remaining hround hlt ih =>
    rw [Table.settle, hround] at hsettle
    have hdone := h.settleRound hwaiting
    have hleft : ∀ w ∈ (t.settleRound waiting).2, w.1 ≠ errorId :=
      fun w hw => hwaiting w (mem_settleRound hw)
    rw [hround] at hdone hleft
    refine ih hdone hleft ?_
    simpa only [hlt, if_true] using hsettle
  | case3 t waiting t₁ place target remaining hround hlt =>
    rw [Table.settle, hround] at hsettle
    simp [hlt] at hsettle

end Table

/-! ## Parts of what expressions mean -/

section

variable {v : Ty → Ty}

/-- What looks like a single term without a tilde is one. -/
theorem Term.exists_eq_single {terms : List Term} {a : Ty}
    (h : [(⟨false, a⟩ : Term)].map (Term.view v) = terms.map (Term.view v)) :
    ∃ b, terms = [⟨false, b⟩] ∧ v a = v b := by
  obtain ⟨⟨tilde, b⟩, rfl, hb⟩ := List.map_eq_singleton_iff.mp h.symm
  obtain ⟨rfl, htype⟩ := Term.mk.inj hb
  exact ⟨b, rfl, htype.symm⟩

/-- A union is looked at term by term; a single term stands for itself. -/
theorem Embedded.view_ofTerms : ∀ terms : List Term,
    (Embedded.ofTerms terms).view v = Embedded.ofTerms (terms.map (Term.view v))
  | [] | [⟨true, _⟩] | [⟨false, _⟩] => rfl
  | ⟨true, _⟩ :: ⟨_, _⟩ :: _ | ⟨false, _⟩ :: ⟨_, _⟩ :: _ => rfl

theorem Interface.view_ofElems (found : List ResolvedElem) :
    (Interface.ofElems (found.filterMap Sum.getLeft?) (found.filterMap Sum.getRight?)).view v =
      Interface.ofElems ((found.map (ResolvedElem.view v)).filterMap Sum.getLeft?)
        ((found.map (ResolvedElem.view v)).filterMap Sum.getRight?) := by
  rw [ResolvedElem.view,
    Interface.ofElems_map (Method.view v) (Embedded.view v) fun _ => rfl]
  rfl

theorem Var.map_view_ofNames (names : List String) (type : Ty) :
    (Var.ofNames names type).map (Var.view v) = Var.ofNames names (v type) := by
  unfold Var.ofNames
  split <;> simp [Var.view]

theorem Field.map_view_ofNames (names : List String) (type : Ty) (tag : Option String) :
    (Field.ofNames names type tag).map (Field.view v) = Field.ofNames names (v type) tag := by
  simp [Field.ofNames, Field.view]

end

/-! ## Views -/

/-- A map of types that keeps enough of them for resolving: what is made of types that look alike
looks alike, in tables that look alike, and declared types are told apart from all others. -/
structure Ty.View (v : Ty → Ty) : Prop where
  named : ∀ {id args args'}, args.map v = args'.map v → v (.named id args) = v (.named id args')
  of_named : ∀ {type id args}, v type = v (.named id args) →
    ∃ args', type = .named id args' ∧ args'.map v = args.map v
  pointer : ∀ {a b}, v a = v b → v (.pointer a) = v (.pointer b)
  slice : ∀ {a b}, v a = v b → v (.slice a) = v (.slice b)
  array : ∀ {len len' a b}, v a = v b → v (.array len a) = v (.array len' b)
  map : ∀ {a b c d}, v a = v b → v c = v d → v (.map a c) = v (.map b d)
  chan : ∀ {dir a b}, v a = v b → v (.chan dir a) = v (.chan dir b)
  func : ∀ {sig sig' : Signature}, sig.view v = sig'.view v → v (.func sig) = v (.func sig')
  struct : ∀ {fields fields' : List Field}, fields.map (Field.view v) = fields'.map (Field.view v) →
    v (.struct fields) = v (.struct fields')
  interface : ∀ {iface iface' : Interface}, iface.view v = iface'.view v →
    v (.interface iface) = v (.interface iface')
  withArguments : ∀ t args type, v (type.withArguments t args) = v type
  underlying : ∀ {t t' : Table} {a b}, t.HasError → t'.HasError → t.view v = t'.view v → v a = v b →
    v (t.underlying a) = v (t'.underlying b)
  containsItself : ∀ {t t' : Table}, t.view v = t'.view v → ∀ id,
    t.containsItself id = t'.containsItself id

namespace Ty.View

variable {v : Ty → Ty} (hv : Ty.View v)
include hv

theorem union {terms terms' : List Term} (h : terms.map (Term.view v) = terms'.map (Term.view v)) :
    v (.union terms) = v (.union terms') := by
  refine hv.interface ?_
  simp only [Interface.view, List.map_cons, List.map_nil, Embedded.view, h]

theorem ofTerms {terms terms' : List Term}
    (h : terms.map (Term.view v) = terms'.map (Term.view v)) :
    v (Ty.ofTerms terms) = v (Ty.ofTerms terms') := by
  unfold Ty.ofTerms
  split
  · obtain ⟨b, rfl, hb⟩ := Term.exists_eq_single h
    exact hb
  · next hleft =>
    split
    · obtain ⟨b, rfl, -⟩ := Term.exists_eq_single h.symm
      exact absurd rfl (hleft b)
    · exact hv.union h

end Ty.View

end GoSignatures
